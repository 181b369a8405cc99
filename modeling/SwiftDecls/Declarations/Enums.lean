import SwiftDecls.Api
import SwiftDecls.Docs.ClassDoc
import SwiftDecls.Docs.Comment
import SwiftDecls.SortedMap

/-!
# Declarations of enums and flags

An enum becomes a Swift enum with integer raw values, a bit field an option set. Swift refuses
two cases with one value, so only the first member of a value is a live case and later ones
stay in comments; option sets have no such rule and keep every member. An enum named
`Variant.X` is declared as `X` in an extension of `Variant`.

A scope says to whom the enums belong: the class that their documentation speaks of, the
documented constants, and the start of their keys in the index of enums.
-/

set_option autoImplicit false

namespace SwiftDecls

open Text Source Naming

/-- All enums declared so far, by owner and name. -/
abbrev EnumIndex := SortedMap String EnumDefinition

/-- Where enums are declared. -/
structure EnumScope where
  owner : Option String := none
  constants : List DocConstant := []
  /-- What keys in the index start with; `none` for enums that are not indexed. -/
  keyStart : Option String := none

namespace EnumScope

/-- The scope of global enums. -/
def globals (constants : List DocConstant) : EnumScope := ⟨none, constants, some ""⟩

/-- The scope of the enums nested in a type. -/
def nested (owner keyStart : String) (constants : List DocConstant) : EnumScope :=
  ⟨some owner, constants, some keyStart⟩

/-- The entries of the index for enums declared in the scope. -/
def indexEntries (scope : EnumScope) (enums : List EnumDefinition) :
    List (String × EnumDefinition) :=
  match scope.keyStart with
  | some start => enums.map fun e => (start ++ e.name, e)
  | none => []

/-- The comment of a member: that of the first documented constant with its name. -/
def memberComment (scope : EnumScope) (member : EnumMember) : List Step :=
  match findConstant? scope.constants member.name with
  | some constant => docComment scope.owner constant.text
  | none => []

end EnumScope

/-- The enum whose shortened members Swift has no use for. -/
def inlineAlignment : String := "InlineAlignment"

/-- The members that `inlineAlignment` leaves out. -/
def inlineAlignmentOmissions : List String := [
  "INLINE_ALIGNMENT_TOP_TO", "INLINE_ALIGNMENT_TO_TOP", "INLINE_ALIGNMENT_IMAGE_MASK",
  "INLINE_ALIGNMENT_TEXT_MASK"]

/-- A member that its enum leaves out. -/
def isOmitted (enumName member : String) : Bool :=
  enumName == inlineAlignment && inlineAlignmentOmissions.contains member

/-- The line of a case. -/
def caseLine (enumName : String) (live : Bool) (member : EnumMember) : String :=
  (if live then "" else "// ") ++ "case " ++ memberName enumName member.name ++ " = " ++
    toString member.value ++ " // " ++ member.name

/-- The cases of an enum after members with the values `used`. -/
def caseSteps (scope : EnumScope) (enumName : String) (used : List Int) :
    List EnumMember → List Step
  | [] => []
  | member :: rest =>
    if isOmitted enumName member.name then caseSteps scope enumName used rest
    else
      scope.memberComment member ++
        .line (caseLine enumName (!used.contains member.value) member) ::
          caseSteps scope enumName (member.value :: used) rest

/-- The line of a flag of the type `typeName`. -/
def flagLine (enumName typeName : String) (member : EnumMember) : String :=
  "public static let " ++ memberName enumName member.name ++ " = " ++ typeName ++
    "(rawValue: " ++ toString member.value ++ ")"

/-- The flags of a bit field. -/
def flagSteps (scope : EnumScope) (enumName : String) (members : List EnumMember) : List Step :=
  members.flatMap fun member =>
    scope.memberComment member ++ [.line (flagLine enumName (swiftTypeName enumName) member)]

/-- The members that make a type an option set. -/
def optionSetSteps : List Step := [
  .line "public let rawValue: Int",
  .block "public init(rawValue: Int)" "" [.line "self.rawValue = rawValue"]]

/-- The declaration of an enum under a name of its own. -/
def enumBlock (scope : EnumScope) (enumName : String) (e : EnumDefinition) : Step :=
  if e.isBitfield then
    .block ("public struct " ++ swiftTypeName enumName ++ ": OptionSet") ""
      (optionSetSteps ++ flagSteps scope enumName e.members)
  else
    .block ("public enum " ++ swiftTypeName enumName ++ ": Int") ""
      (caseSteps scope enumName [] e.members)

/-- What the names of enums inside `Variant` start with. -/
def variantMark : List Char := "Variant.".toList

/-- The name of an enum inside `Variant`. -/
def variantName? (name : String) : Option String :=
  (dropPrefix? variantMark name.toList).map String.ofList

/-- The declaration of an enum. -/
def enumStep (scope : EnumScope) (e : EnumDefinition) : Step :=
  match variantName? e.name with
  | some name => .block "extension Variant" "" [enumBlock scope name e]
  | none => enumBlock scope e.name e

/-- The declarations of enums, one after the other. -/
def enumSteps (scope : EnumScope) (enums : List EnumDefinition) : List Step :=
  enums.map (enumStep scope)

end SwiftDecls
