import SwiftDecls.Classification
import SwiftDecls.Declarations.Enums

/-!
# Declarations of built-in types

A value type is a struct with its fields, an opaque handle a final class around a pointer. Both
record their native size if it is known and hold their nested enums. The primitives that Swift
has already are not declared.
-/

set_option autoImplicit false

namespace SwiftDecls

open Source Naming

/-- The built-in types that Swift has already. -/
def primitives : List String := ["Nil", "bool", "int", "float"]

/-- A built-in type is declared unless Swift has it. -/
def isDeclared (name : String) : Bool := !primitives.contains name

namespace Builtin

/-- The class that a built-in is declared as; a name without a class is a handle. -/
def declaredClass (c : Classification) (b : Builtin) : TypeClass :=
  (c.classOf? b.name).getD .opaqueHandle

/-- The first line of the declaration. -/
def declHeader (c : Classification) (b : Builtin) : String :=
  match b.declaredClass c with
  | .value => "public struct " ++ swiftTypeName b.name
  | .opaqueHandle => "public final class " ++ swiftTypeName b.name

/-- The line with the native size. -/
def sizeSteps (c : Classification) (b : Builtin) : List Step :=
  match c.sizeOf? b.name with
  | some size => [.line ("public static let nativeSize = " ++ toString size)]
  | none => []

/-- The line of a field. -/
def fieldLine (c : Classification) (field : Field) : String :=
  "public var " ++ escape (camel field.name) ++ ": " ++ swiftType c.isBuiltin field.type none

/-- The storage: the fields of a value if the description lists any, the pointer of a handle. -/
def storageSteps (c : Classification) (b : Builtin) : List Step :=
  match b.declaredClass c with
  | .value =>
    match b.fields with
    | some fields => .blank :: fields.map fun field => .line (fieldLine c field)
    | none => []
  | .opaqueHandle => [.line "var handle: UnsafeMutableRawPointer?"]

/-- The scope of the nested enums. -/
def scope (doc : Option ClassDoc) (b : Builtin) : EnumScope :=
  .nested (swiftTypeName b.name) (b.name ++ ".") ((doc.map (·.constants)).getD [])

/-- The nested enums after an empty line, if there are any. -/
def nestedSteps (doc : Option ClassDoc) (b : Builtin) : List Step :=
  if b.enumList.isEmpty then [] else .blank :: enumSteps (b.scope doc) b.enumList

/-- The comment with the brief text. -/
def briefComment (doc : Option ClassDoc) (b : Builtin) : List Step :=
  match doc.bind (·.brief) with
  | some brief => docComment (some (swiftTypeName b.name)) brief
  | none => []

/-- The declaration of a built-in type with its comment. -/
def steps (c : Classification) (doc : Option ClassDoc) (b : Builtin) : List Step :=
  b.briefComment doc ++
    [.block (b.declHeader c) "" (b.sizeSteps c ++ b.storageSteps c ++ b.nestedSteps doc)]

/-- The index entries of the nested enums. -/
def indexEntries (b : Builtin) : List (String × EnumDefinition) :=
  (b.scope none).indexEntries b.enumList

end Builtin

end SwiftDecls
