import Mathlib.Data.List.Forall2
import SwiftDecls.Declarations.Builtins
import SwiftDecls.Declarations.Classes
import SwiftDecls.Declarations.Constructors
import SwiftDecls.Proofs.Text.Pieces

/-!
# The names of declarations

A declaration is a block whose header is a keyword, a name and what its kind puts after the
name (`DeclKind.header`), so a header of a known kind has one name (`DeclKind.header_injective`).
The declarations among steps are their blocks (`blocks`): comments, lines and tables have none,
a type is one block, and the enums declared one after the other are one block each
(`forall₂_blocks_enumSteps`).
-/

set_option autoImplicit false

namespace SwiftDecls

open Source Naming

/-! ## Headers -/

/-- The kinds of Swift declarations that are made. -/
inductive DeclKind where
  | valueType
  | handle
  | openClass (base : String)
  | enumeration
  | optionSet

namespace DeclKind

/-- What stands before the name in the header. -/
def keyword : DeclKind → String
  | valueType => "public struct "
  | handle => "public final class "
  | openClass _ => "open class "
  | enumeration => "public enum "
  | optionSet => "public struct "

/-- What stands after the name in the header. -/
def conformance : DeclKind → String
  | valueType => ""
  | handle => ""
  | openClass base => ": " ++ base
  | enumeration => ": Int"
  | optionSet => ": OptionSet"

/-- The header of a declaration. -/
def header (k : DeclKind) (name : String) : String := k.keyword ++ name ++ k.conformance

/-- A header of a known kind has one name. -/
theorem header_injective (k : DeclKind) : Function.Injective k.header := by
  intro m n h
  have hchars := congrArg String.toList h
  simp only [header, String.toList_append, List.append_assoc] at hchars
  have hname := List.append_cancel_right (List.append_cancel_left hchars)
  exact String.toList_inj.1 hname

end DeclKind

/-- The kind that a built-in is declared as. -/
def Builtin.declKind (c : Classification) (b : Builtin) : DeclKind :=
  match b.declaredClass c with
  | .value => .valueType
  | .opaqueHandle => .handle

/-- The kind that an enum is declared as. -/
def EnumDefinition.declKind (e : EnumDefinition) : DeclKind :=
  if e.isBitfield then .optionSet else .enumeration

theorem Builtin.declHeader_eq (c : Classification) (b : Builtin) :
    b.declHeader c = (b.declKind c).header (swiftTypeName b.name) := by
  rw [Builtin.declHeader, Builtin.declKind]
  cases b.declaredClass c with
  | value => simp [DeclKind.header, DeclKind.keyword, DeclKind.conformance]
  | opaqueHandle => simp [DeclKind.header, DeclKind.keyword, DeclKind.conformance]

theorem EngineClass.declHeader_eq (e : EngineClass) :
    e.declHeader = (DeclKind.openClass e.base).header (swiftTypeName e.name) := by
  simp [EngineClass.declHeader, DeclKind.header, DeclKind.keyword, DeclKind.conformance,
    String.append_assoc]

/-- An enum is a block under its Swift name. -/
theorem enumBlock_eq (scope : EnumScope) (name : String) (e : EnumDefinition) :
    ∃ body, enumBlock scope name e = .block (e.declKind.header (swiftTypeName name)) "" body := by
  rw [enumBlock, EnumDefinition.declKind]
  split
  · exact ⟨_, rfl⟩
  · exact ⟨_, rfl⟩

/-! ## Blocks -/

namespace Source

/-- The header and the body of a block. -/
def Step.block? : Step → Option (String × List Step)
  | .block header _ body => some (header, body)
  | _ => none

/-- The blocks among steps, by header and body. -/
def blocks (steps : List Step) : List (String × List Step) := steps.filterMap Step.block?

@[simp] theorem blocks_append (as bs : List Step) : blocks (as ++ bs) = blocks as ++ blocks bs :=
  List.filterMap_append

@[simp] theorem blocks_cons_line (text : String) (rest : List Step) :
    blocks (.line text :: rest) = blocks rest := rfl

@[simp] theorem blocks_cons_blank (rest : List Step) : blocks (.blank :: rest) = blocks rest := rfl

@[simp] theorem blocks_map_line {α : Type} (f : α → String) (as : List α) :
    blocks (as.map fun a => .line (f a)) = [] := by
  induction as with
  | nil => rfl
  | cons a rest ih => rw [List.map_cons, blocks_cons_line, ih]

end Source

/-- Steps declare one thing: a name of a kind, with a body. -/
def Declares (steps : List Step) (k : DeclKind) (name : String) (body : List Step) : Prop :=
  blocks steps = [(k.header name, body)]

/-- Steps declare one name only. -/
theorem Declares.unique {steps body body' : List Step} {k : DeclKind} {name name' : String}
    (h : Declares steps k name body) (h' : Declares steps k name' body') :
    name = name' ∧ body = body' := by
  have hblock := h.symm.trans h'
  simp only [List.cons.injEq, Prod.mk.injEq, and_true] at hblock
  exact ⟨k.header_injective hblock.1, hblock.2⟩

@[simp] theorem blocks_docComment (owner : Option String) (text : String) :
    blocks (docComment owner text) = [] := blocks_map_line _ _

theorem Builtin.declares_steps (c : Classification) (doc : Option ClassDoc) (b : Builtin) :
    Declares (b.steps c doc) (b.declKind c) (swiftTypeName b.name)
      (b.sizeSteps c ++ b.storageSteps c ++ b.nestedSteps doc) := by
  have hcomment : blocks (b.briefComment doc) = [] := by
    unfold Builtin.briefComment
    split
    · exact blocks_docComment _ _
    · rfl
  rw [Declares, Builtin.steps, blocks_append, hcomment, b.declHeader_eq]
  rfl

theorem EngineClass.declares_steps (doc : Option ClassDoc) (e : EngineClass) :
    Declares (e.steps doc) (.openClass e.base) (swiftTypeName e.name)
      (enumSteps (e.scope doc) e.enumList) := by
  have hcomment : blocks (e.briefComment doc) = [] := by
    unfold EngineClass.briefComment
    split
    · exact blocks_docComment _ _
    · rfl
  rw [Declares, EngineClass.steps, blocks_append, hcomment, e.declHeader_eq]
  rfl

/-- An enum that is declared by itself. -/
theorem declares_enumBlock (scope : EnumScope) (name : String) (e : EnumDefinition) :
    ∃ body, Declares [enumBlock scope name e] e.declKind (swiftTypeName name) body := by
  obtain ⟨body, h⟩ := enumBlock_eq scope name e
  exact ⟨body, by rw [h]; rfl⟩

/-- An enum's name does not put it into `Variant`. Only a name with a dot does. -/
def OutsideVariant (name : String) : Prop := ¬ variantMark <+: name.toList

theorem variantName?_of_outside {name : String} (h : OutsideVariant name) :
    variantName? name = none := by
  rw [variantName?, Text.dropPrefix?_eq_none_iff.2 h]
  rfl

theorem toList_variant_append (inner : String) :
    ("Variant." ++ inner).toList = variantMark ++ inner.toList := String.toList_append

theorem variantName?_append (inner : String) :
    variantName? ("Variant." ++ inner) = some inner := by
  rw [variantName?, toList_variant_append, Text.dropPrefix?_append, Option.map_some,
    String.ofList_toList]

theorem exists_inner_of_not_outside {name : String} (h : ¬ OutsideVariant name) :
    ∃ inner, name = "Variant." ++ inner := by
  obtain ⟨rest, hrest⟩ := not_not.1 h
  refine ⟨String.ofList rest, ?_⟩
  rw [← String.toList_inj, toList_variant_append, String.toList_ofList, hrest]

/-- An enum outside `Variant` is a block under its Swift name. -/
theorem block?_enumStep_of_outside (scope : EnumScope) {e : EnumDefinition}
    (h : OutsideVariant e.name) :
    ∃ body, (enumStep scope e).block? = some (e.declKind.header (swiftTypeName e.name), body) := by
  obtain ⟨body, hbody⟩ := enumBlock_eq scope e.name e
  rw [enumStep, variantName?_of_outside h]
  exact ⟨body, congrArg Step.block? hbody⟩

/-- An enum inside `Variant` is declared by the rest of its name in an extension. -/
theorem block?_enumStep_of_inside (scope : EnumScope) {e : EnumDefinition} {inner : String}
    (h : e.name = "Variant." ++ inner) :
    (enumStep scope e).block? = some ("extension Variant", [enumBlock scope inner e]) := by
  rw [enumStep, h, variantName?_append]
  rfl

theorem exists_block?_enumStep (scope : EnumScope) (e : EnumDefinition) :
    ∃ block, (enumStep scope e).block? = some block := by
  by_cases h : OutsideVariant e.name
  · obtain ⟨body, hbody⟩ := block?_enumStep_of_outside scope h
    exact ⟨_, hbody⟩
  · obtain ⟨inner, hname⟩ := exists_inner_of_not_outside h
    exact ⟨_, block?_enumStep_of_inside scope hname⟩

/-- Enums declared one after the other are one block each. -/
theorem forall₂_blocks_enumSteps {R : EnumDefinition → String × List Step → Prop}
    (scope : EnumScope) (enums : List EnumDefinition)
    (h : ∀ e block, (enumStep scope e).block? = some block → R e block) :
    List.Forall₂ R enums (blocks (enumSteps scope enums)) := by
  induction enums with
  | nil => exact .nil
  | cons e rest ih =>
    obtain ⟨block, hblock⟩ := exists_block?_enumStep scope e
    rw [enumSteps, List.map_cons, blocks, List.filterMap_cons, hblock]
    exact .cons (h e block hblock) ih

/-- Outside its enums a built-in type declares nothing. -/
theorem Builtin.blocks_body (c : Classification) (doc : Option ClassDoc) (b : Builtin) :
    blocks (b.sizeSteps c ++ b.storageSteps c ++ b.nestedSteps doc) =
      blocks (enumSteps (b.scope doc) b.enumList) := by
  have hsize : blocks (b.sizeSteps c) = [] := by
    unfold Builtin.sizeSteps
    split <;> rfl
  have hstorage : blocks (b.storageSteps c) = [] := by
    unfold Builtin.storageSteps
    split
    · split
      · rw [blocks_cons_blank]
        exact blocks_map_line _ _
      · rfl
    · rfl
  have hnested : blocks (b.nestedSteps doc) = blocks (enumSteps (b.scope doc) b.enumList) := by
    unfold Builtin.nestedSteps
    split
    · rename_i hempty
      rw [List.isEmpty_iff.1 hempty]
      rfl
    · exact blocks_cons_blank _
  rw [blocks_append, blocks_append, hsize, hstorage, hnested, List.nil_append, List.nil_append]

/-- The table of constructors declares no type. -/
theorem ReferenceTypes.blocks_steps (types : ReferenceTypes) : blocks types.steps = [] := by
  unfold ReferenceTypes.steps
  split <;> rfl

end SwiftDecls
