import Mathlib.Data.List.Infix
import SwiftDecls.Proofs.Declarations.Constructors
import SwiftDecls.Proofs.FlatNames
import SwiftDecls.Proofs.Source.Nesting

/-!
# Declarations are balanced

If the names and types of a description are flat, then all brackets of a declaration are its own,
and every declaration is balanced: enums (`balanced_enumSteps`), built-in types
(`Builtin.balanced_steps`), classes (`EngineClass.balanced_steps`) and the table of constructors
(`ReferenceTypes.balanced_steps`). Comments may hold any brackets, since none of theirs counts.
-/

set_option autoImplicit false

namespace SwiftDecls

open Source Text Naming

/-! ## The names of a description -/

/-- The names that an enum brings into its declaration. -/
def EnumDefinition.names (e : EnumDefinition) : List String := e.name :: e.members.map (·.name)

/-- The names and types that a built-in type brings into its declaration. -/
def Builtin.names (b : Builtin) : List String :=
  b.name :: (b.fields.getD []).flatMap (fun field => [field.name, field.type]) ++
    b.enumList.flatMap EnumDefinition.names

/-- The names that a class brings into its declaration. -/
def EngineClass.names (c : EngineClass) : List String :=
  c.name :: c.inherits.toList ++ c.enumList.flatMap EnumDefinition.names

/-- The names and types that a description brings into declarations. -/
def Api.names (api : Api) : List String :=
  api.globalEnums.flatMap EnumDefinition.names ++ api.builtins.flatMap Builtin.names ++
    api.classes.flatMap EngineClass.names

/-- Names without line feeds and brackets. -/
def AreFlat (names : List String) : Prop := ∀ name ∈ names, IsFlat name.toList

instance (names : List String) : Decidable (AreFlat names) := List.decidableBAll _ names

theorem AreFlat.of_subset {ms ns : List String} (h : AreFlat ns) (hs : ms ⊆ ns) : AreFlat ms :=
  fun m hm => h m (hs hm)

theorem AreFlat.of_flatMap {α : Type} {f : α → List String} {as : List α}
    (h : AreFlat (as.flatMap f)) {a : α} (ha : a ∈ as) : AreFlat (f a) :=
  fun n hn => h n (List.mem_flatMap.2 ⟨a, ha, hn⟩)

/-! ## Lines and blocks -/

/-- A flat line that does not start with a blank. -/
theorem Balanced.flatLine {text : String} (hhead : text.toList.head? ≠ some ' ')
    (hflat : IsFlat text.toList) : Balanced [.line text] :=
  .line hflat.lineFeed_not_mem (lineNests_of_isFlat hhead hflat)

/-! ## Enums -/

theorem balanced_memberComment (scope : EnumScope) (member : EnumMember) :
    Balanced (scope.memberComment member) := by
  unfold EnumScope.memberComment
  split
  · exact .docComment _ _
  · exact .nil

theorem balanced_caseLine (enumName : String) (live : Bool) {member : EnumMember}
    (h : IsFlat member.name.toList) : Balanced [.line (caseLine enumName live member)] := by
  have hname : IsFlat (memberName enumName member.name).toList := isFlat_memberName h
  have hvalue := isFlat_toString_int member.value
  have hfixed : IsFlat "".toList ∧ IsFlat "// ".toList ∧ IsFlat "case ".toList ∧
      IsFlat " = ".toList ∧ IsFlat " // ".toList := by decide
  refine .flatLine ?_ ?_
  · cases live <;> simp [caseLine]
  · cases live <;>
      simp only [caseLine, if_true, Bool.false_eq_true, if_false, String.toList_append,
        isFlat_append, hfixed, hname, hvalue, h, and_self]

theorem toList_flagLine (enumName typeName : String) (member : EnumMember) :
    (flagLine enumName typeName member).toList = "public static let ".toList ++
      (memberName enumName member.name).toList ++ " = ".toList ++ typeName.toList ++
        "(rawValue: ".toList ++ (toString member.value).toList ++ ")".toList := by
  delta flagLine
  simp only [String.toList_append]

theorem balanced_flagLine {enumName typeName : String} (htype : IsFlat typeName.toList)
    {member : EnumMember} (h : IsFlat member.name.toList) :
    Balanced [.line (flagLine enumName typeName member)] := by
  have hname : IsFlat (memberName enumName member.name).toList := isFlat_memberName h
  have hvalue := isFlat_toString_int member.value
  have hfixed : IsFlat "public static let ".toList ∧ IsFlat " = ".toList ∧
      IsFlat "(rawValue: ".toList ∧ IsFlat ")".toList := by decide
  refine .flatLine ?_ ?_
  · simp [toList_flagLine]
  · simp only [toList_flagLine, isFlat_append, hfixed, hname, hvalue, htype, and_self]

theorem balanced_caseSteps (scope : EnumScope) (enumName : String) (used : List Int)
    {members : List EnumMember} (h : ∀ m ∈ members, IsFlat m.name.toList) :
    Balanced (caseSteps scope enumName used members) := by
  induction members generalizing used with
  | nil => exact .nil
  | cons member rest ih =>
    have hmember := h member List.mem_cons_self
    have hrest : ∀ m ∈ rest, IsFlat m.name.toList := fun m hm => h m (List.mem_cons_of_mem _ hm)
    unfold caseSteps
    split
    · exact ih used hrest
    · exact (balanced_memberComment scope member).append
        ((balanced_caseLine enumName _ hmember).cons (ih _ hrest))

theorem balanced_flagSteps (scope : EnumScope) {enumName : String}
    (hname : IsFlat enumName.toList) {members : List EnumMember}
    (h : ∀ m ∈ members, IsFlat m.name.toList) :
    Balanced (flagSteps scope enumName members) :=
  .flatMap fun member hmember => (balanced_memberComment scope member).append
    (balanced_flagLine (isFlat_swiftTypeName hname) (h member hmember))

theorem balanced_optionSetSteps : Balanced optionSetSteps := by
  have hbody : Balanced [.line "self.rawValue = rawValue"] :=
    .flatLine (by decide) (by decide)
  have hinit : Balanced [.block "public init(rawValue: Int)" "" [.line "self.rawValue = rawValue"]] :=
    .block (by decide) (by decide) hbody
  exact .cons (.flatLine (by decide) (by decide)) hinit

theorem balanced_enumBlock (scope : EnumScope) {name : String} (hname : IsFlat name.toList)
    {e : EnumDefinition} (he : AreFlat e.names) : Balanced [enumBlock scope name e] := by
  have hswift := isFlat_swiftTypeName hname
  have hfixed : IsFlat "public struct ".toList ∧ IsFlat ": OptionSet".toList ∧
      IsFlat "public enum ".toList ∧ IsFlat ": Int".toList := by decide
  have hmembers : ∀ m ∈ e.members, IsFlat m.name.toList := fun m hm =>
    he m.name (List.mem_cons_of_mem _ (List.mem_map_of_mem hm))
  unfold enumBlock
  split
  · refine .block ?_ ?_ (balanced_optionSetSteps.append (balanced_flagSteps scope hname hmembers))
    · simp [startsCode, isCloser]
    · simp only [String.toList_append, isFlat_append, hfixed, hswift, and_self]
  · refine .block ?_ ?_ (balanced_caseSteps scope name [] hmembers)
    · simp [startsCode, isCloser]
    · simp only [String.toList_append, isFlat_append, hfixed, hswift, and_self]

theorem balanced_enumStep (scope : EnumScope) {e : EnumDefinition} (he : AreFlat e.names) :
    Balanced [enumStep scope e] := by
  have hname : IsFlat e.name.toList := he e.name List.mem_cons_self
  unfold enumStep
  split
  · rename_i inner hinner
    obtain ⟨rest, hrest, rfl⟩ := Option.map_eq_some_iff.1 hinner
    have hflat : IsFlat (String.ofList rest).toList := by
      rw [String.toList_ofList]
      exact isFlat_of_dropPrefix? hname hrest
    exact .block (by decide) (by decide) (balanced_enumBlock scope hflat he)
  · exact balanced_enumBlock scope hname he

/-- Enums with flat names are balanced. -/
theorem balanced_enumSteps (scope : EnumScope) {enums : List EnumDefinition}
    (h : AreFlat (enums.flatMap EnumDefinition.names)) : Balanced (enumSteps scope enums) :=
  .map fun _ he => balanced_enumStep scope (h.of_flatMap he)

/-! ## Types -/

namespace Builtin

theorem balanced_sizeSteps (c : Classification) (b : Builtin) : Balanced (b.sizeSteps c) := by
  unfold sizeSteps
  split
  · rename_i size _
    have hsize := isFlat_toString_nat size
    have hfixed : IsFlat "public static let nativeSize = ".toList := by decide
    refine .flatLine (by simp) ?_
    simp only [String.toList_append, isFlat_append, hfixed, hsize, and_self]
  · exact .nil

theorem balanced_fieldLine (c : Classification) {field : Field} (hname : IsFlat field.name.toList)
    (htype : IsFlat field.type.toList) : Balanced [.line (fieldLine c field)] := by
  have hname := isFlat_escape (isFlat_camel hname)
  have htype := isFlat_swiftType c.isBuiltin htype
  have hfixed : IsFlat "public var ".toList ∧ IsFlat ": ".toList := by decide
  refine .flatLine (by simp [fieldLine]) ?_
  simp only [fieldLine, String.toList_append, isFlat_append, hfixed, hname, htype, and_self]

theorem balanced_storageSteps (c : Classification) {b : Builtin} (hb : AreFlat b.names) :
    Balanced (b.storageSteps c) := by
  unfold storageSteps
  split
  · split
    · rename_i fields hfields
      refine .cons .blank (.map fun field hfield => ?_)
      have hnames : AreFlat [field.name, field.type] := by
        refine hb.of_subset fun n hn => List.mem_append_left _ (List.mem_cons_of_mem _ ?_)
        rw [hfields]
        exact List.mem_flatMap.2 ⟨field, hfield, hn⟩
      exact balanced_fieldLine c (hnames _ (by simp)) (hnames _ (by simp))
    · exact .nil
  · exact .flatLine (by decide) (by decide)

theorem balanced_nestedSteps (doc : Option ClassDoc) {b : Builtin} (hb : AreFlat b.names) :
    Balanced (b.nestedSteps doc) := by
  unfold nestedSteps
  split
  · exact .nil
  · exact .cons .blank (balanced_enumSteps _ (hb.of_subset (List.subset_append_right _ _)))

theorem balanced_briefComment (doc : Option ClassDoc) (b : Builtin) :
    Balanced (b.briefComment doc) := by
  unfold briefComment
  split
  · exact .docComment _ _
  · exact .nil

/-- A built-in type with flat names and types is balanced. -/
theorem balanced_steps (c : Classification) (doc : Option ClassDoc) {b : Builtin}
    (hb : AreFlat b.names) : Balanced (b.steps c doc) := by
  have hname := isFlat_swiftTypeName (hb b.name List.mem_cons_self)
  have hfixed : IsFlat "public struct ".toList ∧ IsFlat "public final class ".toList := by decide
  refine (b.balanced_briefComment doc).append (.block ?_ ?_ ?_)
  · unfold declHeader
    split <;> simp [startsCode, isCloser]
  · unfold declHeader
    split <;> simp only [String.toList_append, isFlat_append, hfixed, hname, and_self]
  · exact ((b.balanced_sizeSteps c).append (balanced_storageSteps c hb)).append
      (balanced_nestedSteps doc hb)

end Builtin

namespace EngineClass

theorem balanced_briefComment (doc : Option ClassDoc) (c : EngineClass) :
    Balanced (c.briefComment doc) := by
  unfold briefComment
  split
  · exact .docComment _ _
  · exact .nil

theorem isFlat_base {c : EngineClass} (hc : AreFlat c.names) : IsFlat c.base.toList := by
  unfold base
  cases hparent : c.inherits with
  | none => exact (by decide : IsFlat rootBase.toList)
  | some parent =>
    refine isFlat_swiftTypeName (hc parent (List.mem_append_left _ (List.mem_cons_of_mem _ ?_)))
    rw [hparent]
    exact List.mem_cons_self

/-- A class with flat names is balanced. -/
theorem balanced_steps (doc : Option ClassDoc) {c : EngineClass} (hc : AreFlat c.names) :
    Balanced (c.steps doc) := by
  have hname := isFlat_swiftTypeName (hc c.name List.mem_cons_self)
  have hbase := isFlat_base hc
  have hfixed : IsFlat "open class ".toList ∧ IsFlat ": ".toList := by decide
  refine (c.balanced_briefComment doc).append (.block ?_ ?_ ?_)
  · simp [declHeader, startsCode, isCloser]
  · simp only [declHeader, String.toList_append, isFlat_append, hfixed, hname, hbase, and_self]
  · exact balanced_enumSteps _ (hc.of_subset (List.subset_append_right _ _))

end EngineClass

/-! ## The table of constructors -/

namespace ReferenceTypes

theorem nesting_nonneg_of_prefix_tableStart {cs : List Char}
    (h : cs <+: (tableStart ++ ":]").toList) : 0 ≤ nesting cs := by
  have hall : ∀ cs ∈ (tableStart ++ ":]").toList.inits, 0 ≤ nesting cs := by decide +kernel
  exact hall cs ((List.mem_inits _ _).2 h)

theorem balanced_entryLine {name swiftName : String} (hname : IsFlat name.toList)
    (hswift : IsFlat swiftName.toList) : Balanced [.line (entryLine name swiftName)] := by
  have hfixed : IsFlat "\"".toList ∧ IsFlat "\": ".toList ∧ IsFlat ".self,".toList := by decide
  refine .flatLine (by simp [entryLine]) ?_
  simp only [entryLine, String.toList_append, isFlat_append, hfixed, hname, hswift, and_self]

/-- The table of classes with flat names is balanced. -/
theorem balanced_steps {names : List String} (h : AreFlat names) :
    Balanced (registerAll ∅ names).steps := by
  unfold steps
  split
  · refine .line (by decide) fun n => ?_
    exact lineNests_of_startsCode (k := 0) (by decide)
      (fun cs hcs => nesting_nonneg_of_prefix_tableStart hcs) (by decide) n
  · have hentries : Balanced ((registerAll ∅ names).entries.map fun e =>
        .line (entryLine e.1 e.2)) := by
      refine .map fun e he => ?_
      have hget := SortedMap.get?_eq_some_iff.2 he
      rw [get?_registerAll] at hget
      split at hget
      · rename_i hmem
        rw [← Option.some.inj hget]
        exact balanced_entryLine (h e.1 hmem) (isFlat_swiftTypeName (h e.1 hmem))
      · cases hget
    intro depth
    have hopen : LineNests depth (indented depth tableStart.toList) (depth + 1) :=
      lineNests_of_startsCode (by decide) (fun cs hcs =>
        nesting_nonneg_of_prefix_tableStart (hcs.trans (List.prefix_append _ _))) (by decide) depth
    have hclosing : "]" = String.singleton ']' := by decide
    simp only [stepLines_cons, stepLines_nil, Step.lines, List.append_nil, ← List.append_assoc,
      hclosing]
    exact Balanced.enclose (by decide) hopen hentries rfl

end ReferenceTypes

end SwiftDecls
