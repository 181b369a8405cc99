import SwiftDecls.Declarations.Builtins
import SwiftDecls.Declarations.Classes
import SwiftDecls.Proofs.Json.Plain
import SwiftDecls.Proofs.Source.Layout

/-!
# Integers in declarations

The value of a member of an enum and the size of a built-in type are written in decimal, each in a
line of its own. The rest of a declaration may change with the value of a member, as a later member
may become a comment or a live case, but nothing before that line does. So texts for all values
begin alike up to the line, and go on with it (`CarryLine`): for a member of an enum
(`carryLine_enumStep`) and for the size of a type (`Builtin.carryLine_size`).
-/

set_option autoImplicit false

namespace SwiftDecls

open Source Text Naming Json

variable {ι α : Type}

/-! ## Lines in texts that begin alike -/

/-- Texts that begin alike and then go on with a line each. -/
def CarryLine (line text : ι → String) : Prop :=
  ∃ before depth, ∀ i, ∃ after, text i = before ++ indentLines depth (line i) ++ after

theorem CarryLine.around {line text : ι → String} (h : CarryLine line text) (start : String)
    (rest : ι → String) : CarryLine line fun i => start ++ text i ++ rest i := by
  obtain ⟨before, depth, htext⟩ := h
  refine ⟨start ++ before, depth, fun i => ?_⟩
  obtain ⟨after, hafter⟩ := htext i
  refine ⟨after ++ rest i, ?_⟩
  dsimp only
  rw [hafter]
  simp only [String.append_assoc]

theorem render_append (depth : Nat) (before after : List Step) :
    render depth (before ++ after) = render depth before ++ render depth after := by
  simp only [render_eq_unlines, stepLines_append, unlines_append]

theorem render_cons (depth : Nat) (s : Step) (rest : List Step) :
    render depth (s :: rest) = render depth [s] ++ render depth rest := render_append depth [s] rest

theorem render_line (depth : Nat) (text : String) :
    render depth [.line text] = indentLines depth text := by
  rw [render_eq_unlines, stepLines_cons, stepLines_nil, List.append_nil, Step.lines,
    indentLines_eq_unlines]

theorem render_block (depth : Nat) (header suffix : String) (body : List Step) :
    render depth [.block header suffix body] =
      indentLines depth (header ++ " \x7b") ++ render (depth + 1) body ++
        (indentLines depth ("\x7d" ++ suffix) ++ "\n") := by
  simp only [render_eq_unlines, stepLines_cons, stepLines_nil, List.append_nil, Step.lines,
    unlines_append, unlines_empty, indentLines_eq_unlines, String.append_assoc]

/-- A step among others, of which those after it may change with it. -/
theorem CarryLine.step {line : ι → String} {depth : Nat} {s : ι → Step}
    (h : CarryLine line fun i => render depth [s i]) (before : List Step) (after : ι → List Step) :
    CarryLine line fun i => render depth (before ++ s i :: after i) := by
  have heq : (fun i => render depth (before ++ s i :: after i)) =
      fun i => render depth before ++ render depth [s i] ++ render depth (after i) := by
    funext i
    rw [render_append, render_cons, String.append_assoc]
  rw [heq]
  exact h.around _ _

/-- Steps behind others. -/
theorem CarryLine.behind {line : ι → String} {depth : Nat} {steps : ι → List Step}
    (h : CarryLine line fun i => render depth (steps i)) (before : List Step) :
    CarryLine line fun i => render depth (before ++ steps i) := by
  simp only [render_append]
  simpa only [String.append_empty] using h.around (render depth before) fun _ => ""

theorem CarryLine.block {line : ι → String} {depth : Nat} {body : ι → List Step}
    (h : CarryLine line fun i => render (depth + 1) (body i)) (header suffix : String) :
    CarryLine line fun i => render depth [.block header suffix (body i)] := by
  simp only [render_block]
  exact h.around _ _

theorem carryLine_line (line : ι → String) (depth : Nat) :
    CarryLine line fun i => render depth [.line (line i)] := by
  refine ⟨"", depth, fun i => ⟨"", ?_⟩⟩
  rw [String.empty_append, String.append_empty]
  exact render_line depth (line i)

/-! ## Decimal digits -/

/-- An integer in decimal, as its plain literal has it. -/
def decimal (n : Int) : String := String.ofList (Token.text (.number (Number.integerLiteral n)))

theorem toString_nat_eq (n : Nat) : toString n = decimal n := by
  have hpositive : ¬((n : Int) < 0) := by omega
  rw [decimal, Nat.toString_eq_ofList_toDigits]
  simp [Token.text, Number.integerLiteral, hpositive]

theorem toString_int_eq (n : Int) : toString n = decimal n := by
  cases n with
  | ofNat n => exact toString_nat_eq n
  | negSucc n =>
    have hneg : Int.negSucc n < 0 := Int.negSucc_lt_zero n
    have htext : toString (Int.negSucc n) = "-" ++ toString (n + 1) := rfl
    rw [htext, Nat.toString_eq_ofList_toDigits, decimal]
    simp [Token.text, Number.integerLiteral, hneg]

/-! ## Members of enums -/

/-- The name that an enum has inside `Variant`, or else its name. -/
def EnumDefinition.localName (e : EnumDefinition) : String := (variantName? e.name).getD e.name

/-- The line of a member with a value in the place of its own: that of a flag, or that of a case,
which is live or in a comment. -/
def EnumDefinition.valueLine (e : EnumDefinition) (m : EnumMember) (live : Int → Bool) (n : Int) :
    String :=
  if e.isBitfield then
    "public static let " ++ memberName e.localName m.name ++ " = " ++ swiftTypeName e.localName ++
      "(rawValue: " ++ decimal n ++ ")"
  else
    (if live n then "" else "// ") ++ "case " ++ memberName e.localName m.name ++ " = " ++
      decimal n ++ " // " ++ m.name

/-- A member that is written: an enum can leave members out, a bit field does not. -/
def EnumDefinition.Writes (e : EnumDefinition) (m : EnumMember) : Prop :=
  e.isBitfield = true ∨ isOmitted e.localName m.name = false

/-- An enum with another value for its member at a place. -/
def EnumDefinition.withValue (e : EnumDefinition) (i : Nat) (n : Int) : EnumDefinition :=
  { e with members := e.members.modify i fun m => { m with value := n } }

/-- An item of a list is replaced. -/
theorem modify_length_append (before : List α) (a : α) (after : List α) (f : α → α) :
    (before ++ a :: after).modify before.length f = before ++ f a :: after := by
  induction before with
  | nil => rfl
  | cons b before ih => exact congrArg (b :: ·) ih

/-- An item of a list, what is before it and what is after it. -/
theorem exists_modify_eq {as : List α} {i : Nat} {a : α} (h : as[i]? = some a) :
    ∃ before after, as = before ++ a :: after ∧ ∀ f, as.modify i f = before ++ f a :: after := by
  obtain ⟨hi, rfl⟩ := List.getElem?_eq_some_iff.1 h
  refine ⟨as.take i, as.drop (i + 1), ?_, fun f => List.modify_eq_take_cons_drop hi⟩
  rw [← List.drop_eq_getElem_cons hi, List.take_append_drop]

/-- The values used after more members. -/
def usedAfter (enumName : String) (used : List Int) (members : List EnumMember) : List Int :=
  members.foldl (fun used m => if isOmitted enumName m.name then used else m.value :: used) used

theorem caseSteps_append (scope : EnumScope) (enumName : String) (used : List Int)
    (before after : List EnumMember) :
    caseSteps scope enumName used (before ++ after) =
      caseSteps scope enumName used before ++
        caseSteps scope enumName (usedAfter enumName used before) after := by
  induction before generalizing used with
  | nil => rfl
  | cons m before ih =>
    rw [List.cons_append, caseSteps, caseSteps, usedAfter, List.foldl_cons]
    split
    · exact ih used
    · rw [ih, List.append_assoc, List.cons_append]
      rfl

theorem flagLine_eq {e : EnumDefinition} (h : e.isBitfield = true) (m : EnumMember)
    (live : Int → Bool) (n : Int) :
    flagLine e.localName (swiftTypeName e.localName) { m with value := n } =
      e.valueLine m live n := by
  unfold EnumDefinition.valueLine flagLine
  rw [if_pos h, toString_int_eq]

theorem caseLine_eq {e : EnumDefinition} (h : ¬e.isBitfield = true) (m : EnumMember)
    (live : Int → Bool) (n : Int) :
    caseLine e.localName (live n) { m with value := n } = e.valueLine m live n := by
  unfold EnumDefinition.valueLine caseLine
  rw [if_neg h, toString_int_eq]

/-- Members of a bit field or cases of an enum, one of them with any value. -/
theorem carryLine_enumBlock (scope : EnumScope) {e : EnumDefinition} {i : Nat} {m : EnumMember}
    (hm : e.members[i]? = some m) (hwrites : e.Writes m) (depth : Nat) :
    ∃ live, CarryLine (e.valueLine m live) fun n =>
      render depth [enumBlock scope e.localName (e.withValue i n)] := by
  obtain ⟨before, after, -, hmodify⟩ := exists_modify_eq hm
  have hmembers : ∀ n, (e.withValue i n).members = before ++ { m with value := n } :: after :=
    fun n => hmodify _
  by_cases hbitfield : e.isBitfield = true
  · have hbody : ∀ n, flagSteps scope e.localName (e.withValue i n).members =
        flagSteps scope e.localName before ++ (scope.memberComment m ++
          .line (e.valueLine m (fun _ => true) n) :: flagSteps scope e.localName after) := by
      intro n
      rw [hmembers, flagSteps, List.flatMap_append, List.flatMap_cons,
        flagLine_eq hbitfield m (fun _ => true), List.append_assoc]
      rfl
    have hblock : ∀ n, enumBlock scope e.localName (e.withValue i n) =
        .block ("public struct " ++ swiftTypeName e.localName ++ ": OptionSet") ""
          ((optionSetSteps ++ flagSteps scope e.localName before ++ scope.memberComment m) ++
            .line (e.valueLine m (fun _ => true) n) :: flagSteps scope e.localName after) := by
      intro n
      have hsame : (e.withValue i n).isBitfield = true := hbitfield
      rw [enumBlock, if_pos hsame, hbody, List.append_assoc, List.append_assoc]
    refine ⟨fun _ => true, ?_⟩
    simp only [hblock]
    exact ((carryLine_line _ _).step _ _).block _ _
  · have hkept : isOmitted e.localName m.name = false := hwrites.resolve_left hbitfield
    let used := usedAfter e.localName [] before
    let live : Int → Bool := fun n => !used.contains n
    have hbody : ∀ n, caseSteps scope e.localName [] (e.withValue i n).members =
        (caseSteps scope e.localName [] before ++ scope.memberComment m) ++
          .line (e.valueLine m live n) :: caseSteps scope e.localName (n :: used) after := by
      intro n
      rw [hmembers, caseSteps_append, caseSteps, hkept, if_neg Bool.false_ne_true,
        caseLine_eq hbitfield m live, List.append_assoc]
      rfl
    have hblock : ∀ n, enumBlock scope e.localName (e.withValue i n) =
        .block ("public enum " ++ swiftTypeName e.localName ++ ": Int") ""
          (caseSteps scope e.localName [] (e.withValue i n).members) := by
      intro n
      have hsame : ¬(e.withValue i n).isBitfield = true := hbitfield
      rw [enumBlock, if_neg hsame]
    refine ⟨live, ?_⟩
    simp only [hblock, hbody]
    exact ((carryLine_line _ _).step _ _).block _ _

/-- **The value of a member is in the line of the member**, which no value moves. -/
theorem carryLine_enumStep (scope : EnumScope) {e : EnumDefinition} {i : Nat} {m : EnumMember}
    (hm : e.members[i]? = some m) (hwrites : e.Writes m) (depth : Nat) :
    ∃ live, CarryLine (e.valueLine m live) fun n =>
      render depth [enumStep scope (e.withValue i n)] := by
  cases hname : variantName? e.name with
  | none =>
    obtain ⟨live, h⟩ := carryLine_enumBlock scope hm hwrites depth
    have hlocal : e.localName = e.name := by rw [EnumDefinition.localName, hname]; rfl
    have hstep : ∀ n, enumStep scope (e.withValue i n) =
        enumBlock scope e.localName (e.withValue i n) := by
      intro n
      have hsame : variantName? (e.withValue i n).name = none := hname
      rw [enumStep, hsame, hlocal]
      rfl
    refine ⟨live, ?_⟩
    simpa only [hstep] using h
  | some name =>
    obtain ⟨live, h⟩ := carryLine_enumBlock scope hm hwrites (depth + 1)
    have hlocal : e.localName = name := by rw [EnumDefinition.localName, hname]; rfl
    have hstep : ∀ n, enumStep scope (e.withValue i n) =
        .block "extension Variant" "" [enumBlock scope e.localName (e.withValue i n)] := by
      intro n
      have hsame : variantName? (e.withValue i n).name = some name := hname
      rw [enumStep, hsame, hlocal]
    refine ⟨live, ?_⟩
    simp only [hstep]
    exact h.block _ _

/-- The same among other enums. -/
theorem carryLine_enumSteps (scope : EnumScope) {enums : List EnumDefinition} {j i : Nat}
    {e : EnumDefinition} {m : EnumMember} (he : enums[j]? = some e) (hm : e.members[i]? = some m)
    (hwrites : e.Writes m) (depth : Nat) :
    ∃ live, CarryLine (e.valueLine m live) fun n =>
      render depth (enumSteps scope (enums.modify j (·.withValue i n))) := by
  obtain ⟨before, after, -, hmodify⟩ := exists_modify_eq he
  obtain ⟨live, h⟩ := carryLine_enumStep scope hm hwrites depth
  refine ⟨live, ?_⟩
  simp only [hmodify, enumSteps, List.map_append, List.map_cons]
  exact h.step _ _

/-! ## Types -/

theorem carryLine_class (doc : Option ClassDoc) {c : EngineClass} {enums : List EnumDefinition}
    (henums : c.enums = some enums) {j i : Nat} {e : EnumDefinition} {m : EnumMember}
    (he : enums[j]? = some e) (hm : e.members[i]? = some m) (hwrites : e.Writes m) :
    ∃ live, CarryLine (e.valueLine m live) fun n => render 0
      (EngineClass.steps doc { c with enums := c.enums.map (·.modify j (·.withValue i n)) }) := by
  obtain ⟨live, h⟩ := carryLine_enumSteps (c.scope doc) he hm hwrites 1
  have hsteps : ∀ n, EngineClass.steps doc
      { c with enums := c.enums.map (·.modify j (·.withValue i n)) } = c.briefComment doc ++
        [.block c.declHeader "" (enumSteps (c.scope doc) (enums.modify j (·.withValue i n)))] := by
    intro n
    rw [henums]
    rfl
  refine ⟨live, ?_⟩
  simp only [hsteps]
  exact (h.block _ _).step _ _

theorem carryLine_builtin (c : Classification) (doc : Option ClassDoc) {b : Builtin}
    {enums : List EnumDefinition} (henums : b.enums = some enums) {j i : Nat} {e : EnumDefinition}
    {m : EnumMember} (he : enums[j]? = some e) (hm : e.members[i]? = some m)
    (hwrites : e.Writes m) :
    ∃ live, CarryLine (e.valueLine m live) fun n => render 0
      (Builtin.steps c doc { b with enums := b.enums.map (·.modify j (·.withValue i n)) }) := by
  obtain ⟨live, h⟩ := carryLine_enumSteps (b.scope doc) he hm hwrites 1
  have hsteps : ∀ n, Builtin.steps c doc
      { b with enums := b.enums.map (·.modify j (·.withValue i n)) } = b.briefComment doc ++
        [.block (b.declHeader c) "" ((b.sizeSteps c ++ b.storageSteps c ++ [.blank]) ++
          enumSteps (b.scope doc) (enums.modify j (·.withValue i n)))] := by
    intro n
    obtain ⟨before, after, -, hmodify⟩ := exists_modify_eq he
    have hnested : Builtin.nestedSteps doc
        { b with enums := b.enums.map (·.modify j (·.withValue i n)) } =
          .blank :: enumSteps (b.scope doc) (enums.modify j (·.withValue i n)) := by
      rw [Builtin.nestedSteps, henums, Builtin.enumList, Option.map_some, Option.getD_some, hmodify]
      cases before <;> rfl
    rw [Builtin.steps, hnested]
    simp only [List.append_assoc, List.singleton_append]
    rfl
  refine ⟨live, ?_⟩
  simp only [hsteps]
  exact ((h.behind _).block _ _).step _ _

/-- **The size of a type is in the line for it**, which no size moves. -/
theorem carryLine_size (doc : Option ClassDoc) (b : Builtin) {c : Nat → Classification}
    {classes : SortedMap String TypeClass} (hclasses : ∀ n, (c n).classes = classes)
    (hsize : ∀ n, (c n).sizeOf? b.name = some n) :
    CarryLine (fun n : Nat => "public static let nativeSize = " ++ decimal n) fun n =>
      render 0 (b.steps (c n) doc) := by
  have hheader : ∀ n, b.declHeader (c n) = b.declHeader ⟨classes, ∅⟩ := by
    intro n
    simp only [Builtin.declHeader, Builtin.declaredClass, Classification.classOf?, hclasses]
  have hsteps : ∀ n, b.steps (c n) doc = b.briefComment doc ++
      [.block (b.declHeader ⟨classes, ∅⟩) "" ([] ++
        .line ("public static let nativeSize = " ++ decimal n) ::
          (b.storageSteps (c n) ++ b.nestedSteps doc))] := by
    intro n
    rw [Builtin.steps, hheader, Builtin.sizeSteps, hsize]
    dsimp only
    rw [toString_nat_eq, List.append_assoc]
    rfl
  simp only [hsteps]
  exact (((carryLine_line _ _).step _ _).block _ _).step _ _

end SwiftDecls
