import SwiftDecls.Declarations.Builtins
import SwiftDecls.Declarations.Classes
import SwiftDecls.Proofs.Source.Layout
import SwiftDecls.Proofs.Text.Ends

/-!
# Declarations without their comments

A line is documentation if its first characters other than blanks are three slashes. Two lists
of steps declare the same (`SameCode`) if at every depth they write the same lines apart from
documentation. Comments are no code (`sameCode_docComment`), and `SameCode` passes through
everything that steps are made of, so no declaration depends on the documentation that it was
made with: `sameCode_enumSteps`, `Builtin.sameCode_steps` and `EngineClass.sameCode_steps`.
-/

set_option autoImplicit false

namespace SwiftDecls

open Source Text

/-- A line whose first characters other than blanks are three slashes. -/
def isDocLine (line : List Char) : Bool := "///".toList.isPrefixOf (line.dropWhile (· == ' '))

/-- A text without its documentation. -/
def withoutDocs (text : String) : String := dropLines isDocLine text

theorem isDocLine_append_of_blank {blanks : List Char} (h : ∀ c ∈ blanks, c = ' ')
    (line : List Char) : isDocLine (blanks ++ line) = isDocLine line := by
  have hdrop : (blanks ++ line).dropWhile (· == ' ') = line.dropWhile (· == ' ') := by
    induction blanks with
    | nil => rfl
    | cons c rest ih =>
      obtain rfl : c = ' ' := h c List.mem_cons_self
      exact ih fun d hd => h d (List.mem_cons_of_mem _ hd)
  rw [isDocLine, hdrop, isDocLine]

theorem blank_of_mem_indentation {depth : Nat} {c : Char} (h : c ∈ indentation depth) :
    c = ' ' := by
  obtain ⟨unit, hunit, hmem⟩ := List.mem_flatten.1 h
  rw [List.eq_of_mem_replicate hunit] at hmem
  simpa [indentUnit] using hmem

/-- Indentation does not make or unmake documentation. -/
@[simp] theorem isDocLine_indented (depth : Nat) (line : List Char) :
    isDocLine (indented depth line) = isDocLine line := by
  unfold indented
  split
  · rename_i hempty
    rw [List.isEmpty_iff.1 hempty]
  · exact isDocLine_append_of_blank (fun _ => blank_of_mem_indentation) line

/-! ## The lines of comments -/

/-- A comment is made of lines of the text. -/
theorem exists_of_mem_commentLines {text : String} {line : List Char}
    (h : line ∈ commentLines text) : ∃ source ∈ textLines text, line = trim source := by
  have hmem : line ∈ (textLines text).map trim := (stripsTo_rdropWhile List.isEmpty _).mem h
  obtain ⟨source, hsource, rfl⟩ := List.mem_map.1 hmem
  exact ⟨source, hsource, rfl⟩

theorem areLines_commentLines (text : String) : AreLines (commentLines text) := by
  intro l hl
  obtain ⟨source, hsource, rfl⟩ := exists_of_mem_commentLines hl
  exact fun hmem => areLines_textLines text source hsource ((stripsTo_trim source).mem hmem)

theorem isDocLine_commentLine (line : List Char) : isDocLine (commentLine line).toList = true := by
  unfold commentLine
  split <;> simp [isDocLine]

theorem lineFeed_not_mem_commentLine {line : List Char} (h : '\n' ∉ line) :
    '\n' ∉ (commentLine line).toList := by
  unfold commentLine
  split <;> simp [h]

/-- The lines of a comment, one for each line of the text. -/
theorem stepLines_docComment (depth : Nat) (owner : Option String) (text : String) :
    stepLines depth (docComment owner text) =
      (commentLines (Markdown.toMarkdown owner text)).map fun line =>
        indented depth (commentLine line).toList :=
  stepLines_map_line
    (fun line hline => lineFeed_not_mem_commentLine (areLines_commentLines _ line hline)) depth

/-- A comment writes nothing but documentation. -/
theorem isDocLine_of_mem_docComment {depth : Nat} {owner : Option String} {text : String}
    {l : List Char} (h : l ∈ stepLines depth (docComment owner text)) : isDocLine l = true := by
  rw [stepLines_docComment] at h
  obtain ⟨line, -, rfl⟩ := List.mem_map.1 h
  rw [isDocLine_indented]
  exact isDocLine_commentLine line

/-! ## Steps that declare the same -/

/-- The lines that steps write apart from documentation. -/
def codeLines (depth : Nat) (steps : List Step) : List (List Char) :=
  (stepLines depth steps).filter fun l => !isDocLine l

/-- At every depth the same lines apart from documentation. -/
def SameCode (as bs : List Step) : Prop := ∀ depth, codeLines depth as = codeLines depth bs

theorem codeLines_append (depth : Nat) (as bs : List Step) :
    codeLines depth (as ++ bs) = codeLines depth as ++ codeLines depth bs := by
  rw [codeLines, stepLines_append, List.filter_append, codeLines, codeLines]

namespace SameCode

theorem refl (as : List Step) : SameCode as as := fun _ => rfl

theorem append {as as' bs bs' : List Step} (ha : SameCode as as') (hb : SameCode bs bs') :
    SameCode (as ++ bs) (as' ++ bs') := by
  intro depth
  rw [codeLines_append, codeLines_append, ha depth, hb depth]

theorem cons {as as' : List Step} (s : Step) (h : SameCode as as') :
    SameCode (s :: as) (s :: as') := (refl [s]).append h

theorem block {body body' : List Step} (header suffix : String) (h : SameCode body body') :
    SameCode [.block header suffix body] [.block header suffix body'] := by
  intro depth
  have hbody := h (depth + 1)
  simp only [codeLines] at hbody
  simp only [codeLines, stepLines_cons, Step.lines, List.filter_append, hbody]

end SameCode

/-- **A comment is no code.** -/
theorem sameCode_docComment (owner : Option String) (text : String) :
    SameCode (docComment owner text) [] := by
  intro depth
  refine List.filter_eq_nil_iff.2 fun l hl => ?_
  simp [isDocLine_of_mem_docComment hl]

/-! ## Enums -/

theorem sameCode_memberComment (scope : EnumScope) (member : EnumMember) :
    SameCode (scope.memberComment member) [] := by
  unfold EnumScope.memberComment
  split
  · exact sameCode_docComment _ _
  · exact .refl _

theorem sameCode_caseSteps (scope scope' : EnumScope) (enumName : String) (used : List Int)
    (members : List EnumMember) :
    SameCode (caseSteps scope enumName used members) (caseSteps scope' enumName used members) := by
  induction members generalizing used with
  | nil => exact .refl _
  | cons member rest ih =>
    unfold caseSteps
    split
    · exact ih used
    · have hcase := (ih (member.value :: used)).cons
        (.line (caseLine enumName (!used.contains member.value) member))
      intro depth
      rw [codeLines_append, codeLines_append, sameCode_memberComment scope member depth,
        sameCode_memberComment scope' member depth, hcase depth]

theorem sameCode_flagSteps (scope scope' : EnumScope) (enumName : String)
    (members : List EnumMember) :
    SameCode (flagSteps scope enumName members) (flagSteps scope' enumName members) := by
  unfold flagSteps
  induction members with
  | nil =>
    rw [List.flatMap_nil, List.flatMap_nil]
    exact .refl _
  | cons member rest ih =>
    intro depth
    simp only [List.flatMap_cons, codeLines_append]
    rw [ih depth, sameCode_memberComment scope member depth,
      sameCode_memberComment scope' member depth]

theorem sameCode_enumBlock (scope scope' : EnumScope) (enumName : String) (e : EnumDefinition) :
    SameCode [enumBlock scope enumName e] [enumBlock scope' enumName e] := by
  unfold enumBlock
  split
  · exact ((SameCode.refl _).append (sameCode_flagSteps scope scope' enumName e.members)).block _ _
  · exact (sameCode_caseSteps scope scope' enumName [] e.members).block _ _

theorem sameCode_enumStep (scope scope' : EnumScope) (e : EnumDefinition) :
    SameCode [enumStep scope e] [enumStep scope' e] := by
  unfold enumStep
  split
  · exact (sameCode_enumBlock scope scope' _ e).block _ _
  · exact sameCode_enumBlock scope scope' _ e

/-- Enums are declared alike in all scopes. -/
theorem sameCode_enumSteps (scope scope' : EnumScope) (enums : List EnumDefinition) :
    SameCode (enumSteps scope enums) (enumSteps scope' enums) := by
  unfold enumSteps
  induction enums with
  | nil =>
    rw [List.map_nil, List.map_nil]
    exact .refl _
  | cons e rest ih =>
    rw [List.map_cons, List.map_cons]
    exact (sameCode_enumStep scope scope' e).append ih

/-! ## Types -/

theorem Builtin.sameCode_briefComment (doc : Option ClassDoc) (b : Builtin) :
    SameCode (b.briefComment doc) [] := by
  unfold Builtin.briefComment
  split
  · exact sameCode_docComment _ _
  · exact .refl _

theorem Builtin.sameCode_nestedSteps (doc doc' : Option ClassDoc) (b : Builtin) :
    SameCode (b.nestedSteps doc) (b.nestedSteps doc') := by
  unfold Builtin.nestedSteps
  split
  · exact .refl _
  · exact (sameCode_enumSteps _ _ _).cons _

/-- A built-in type is declared alike with any documentation. -/
theorem Builtin.sameCode_steps (c : Classification) (doc doc' : Option ClassDoc) (b : Builtin) :
    SameCode (b.steps c doc) (b.steps c doc') := by
  have hbody := (SameCode.refl (b.sizeSteps c ++ b.storageSteps c)).append
    (b.sameCode_nestedSteps doc doc')
  intro depth
  rw [Builtin.steps, Builtin.steps, codeLines_append, codeLines_append,
    b.sameCode_briefComment doc depth, b.sameCode_briefComment doc' depth,
    hbody.block (b.declHeader c) "" depth]

theorem EngineClass.sameCode_briefComment (doc : Option ClassDoc) (c : EngineClass) :
    SameCode (c.briefComment doc) [] := by
  unfold EngineClass.briefComment
  split
  · exact sameCode_docComment _ _
  · exact .refl _

/-- A class is declared alike with any documentation. -/
theorem EngineClass.sameCode_steps (doc doc' : Option ClassDoc) (c : EngineClass) :
    SameCode (c.steps doc) (c.steps doc') := by
  have hbody := sameCode_enumSteps (c.scope doc) (c.scope doc') c.enumList
  intro depth
  rw [EngineClass.steps, EngineClass.steps, codeLines_append, codeLines_append,
    c.sameCode_briefComment doc depth, c.sameCode_briefComment doc' depth,
    hbody.block c.declHeader "" depth]

end SwiftDecls
