import SwiftDecls.Proofs.Source.Layout

/-!
# Indentation commutes with writing

What steps add to a text does not depend on the text, and at a depth it is what they add at depth
zero, moved to the right: four blanks for each level stand in front of every line that is not
empty, and nothing else is different. That a nested declaration is its top-level form, moved, is
this fact for the steps of a declaration.

A writer comes back one level with a subtraction that stops at zero. `Writer.run?` carries the
same steps out and fails where that would matter. It never does.

**Theorem (`run_movesRight`).** All of this holds of all steps and of every writer.
-/

set_option autoImplicit false

namespace SwiftDecls.Source

open Text

/-! ## Texts moved to the right -/

/-- A line with blanks in front of it. An empty line stays empty. -/
def moveLine (blanks : Nat) (line : List Char) : List Char :=
  if line.isEmpty then [] else List.replicate blanks ' ' ++ line

/-- A text with blanks in front of each of its lines that is not empty. -/
def moveText (blanks : Nat) (text : String) : String :=
  String.ofList (['\n'].intercalate ((textLines text).map (moveLine blanks)))

theorem moveText_unlines (blanks : Nat) {ls : List (List Char)} (h : AreLines ls) :
    moveText blanks (unlines ls) = unlines (ls.map (moveLine blanks)) := by
  rw [moveText, textLines_unlines h, List.map_append]
  exact ofList_intercalate_append_empty _

theorem indented_eq_moveLine (depth : Nat) (line : List Char) :
    indented depth line = moveLine (4 * depth) line := by
  rw [indented, moveLine, indentation_eq_replicate]

/-- Levels add up: a line that is indented is not empty and is indented further. -/
theorem indented_add (outer inner : Nat) (line : List Char) :
    indented (outer + inner) line = indented outer (indented inner line) := by
  cases line with
  | nil => rfl
  | cons c rest =>
    have hblanks : 4 * (outer + inner) = 4 * outer + 4 * inner := by omega
    have hinner : (List.replicate (4 * inner) ' ' ++ c :: rest).isEmpty = false := by simp
    simp only [indented_eq_moveLine, moveLine, List.isEmpty_cons, Bool.false_eq_true, if_false,
      hinner, hblanks, ← List.replicate_append_replicate, List.append_assoc]

theorem linesAt_add (outer inner : Nat) (text : String) :
    linesAt (outer + inner) text = (linesAt inner text).map (indented outer) := by
  rw [linesAt, linesAt, List.map_map]
  exact List.map_congr_left fun line _ => indented_add outer inner line

/-! ## Steps moved to the right -/

mutual

/-- A step writes its lines deeper by indenting them. -/
theorem lines_add (outer inner : Nat) :
    (s : Step) → s.lines (outer + inner) = (s.lines inner).map (indented outer)
  | .line text => by
    rw [Step.lines, Step.lines, linesAt_add]
  | .blank => by
    rw [Step.lines, Step.lines]
    rfl
  | .indent body => by
    have hbody := stepLines_add outer (inner + 1) body
    rw [Step.lines, Step.lines]
    exact hbody
  | .block header suffix body => by
    have hbody := stepLines_add outer (inner + 1) body
    rw [← Nat.add_assoc] at hbody
    rw [Step.lines, Step.lines, linesAt_add, linesAt_add, hbody]
    simp only [List.map_append]
    rfl

theorem stepLines_add (outer inner : Nat) : (steps : List Step) →
    stepLines (outer + inner) steps = (stepLines inner steps).map (indented outer)
  | [] => by simp
  | s :: rest => by
    rw [stepLines_cons, stepLines_cons, lines_add outer inner s, stepLines_add outer inner rest,
      List.map_append]

end

/-- The text of steps at a depth is their text at depth zero, moved to the right. -/
theorem render_eq_moveText (depth : Nat) (steps : List Step) :
    render depth steps = moveText (4 * depth) (render 0 steps) := by
  have hlines : stepLines depth steps = (stepLines 0 steps).map (moveLine (4 * depth)) := by
    rw [← Nat.add_zero depth, stepLines_add, Nat.add_zero]
    exact List.map_congr_left fun line _ => indented_eq_moveLine depth line
  rw [render_eq_unlines, render_eq_unlines, moveText_unlines _ (areLines_stepLines 0 steps), hlines]

/-! ## Levels that are left -/

namespace Writer

/-- Comes one level back, if there is one to come back from. -/
def back? (w : Writer) : Option Writer := if w.depth = 0 then none else some w.back

mutual

/-- Carries out one step, and fails where a level is to be left at depth zero. -/
def runStep? (w : Writer) : Step → Option Writer
  | .line text => some (w.line text)
  | .blank => some w.blank
  | .indent body => (w.deeper.run? body).bind back?
  | .block header suffix body =>
    (((w.openBlock header).run? body).bind back?).map fun outside =>
      (outside.line ("\x7d" ++ suffix)).blank

/-- Carries out steps one after the other as `runStep?` does each. -/
def run? (w : Writer) : List Step → Option Writer
  | [] => some w
  | s :: rest => (w.runStep? s).bind fun after => after.run? rest

end

/-- Behind a body there is a level to come back from: the body came back to its own. -/
theorem back?_run {w : Writer} {depth : Nat} (hw : w.depth = depth + 1) (body : List Step) :
    (w.run body).back? = some (w.run body).back := by
  have hdepth : (w.run body).depth = depth + 1 := (depth_run w body).trans hw
  rw [back?, if_neg]
  omega

mutual

theorem runStep?_eq (w : Writer) : (s : Step) → w.runStep? s = some (w.runStep s)
  | .line text => by rw [runStep?, runStep]
  | .blank => by rw [runStep?, runStep]
  | .indent body => by
    rw [runStep?, runStep, run?_eq w.deeper body, Option.bind_some]
    exact back?_run rfl body
  | .block header suffix body => by
    have hback := back?_run (depth_openBlock w header) body
    rw [runStep?, runStep, run?_eq (w.openBlock header) body, Option.bind_some, hback]
    rfl

theorem run?_eq (w : Writer) : (steps : List Step) → w.run? steps = some (w.run steps)
  | [] => by rw [run?, run_nil]
  | s :: rest => by
    rw [run?, runStep?_eq w s, Option.bind_some, run?_eq (w.runStep s) rest, run_cons]

end

end Writer

/-! ## Writing moved to the right -/

/-- What a writer does with steps, told by what they write at the start of an empty text. -/
structure MovesRight (steps : List Step) (w : Writer) : Prop where
  /-- The writer comes back to its depth. -/
  depth : (w.run steps).depth = w.depth
  /-- Whatever has been written, the same is added, moved to the right by the depth. -/
  text : (w.run steps).text = w.text ++ moveText (4 * w.depth) (Writer.run {} steps).text
  /-- At depth zero nothing is moved. -/
  atZero : w.depth = 0 → (w.run steps).text = w.text ++ (Writer.run {} steps).text
  /-- No level is left at depth zero. -/
  levels : w.run? steps = some (w.run steps)

/-- **Steps write the same everywhere, but for the indentation.** -/
theorem run_movesRight (steps : List Step) (w : Writer) : MovesRight steps w where
  depth := Writer.depth_run w steps
  text := by
    have hmoved := render_eq_moveText w.depth steps
    rw [render_eq_unlines] at hmoved
    rw [Writer.text_run, hmoved]
    rfl
  atZero := by
    intro hzero
    have hrender := render_eq_unlines 0 steps
    rw [Writer.text_run, hzero, ← hrender]
    rfl
  levels := Writer.run?_eq w steps

end SwiftDecls.Source
