import SwiftDecls.Proofs.Text.Lines
import SwiftDecls.Source.Step

/-!
# The lines that steps write

What steps write at a depth is a list of lines, `stepLines`, that depends on the depth alone and
not on the text so far: running steps appends these lines (`text_run`), so the text of steps is
`unlines` of them (`render_eq_unlines`). Questions about generated text become questions about
lists of lines, in which steps one after the other are lists one after the other.
-/

set_option autoImplicit false

namespace SwiftDecls.Source

open Text

/-- Every level is four blanks. -/
theorem indentation_eq_replicate (depth : Nat) :
    indentation depth = List.replicate (4 * depth) ' ' := by
  have hunit : indentUnit = List.replicate 4 ' ' := rfl
  rw [indentation, hunit, List.flatten_replicate_replicate, Nat.mul_comm]

/-- A line at a depth: an empty line is not indented. -/
def indented (depth : Nat) (line : List Char) : List Char :=
  if line.isEmpty then [] else indentation depth ++ line

/-- The lines of a text at a depth. -/
def linesAt (depth : Nat) (text : String) : List (List Char) :=
  (textLines text).map (indented depth)

/-- A text without a line feed is one line. -/
theorem linesAt_of_not_mem {text : String} (h : '\n' ∉ text.toList) (depth : Nat) :
    linesAt depth text = [indented depth text.toList] := by
  rw [linesAt, textLines, List.splitOn_eq_singleton h, List.map_singleton]

theorem indented_zero (line : List Char) : indented 0 line = line := by
  unfold indented
  split
  · rename_i hempty
    exact (List.isEmpty_iff.1 hempty).symm
  · rfl

mutual

/-- The lines that a step writes at a depth. -/
def Step.lines (depth : Nat) : Step → List (List Char)
  | .line text => linesAt depth text
  | .blank => [[]]
  | .indent body => stepLines (depth + 1) body
  | .block header suffix body =>
    linesAt depth (header ++ " \x7b") ++ stepLines (depth + 1) body ++
      linesAt depth ("\x7d" ++ suffix) ++ [[]]

/-- The lines that steps write at a depth, one step after the other. -/
def stepLines (depth : Nat) : List Step → List (List Char)
  | [] => []
  | s :: rest => s.lines depth ++ stepLines depth rest

end

@[simp] theorem stepLines_nil (depth : Nat) : stepLines depth [] = [] := by simp [stepLines]

@[simp] theorem stepLines_cons (depth : Nat) (s : Step) (rest : List Step) :
    stepLines depth (s :: rest) = s.lines depth ++ stepLines depth rest := by simp [stepLines]

theorem stepLines_eq_flatMap (depth : Nat) (steps : List Step) :
    stepLines depth steps = steps.flatMap (·.lines depth) := by
  induction steps with
  | nil => rw [stepLines_nil, List.flatMap_nil]
  | cons s rest ih => rw [stepLines_cons, ih, List.flatMap_cons]

theorem stepLines_append (depth : Nat) (before after : List Step) :
    stepLines depth (before ++ after) = stepLines depth before ++ stepLines depth after := by
  simp only [stepLines_eq_flatMap, List.flatMap_append]

/-- Texts without a line feed are one line each. -/
theorem stepLines_map_line {α : Type} {f : α → String} {as : List α}
    (h : ∀ a ∈ as, '\n' ∉ (f a).toList) (depth : Nat) :
    stepLines depth (as.map fun a => .line (f a)) =
      as.map fun a => indented depth (f a).toList := by
  induction as with
  | nil => simp
  | cons a rest ih =>
    obtain ⟨ha, hrest⟩ := List.forall_mem_cons.1 h
    rw [List.map_cons, stepLines_cons, Step.lines, linesAt_of_not_mem ha, ih hrest, List.map_cons,
      List.singleton_append]

/-! ## Lines have no line feed -/

theorem lineFeed_not_mem_indentation (depth : Nat) : '\n' ∉ indentation depth := by
  intro h
  obtain ⟨unit, hunit, hmem⟩ := List.mem_flatten.1 h
  rw [List.eq_of_mem_replicate hunit] at hmem
  revert hmem
  decide

theorem lineFeed_not_mem_indented {depth : Nat} {line : List Char} (h : '\n' ∉ line) :
    '\n' ∉ indented depth line := by
  unfold indented
  split
  · simp
  · intro hmem
    rcases List.mem_append.1 hmem with hmem | hmem
    · exact lineFeed_not_mem_indentation depth hmem
    · exact h hmem

theorem areLines_linesAt (depth : Nat) (text : String) : AreLines (linesAt depth text) := by
  intro l hl
  obtain ⟨line, hline, rfl⟩ := List.mem_map.1 hl
  exact lineFeed_not_mem_indented (areLines_textLines text line hline)

theorem areLines_empty : AreLines [[]] := by
  intro l hl
  rw [List.mem_singleton.1 hl]
  simp

mutual

theorem areLines_lines (depth : Nat) : (s : Step) → AreLines (s.lines depth)
  | .line text => by
    rw [Step.lines]
    exact areLines_linesAt depth text
  | .blank => by
    rw [Step.lines]
    exact areLines_empty
  | .indent body => by
    rw [Step.lines]
    exact areLines_stepLines (depth + 1) body
  | .block header suffix body => by
    have hbody := areLines_stepLines (depth + 1) body
    rw [Step.lines]
    exact (((areLines_linesAt _ _).append hbody).append (areLines_linesAt _ _)).append
      areLines_empty

theorem areLines_stepLines (depth : Nat) : (steps : List Step) → AreLines (stepLines depth steps)
  | [] => by simp [AreLines]
  | s :: rest => by
    rw [stepLines_cons]
    exact (areLines_lines depth s).append (areLines_stepLines depth rest)

end

/-! ## Running steps appends their lines -/

theorem indentLines_eq_unlines (depth : Nat) (text : String) :
    indentLines depth text = unlines (linesAt depth text) := by
  rw [indentLines, unlines, linesAt, List.flatMap_map]
  rfl

theorem unlines_empty : unlines [[]] = "\n" := rfl

namespace Writer

mutual

theorem text_runStep (w : Writer) :
    (s : Step) → (w.runStep s).text = w.text ++ unlines (s.lines w.depth)
  | .line text => by rw [runStep, text_line, indentLines_eq_unlines, Step.lines]
  | .blank => by rw [runStep, text_blank, Step.lines, unlines_empty]
  | .indent body => by
    rw [runStep, Step.lines]
    exact text_run w.deeper body
  | .block header suffix body => by
    have hbody := text_run (w.openBlock header) body
    have hdepth := depth_run (w.openBlock header) body
    have hopen : (w.openBlock header).text =
        w.text ++ unlines (linesAt w.depth (header ++ " \x7b")) := by
      rw [← indentLines_eq_unlines]
      rfl
    rw [depth_openBlock] at hbody hdepth
    rw [runStep, closeBlock, text_blank, text_line, indentLines_eq_unlines, Step.lines]
    simp only [back, hdepth, hbody, hopen, Nat.add_sub_cancel, unlines_append, unlines_empty,
      String.append_assoc]

/-- Steps append their lines to the text so far. -/
theorem text_run (w : Writer) :
    (steps : List Step) → (w.run steps).text = w.text ++ unlines (stepLines w.depth steps)
  | [] => by simp
  | s :: rest => by
    rw [run_cons, text_run (w.runStep s) rest, text_runStep w s, depth_runStep, stepLines_cons,
      unlines_append, String.append_assoc]

end

end Writer

/-- The text of steps is their lines, each with its line feed. -/
theorem render_eq_unlines (depth : Nat) (steps : List Step) :
    render depth steps = unlines (stepLines depth steps) := by
  rw [render, Writer.text_run]
  exact String.empty_append

end SwiftDecls.Source
