import SwiftDecls.Source.Writer

/-!
# Source as a tree of steps

A declaration is described by the steps that write it: lines, empty lines, and bodies one level
deeper with or without a header. `Writer.run` carries the steps out and comes back to the depth
it started from (`depth_run`).
-/

set_option autoImplicit false

namespace SwiftDecls.Source

/-- One step of writing source text. -/
inductive Step where
  /-- The lines of a text. -/
  | line (text : String)
  /-- An empty line. -/
  | blank
  /-- Steps one level deeper. -/
  | indent (body : List Step)
  /-- A header with its braces around steps one level deeper. -/
  | block (header suffix : String) (body : List Step)

mutual

/-- Carries out one step. -/
def Writer.runStep (w : Writer) : Step → Writer
  | .line text => w.line text
  | .blank => w.blank
  | .indent body => (w.deeper.run body).back
  | .block header suffix body => ((w.openBlock header).run body).closeBlock suffix

/-- Carries out steps one after the other. -/
def Writer.run (w : Writer) : List Step → Writer
  | [] => w
  | s :: rest => (w.runStep s).run rest

end

/-- The text of steps carried out from a given depth. -/
def render (depth : Nat) (steps : List Step) : String := (Writer.run ⟨"", depth⟩ steps).text

namespace Writer

@[simp] theorem run_nil (w : Writer) : w.run [] = w := by simp [run]

@[simp] theorem run_cons (w : Writer) (s : Step) (rest : List Step) :
    w.run (s :: rest) = (w.runStep s).run rest := by simp [run]

mutual

/-- A step comes back to its depth. -/
theorem depth_runStep (w : Writer) : (s : Step) → (w.runStep s).depth = w.depth
  | .line _ => by simp [runStep]
  | .blank => by simp [runStep]
  | .indent body => by
    have h := depth_run w.deeper body
    simp only [runStep, back, h]
    rfl
  | .block header suffix body => by
    have h := depth_run (w.openBlock header) body
    simp [runStep, h]

/-- Steps come back to their depth. -/
theorem depth_run (w : Writer) : (steps : List Step) → (w.run steps).depth = w.depth
  | [] => by simp
  | s :: rest => by rw [run_cons, depth_run (w.runStep s) rest, depth_runStep w s]

end

end Writer

end SwiftDecls.Source
