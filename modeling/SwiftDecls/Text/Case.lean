import SwiftDecls.Text.CaseTable
import SwiftDecls.Text.Ranges

/-!
# Upper and lower case

The case of one character can be several characters (`ß` becomes `SS`), so the mappings give
lists. ASCII letters move by 32, every other character goes through the tables. Lowering a
whole text differs from lowering its characters in one point only: a capital sigma that ends
a word becomes the final sigma.
-/

set_option autoImplicit false

namespace SwiftDecls.Text

/-- A code point moved by the first run that covers it. -/
def shiftBy (runs : List CaseRun) (n : Nat) : Nat :=
  match runs.find? (·.covers n) with
  | some r => (n + r.shift).toNat
  | none => n

/-- The case of a character beyond ASCII: its sequence if it has one, else its shifted self. -/
def mapCase (sequences : List (Nat × List Nat)) (runs : List CaseRun) (c : Char) : List Char :=
  match sequences.lookup c.toNat with
  | some codes => codes.map Char.ofNat
  | none => [Char.ofNat (shiftBy runs c.toNat)]

/-- The upper case of a character. -/
def upper (c : Char) : List Char :=
  if c.toNat < 128 then [c.toUpper] else mapCase upperSequences upperRuns c

/-- The lower case of a character on its own. -/
def lower (c : Char) : List Char :=
  if c.toNat < 128 then [c.toLower] else mapCase lowerSequences lowerRuns c

/-- The text reaches a cased character before any other that is not ignorable. -/
def startsCased (cs : List Char) : Bool :=
  match cs.dropWhile (inRanges ignorableRanges) with
  | c :: _ => inRanges casedRanges c
  | [] => false

/-- The lower case of the capital sigma between two texts; the one before it is reversed. -/
def lowerSigma (before after : List Char) : Char :=
  if startsCased before && !startsCased after then 'ς' else 'σ'

/-- Lowers a text whose characters before it, last one first, are `before`. -/
def lowerAfter (before : List Char) : List Char → List Char
  | [] => []
  | c :: rest =>
    (if c = 'Σ' then [lowerSigma before rest] else lower c) ++ lowerAfter (c :: before) rest

/-- The lower case of a text. -/
def lowerText (cs : List Char) : List Char := lowerAfter [] cs

@[simp] theorem lowerText_nil : lowerText [] = [] := rfl

theorem upper_of_ascii {c : Char} (h : c.toNat < 128) : upper c = [c.toUpper] := by
  simp [upper, h]

theorem lower_of_ascii {c : Char} (h : c.toNat < 128) : lower c = [c.toLower] := by
  simp [lower, h]

/-- On ASCII text the mapping is character by character. -/
theorem lowerAfter_of_ascii {cs : List Char} (before : List Char) (h : ∀ c ∈ cs, c.toNat < 128) :
    lowerAfter before cs = cs.map Char.toLower := by
  induction cs generalizing before with
  | nil => rfl
  | cons c rest ih =>
    have hc : c.toNat < 128 := h c (by simp)
    have hs : c ≠ 'Σ' := by rintro rfl; revert hc; decide
    simp [lowerAfter, hs, lower_of_ascii hc, ih (c :: before) fun d hd => h d (by simp [hd])]

theorem lowerText_of_ascii {cs : List Char} (h : ∀ c ∈ cs, c.toNat < 128) :
    lowerText cs = cs.map Char.toLower := lowerAfter_of_ascii [] h

end SwiftDecls.Text
