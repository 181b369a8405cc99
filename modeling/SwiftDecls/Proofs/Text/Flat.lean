import SwiftDecls.Proofs.Naming

/-!
# Texts without structure

Generated text gets its structure from line feeds and brackets. A flat text has neither, so
wherever it stands it makes no line and no nesting. Texts put together from flat texts are flat,
numbers are flat, and a change of case leaves a flat text flat (`isFlat_upper`, `isFlat_lower`):
beyond ASCII no mapping leads to a line feed or a bracket.
-/

set_option autoImplicit false

namespace SwiftDecls.Text

/-- The characters that structure generated text. -/
def structural : List Char := ['\n', '\x7b', '\x7d', '[', ']']

/-- A text without line feeds and brackets. -/
def IsFlat (cs : List Char) : Prop := ∀ c ∈ cs, c ∉ structural

instance (cs : List Char) : Decidable (IsFlat cs) := List.decidableBAll _ cs

theorem IsFlat.of_subset {as bs : List Char} (h : IsFlat bs) (hs : ∀ c ∈ as, c ∈ bs) :
    IsFlat as := fun c hc => h c (hs c hc)

@[simp] theorem isFlat_append {as bs : List Char} : IsFlat (as ++ bs) ↔ IsFlat as ∧ IsFlat bs :=
  List.forall_mem_append

theorem IsFlat.lineFeed_not_mem {cs : List Char} (h : IsFlat cs) : '\n' ∉ cs :=
  fun hmem => h '\n' hmem (by decide)

/-! ## Numbers -/

theorem not_mem_structural_of_isDigit {c : Char} (h : c.isDigit = true) : c ∉ structural := by
  intro hmem
  simp only [structural, List.mem_cons, List.not_mem_nil, or_false] at hmem
  rcases hmem with rfl | rfl | rfl | rfl | rfl <;> revert h <;> decide

theorem isFlat_toString_nat (n : Nat) : IsFlat (toString n).toList := by
  intro c hc
  rw [Nat.toString_eq_ofList_toDigits, String.toList_ofList] at hc
  exact not_mem_structural_of_isDigit (Nat.isDigit_of_mem_toDigits (by omega) (by omega) hc)

theorem isFlat_toString_int (i : Int) : IsFlat (toString i).toList := by
  cases i with
  | ofNat n => exact isFlat_toString_nat n
  | negSucc n =>
    have hneg : toString (Int.negSucc n) = "-" ++ toString (n + 1) := rfl
    have hminus : IsFlat "-".toList := by decide
    rw [hneg, String.toList_append, isFlat_append]
    exact ⟨hminus, isFlat_toString_nat (n + 1)⟩

/-! ## Case -/

/-- Structural characters have small code points, of which none is zero. -/
theorem not_mem_structural_of_toNat {c : Char} (h : c.toNat = 0 ∨ 126 ≤ c.toNat) :
    c ∉ structural := by
  intro hmem
  simp only [structural, List.mem_cons, List.not_mem_nil, or_false] at hmem
  rcases hmem with rfl | rfl | rfl | rfl | rfl <;> revert h <;> decide

theorem ofNat_not_mem_structural {n : Nat} (h : 126 ≤ n) : Char.ofNat n ∉ structural := by
  apply not_mem_structural_of_toNat
  by_cases hvalid : n.isValidChar
  · rw [Char.ofNat, dif_pos hvalid]
    exact .inr h
  · rw [Char.ofNat, dif_neg hvalid]
    exact .inl rfl

/-- A run moves its characters above the structural ones, or is a single character that moves to
none of them. -/
def CaseRun.AvoidsStructure (r : CaseRun) : Prop :=
  126 ≤ r.first + r.shift ∨ r.first = r.last ∧ Char.ofNat (r.first + r.shift).toNat ∉ structural

instance (r : CaseRun) : Decidable r.AvoidsStructure := inferInstanceAs (Decidable (_ ∨ _))

theorem CaseRun.AvoidsStructure.shifted {r : CaseRun} (h : r.AvoidsStructure) {n : Nat}
    (hn : r.covers n = true) : Char.ofNat (n + r.shift).toNat ∉ structural := by
  simp only [CaseRun.covers, Bool.and_eq_true, decide_eq_true_eq] at hn
  rcases h with h | ⟨hsingle, h⟩
  · exact ofNat_not_mem_structural (by omega)
  · obtain rfl : n = r.first := by omega
    exact h

/-- A mapping of case leads to no structural character if its tables do not. -/
theorem isFlat_mapCase {sequences : List (Nat × List Nat)} {runs : List CaseRun}
    (hsequences : ∀ e ∈ sequences, IsFlat (e.2.map Char.ofNat))
    (hruns : ∀ r ∈ runs, r.AvoidsStructure) {c : Char} (hc : 128 ≤ c.toNat) :
    IsFlat (mapCase sequences runs c) := by
  unfold mapCase
  split
  · rename_i codes hlookup
    obtain ⟨before, after, hs, -⟩ := List.lookup_eq_some_iff.1 hlookup
    exact hsequences (c.toNat, codes) (by simp [hs])
  · intro d hd
    rw [List.mem_singleton.1 hd]
    unfold shiftBy
    split
    · rename_i r hr
      have hcovers : r.covers c.toNat = true := by simpa using List.find?_some hr
      exact (hruns r (List.mem_of_find?_eq_some hr)).shifted hcovers
    · exact ofNat_not_mem_structural (by omega)

theorem isFlat_upper {c : Char} (h : c ∉ structural) : IsFlat (upper c) := by
  by_cases hc : c.toNat < 128
  · have hupper := forall_ascii (p := fun c => c ∉ structural → c.toUpper ∉ structural)
      (by decide) hc h
    rw [upper_of_ascii hc]
    intro d hd
    rwa [List.mem_singleton.1 hd]
  · rw [upper, if_neg hc]
    exact isFlat_mapCase (by decide +kernel) (by decide +kernel) (by omega)

theorem isFlat_lower {c : Char} (h : c ∉ structural) : IsFlat (lower c) := by
  by_cases hc : c.toNat < 128
  · have hlower := forall_ascii (p := fun c => c ∉ structural → c.toLower ∉ structural)
      (by decide) hc h
    rw [lower_of_ascii hc]
    intro d hd
    rwa [List.mem_singleton.1 hd]
  · rw [lower, if_neg hc]
    exact isFlat_mapCase (by decide +kernel) (by decide +kernel) (by omega)

end SwiftDecls.Text
