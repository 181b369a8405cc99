import SwiftDecls.Number.Literal

/-!
# Integers as literals

The plain literal of an integer is its decimal digits behind a sign, without zeros in front. It
stands for the integer as long as that fits into 64 bits (`value?_integerLiteral_of_nonneg`,
`value?_integerLiteral_of_neg`).
-/

set_option autoImplicit false

namespace SwiftDecls.Number

/-- The plain literal of an integer. -/
def integerLiteral (n : Int) : Literal := ⟨decide (n < 0), Nat.toDigits 10 n.natAbs, none, none⟩

/-- Decimal digits do not start with a zero, unless they are one. -/
theorem toDigits_eq_of_head? {n : Nat} (h : (Nat.toDigits 10 n).head? = some '0') :
    Nat.toDigits 10 n = ['0'] := by
  induction n using Nat.strongRecOn with
  | ind n ih =>
    by_cases hn : n < 10
    · rw [Nat.toDigits_of_lt_base hn] at h ⊢
      exact congrArg (· :: []) (Option.some.inj h)
    · have hhead : (Nat.toDigits 10 (n / 10)).head? = some '0' := by
        rw [Nat.toDigits_of_base_le (by decide) (Nat.le_of_not_lt hn)] at h
        cases hdigits : Nat.toDigits 10 (n / 10) with
        | nil => exact absurd hdigits Nat.toDigits_ne_nil
        | cons d digits => rwa [hdigits] at h
      have hzero : n / 10 = 0 := by
        rw [← Nat.ofDigitChars_ten_toDigits (n := n / 10), ih (n / 10) (by omega) hhead]
        rfl
      omega

/-- More digits make a number no smaller. -/
theorem le_ofDigitChars (digits : List Char) (n : Nat) : n ≤ Nat.ofDigitChars 10 digits n := by
  induction digits generalizing n with
  | nil => exact Nat.le_refl n
  | cons c digits ih =>
    rw [Nat.ofDigitChars_cons]
    have hmore := ih (10 * n + (c.toNat - '0'.toNat))
    omega

/-- A number that fits into 64 bits is read to its last digit. -/
theorem appendDigits_of_lt {digits : List Char} {n : Nat}
    (h : Nat.ofDigitChars 10 digits n < wordLimit) :
    appendDigits n digits = (Nat.ofDigitChars 10 digits n, []) := by
  induction digits generalizing n with
  | nil => rfl
  | cons c digits ih =>
    rw [Nat.ofDigitChars_cons, Nat.mul_comm] at h ⊢
    have hnext : n * 10 + digitValue c < wordLimit := Nat.lt_of_le_of_lt (le_ofDigitChars digits _) h
    rw [appendDigits, if_pos hnext]
    exact ih h

theorem significand_integerLiteral {n : Int} (h : n.natAbs < wordLimit) :
    (integerLiteral n).significand = (n.natAbs, 0, true) := by
  have hdigits : Nat.ofDigitChars 10 (Nat.toDigits 10 n.natAbs) 0 = n.natAbs :=
    Nat.ofDigitChars_ten_toDigits
  have hread : appendDigits 0 (Nat.toDigits 10 n.natAbs) = (n.natAbs, []) := by
    rw [appendDigits_of_lt (by rwa [hdigits]), hdigits]
  simp [Literal.significand, integerLiteral, hread]

theorem value?_integerLiteral_of_nonneg {n : Int} (hnonneg : 0 ≤ n) (h : n.natAbs < wordLimit) :
    (integerLiteral n).value? = some (.natural n.natAbs) := by
  rw [Literal.value?, significand_integerLiteral h]
  simp [integerLiteral, Int.not_lt.2 hnonneg]

theorem value?_integerLiteral_of_neg {n : Int} (hneg : n < 0) (h : n.natAbs ≤ wordLimit / 2) :
    (integerLiteral n).value? = some (.negative n.natAbs) := by
  have hlimit : n.natAbs < wordLimit := Nat.lt_of_le_of_lt h (by decide)
  have hpositive : 0 < n.natAbs ∧ n.natAbs ≤ wordLimit / 2 := ⟨by omega, h⟩
  rw [Literal.value?, significand_integerLiteral hlimit]
  simp [integerLiteral, hneg, hpositive]

/-! ## Integers beyond 64 bits -/

/-- Digits that are read to the last one make the number that is read. -/
theorem eq_of_appendDigits {digits : List Char} {n m : Nat} (h : appendDigits n digits = (m, [])) :
    Nat.ofDigitChars 10 digits n = m := by
  induction digits generalizing n with
  | nil =>
    rw [Nat.ofDigitChars_nil]
    exact congrArg Prod.fst h
  | cons c digits ih =>
    rw [appendDigits] at h
    split at h
    · rw [Nat.ofDigitChars_cons, Nat.mul_comm]
      exact ih h
    · cases congrArg Prod.snd h

/-- An integer is read from its plain literal, or the literal is a double or out of range. -/
theorem value?_integerLiteral_cases (n : Int) :
    (0 ≤ n ∧ (integerLiteral n).value? = some (.natural n.natAbs)) ∨
      (n < 0 ∧ (integerLiteral n).value? = some (.negative n.natAbs)) ∨
      ∃ text? : Option String, (integerLiteral n).value? = text?.map .double := by
  rcases hread : appendDigits 0 (Nat.toDigits 10 n.natAbs) with ⟨m, left⟩
  have hsignificand : (integerLiteral n).significand = (m, (left.length : Int), left.isEmpty) := by
    simp [Literal.significand, integerLiteral, hread]
  rw [Literal.value?, hsignificand]
  cases left with
  | cons c left =>
    -- a digit is left over, so the literal counts as a double
    refine .inr (.inr ⟨(integerLiteral n).magnitude?.map fun x =>
      doubleText (if (integerLiteral n).negative then -x else x), ?_⟩)
    rw [Option.map_map]
    rfl
  | nil =>
    obtain rfl : n.natAbs = m := by
      rw [← eq_of_appendDigits hread, Nat.ofDigitChars_ten_toDigits]
    by_cases hneg : n < 0
    · by_cases hlimit : n.natAbs ≤ wordLimit / 2
      · refine .inr (.inl ⟨hneg, ?_⟩)
        have hpositive : 0 < n.natAbs := by omega
        simp [integerLiteral, hneg, hlimit, hpositive]
      · refine .inr (.inr ⟨some (doubleText (-(Float.ofNat n.natAbs))), ?_⟩)
        simp [integerLiteral, hneg, hlimit]
    · refine .inl ⟨Int.not_lt.1 hneg, ?_⟩
      simp [integerLiteral, hneg]

end SwiftDecls.Number
