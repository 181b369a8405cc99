import Mathlib.Data.Nat.Digits.Defs
import SwiftDecls.Proofs.Naming
import SwiftDecls.Text.Digits

/-!
# Numbers and their digits

A number is spelled by at least one digit, the most significant one first, with any number of zeros
in front and with letters in either case (`Numeral`). Digits are read as the number that they spell,
and nothing else is read (`numeral_iff`).
-/

set_option autoImplicit false

namespace SwiftDecls.Text

/-- Digits in a base up to sixteen that stand for a number. -/
def Numeral (base : Nat) (digits : List Char) (n : Nat) : Prop :=
  ∃ values : List Nat, values ≠ [] ∧ (∀ d ∈ values, d < base) ∧
    digits.map Char.toLower = values.map Nat.digitChar ∧ Nat.ofDigits base values.reverse = n

/-! ## One digit -/

theorem hexDigit?_eq_none {c : Char} (h : ¬ c.toNat < 128) : hexDigit? c = none := by
  have hbeyond : ∀ last : Char, last.toNat < 128 → ¬ c.val ≤ last.val := by
    intro last hlast hle
    exact h (Nat.lt_of_le_of_lt (UInt32.le_iff_toNat_le.1 hle) hlast)
  have hdigit : ¬ c.isDigit = true := fun hdigit =>
    hbeyond '9' (by decide) (of_decide_eq_true (Bool.and_eq_true_iff.1 hdigit).2)
  rw [hexDigit?, if_neg hdigit, if_neg fun hrange => hbeyond 'f' (by decide) hrange.2,
    if_neg fun hrange => hbeyond 'F' (by decide) hrange.2]

theorem toLower_eq_self {c : Char} (h : ¬ c.toNat < 128) : c.toLower = c := by
  refine dif_neg fun hrange => h ?_
  exact Nat.lt_of_le_of_lt (UInt32.le_iff_toNat_le.1 hrange.2) (by decide)

theorem hexDigit?_eq_some_iff {c : Char} {d : Nat} (hd : d < 16) :
    hexDigit? c = some d ↔ c.toLower = Nat.digitChar d := by
  by_cases hc : c.toNat < 128
  · exact forall_ascii (p := fun c => ∀ d < 16, hexDigit? c = some d ↔ c.toLower = Nat.digitChar d)
      (by decide +kernel) hc d hd
  · have hascii : ∀ d < 16, (Nat.digitChar d).toNat < 128 := by decide
    rw [hexDigit?_eq_none hc, toLower_eq_self hc]
    refine iff_of_false nofun fun heq => hc ?_
    rw [heq]
    exact hascii d hd

section Base

variable {base : Nat} (hbase : base ≤ 16)

include hbase

theorem digitIn?_eq_some_iff {c : Char} {d : Nat} :
    digitIn? base c = some d ↔ d < base ∧ c.toLower = Nat.digitChar d := by
  rw [digitIn?, Option.filter_eq_some_iff, decide_eq_true_iff, and_comm]
  refine and_congr_right fun hd => hexDigit?_eq_some_iff (Nat.lt_of_lt_of_le hd hbase)

/-! ## Digits one after the other -/

theorem foldlM_digits_eq_some_iff {cs : List Char} {start n : Nat} :
    cs.foldlM (fun n c => (digitIn? base c).map (n * base + ·)) start = some n ↔
      ∃ values : List Nat, (∀ d ∈ values, d < base) ∧
        cs.map Char.toLower = values.map Nat.digitChar ∧
        values.foldl (fun n d => n * base + d) start = n := by
  induction cs generalizing start with
  | nil => simp
  | cons c cs ih =>
    rw [List.foldlM_cons]
    constructor
    · intro h
      obtain ⟨next, hfirst, hrest⟩ := Option.bind_eq_some_iff.1 h
      obtain ⟨d, hd, rfl⟩ := Option.map_eq_some_iff.1 hfirst
      obtain ⟨hlt, hlower⟩ := (digitIn?_eq_some_iff hbase).1 hd
      obtain ⟨values, hvalues, hmap, hfold⟩ := ih.1 hrest
      exact ⟨d :: values, List.forall_mem_cons.2 ⟨hlt, hvalues⟩, by simp [hlower, hmap], hfold⟩
    · rintro ⟨values, hvalues, hmap, hfold⟩
      cases values with
      | nil => cases hmap
      | cons d values =>
        obtain ⟨hlower, hmap⟩ := List.cons.inj hmap
        obtain ⟨hlt, hvalues⟩ := List.forall_mem_cons.1 hvalues
        have hd := (digitIn?_eq_some_iff hbase).2 ⟨hlt, hlower⟩
        rw [hd]
        exact ih.2 ⟨values, hvalues, hmap, hfold⟩

/-- Digits are read as the number that they spell. -/
theorem numeral_iff {cs : List Char} {n : Nat} :
    Numeral base cs n ↔ cs ≠ [] ∧ digitsIn? base cs = some n := by
  have hempty : ∀ values : List Nat, cs.map Char.toLower = values.map Nat.digitChar →
      (values ≠ [] ↔ cs ≠ []) := by
    intro values hmap
    have hlength : cs.length = values.length := by simpa using congrArg List.length hmap
    simp only [ne_eq, ← List.length_eq_zero_iff, hlength]
  have hvalue : ∀ values : List Nat,
      Nat.ofDigits base values.reverse = values.foldl (fun n d => n * base + d) 0 := by
    intro values
    rw [Nat.ofDigits_eq_foldr, List.foldr_reverse]
    simp only [Nat.cast_id, Nat.add_comm, Nat.mul_comm]
  rw [digitsIn?, foldlM_digits_eq_some_iff hbase]
  constructor
  · rintro ⟨values, hne, hvalues, hmap, hn⟩
    exact ⟨(hempty values hmap).1 hne, values, hvalues, hmap, hvalue values ▸ hn⟩
  · rintro ⟨hne, values, hvalues, hmap, hn⟩
    exact ⟨values, (hempty values hmap).2 hne, hvalues, hmap, (hvalue values).trans hn⟩

end Base

end SwiftDecls.Text
