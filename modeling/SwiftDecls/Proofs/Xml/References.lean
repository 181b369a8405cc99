import SwiftDecls.Proofs.Text.Digits
import SwiftDecls.Xml.Entity

/-!
# What references stand for

A reference stands for a character by one of five names or by the character's code point, in decimal
digits or, behind an `x`, in hexadecimal ones (`StandsFor`). A code point that no character has, as
that of a surrogate or one that is too large, makes a reference stand for nothing.

**Theorem (`expands_iff`).** A reference is replaced by the character it stands for and otherwise
left as it is, with one exception: a plus sign in front of the digits is passed over (`WithPlus`),
although with it the reference stands for nothing.
-/

set_option autoImplicit false

namespace SwiftDecls.Xml

open Text

/-- What a reference stands for. -/
inductive StandsFor : List Char → Char → Prop
  | lt : StandsFor ['l', 't'] '<'
  | gt : StandsFor ['g', 't'] '>'
  | amp : StandsFor ['a', 'm', 'p'] '&'
  | quot : StandsFor ['q', 'u', 'o', 't'] '"'
  | apos : StandsFor ['a', 'p', 'o', 's'] '\''
  | decimal {digits : List Char} {c : Char} : Numeral 10 digits c.toNat →
      StandsFor ('#' :: digits) c
  | hexadecimal {digits : List Char} {c : Char} : Numeral 16 digits c.toNat →
      StandsFor ('#' :: 'x' :: digits) c

/-- A code point that is written with a plus sign. -/
inductive WithPlus : List Char → Char → Prop
  | decimal {digits : List Char} {c : Char} : Numeral 10 digits c.toNat →
      WithPlus ('#' :: '+' :: digits) c
  | hexadecimal {digits : List Char} {c : Char} : Numeral 16 digits c.toNat →
      WithPlus ('#' :: 'x' :: '+' :: digits) c

/-- A reference is replaced by the character that it stands for, and is left as it is if it stands
for none. -/
structure Expands (standsFor : List Char → Char → Prop) (name : List Char) : Prop where
  replaced : ∀ c, standsFor name c → referenceText name = [c]
  left : (∀ c, ¬ standsFor name c) → referenceText name = '&' :: name ++ [';']

/-! ## Numbers -/

theorem charOf?_eq_some_iff {n : Nat} {c : Char} : charOf? n = some c ↔ c.toNat = n := by
  constructor
  · intro h
    unfold charOf? at h
    split at h
    · rename_i hvalid
      cases h
      rw [Char.ofNat, dif_pos hvalid]
      rfl
    · cases h
  · rintro rfl
    exact charOf?_toNat c

section Numbers

variable {base : Nat} (hbase : base ≤ 16)

include hbase

/-- A numeral starts with a digit. -/
theorem not_numeral_cons {first : Char} (h : digitIn? base first = none) (rest : List Char)
    (n : Nat) : ¬ Numeral base (first :: rest) n := by
  rw [numeral_iff hbase, digitsIn?, List.foldlM_cons, h]
  rintro ⟨-, ⟨⟩⟩

/-- A number is a numeral with or without a plus sign in front. -/
theorem numberIn?_eq_some_iff {cs : List Char} {n : Nat} :
    numberIn? base cs = some n ↔
      Numeral base cs n ∨ ∃ digits, cs = '+' :: digits ∧ Numeral base digits n := by
  have hplus : digitIn? base '+' = none := rfl
  fun_cases numberIn? base cs with
  | case1 => simp [numeral_iff hbase]
  | case2 => simp [not_numeral_cons hbase hplus, numeral_iff hbase]
  | case3 digits hdigits =>
    have hne : digits ≠ [] := fun he => hdigits (by rw [he])
    simp [not_numeral_cons hbase hplus, numeral_iff hbase, hne]
  | case4 _ hempty _ hunsigned =>
    rw [numeral_iff hbase]
    constructor
    · intro h
      exact .inl ⟨hempty, h⟩
    · rintro (⟨-, h⟩ | ⟨digits, rfl, -⟩)
      · exact h
      · exact absurd rfl (hunsigned digits)

end Numbers

/-! ## References -/

/-- No name starts with a number sign. -/
theorem lookup_number (rest : List Char) :
    namedCharacters.lookup (String.ofList ('#' :: rest)) = none := by
  have htable : ∀ e ∈ namedCharacters, e.1.toList.head? ≠ some '#' := by decide
  rw [List.lookup_eq_none_iff]
  intro e he
  rw [bne_iff_ne]
  rintro heq
  refine htable e he ?_
  rw [← heq, String.toList_ofList]
  rfl

theorem standsFor_of_lookup {name : List Char} {c : Char}
    (h : namedCharacters.lookup (String.ofList name) = some c) : StandsFor name c := by
  have htable : ∀ e ∈ namedCharacters, StandsFor e.1.toList e.2 := by
    simp only [namedCharacters, List.forall_mem_cons]
    exact ⟨.lt, .gt, .amp, .quot, .apos, by simp⟩
  obtain ⟨before, after, hsplit, -⟩ := List.lookup_eq_some_iff.1 h
  have hnamed := htable (String.ofList name, c) (by simp [hsplit])
  rwa [String.toList_ofList] at hnamed

theorem lookup_of_standsFor {name : List Char} {c : Char} (h : StandsFor name c)
    (hname : ∀ rest, name ≠ '#' :: rest) :
    namedCharacters.lookup (String.ofList name) = some c := by
  cases h with
  | decimal => exact absurd rfl (hname _)
  | hexadecimal => exact absurd rfl (hname _)
  | lt | gt | amp | quot | apos => decide

/-- A code point is written with or without a plus sign. -/
theorem codePoint_eq_some_iff {base : Nat} (hbase : base ≤ 16) {digits : List Char} {c : Char} :
    (numberIn? base digits).bind charOf? = some c ↔
      Numeral base digits c.toNat ∨
        ∃ unsigned, digits = '+' :: unsigned ∧ Numeral base unsigned c.toNat := by
  simp only [Option.bind_eq_some_iff, charOf?_eq_some_iff, exists_eq_right',
    numberIn?_eq_some_iff hbase]

/-- A reference is read as the character it stands for, or as one that is written with a plus
sign. -/
theorem referenced?_eq_some_iff {name : List Char} {c : Char} :
    referenced? name = some c ↔ StandsFor name c ∨ WithPlus name c := by
  fun_cases referenced? name with
  | case1 _ found hlookup =>
    have hname : ∀ rest, name ≠ '#' :: rest := by
      rintro rest rfl
      rw [lookup_number] at hlookup
      cases hlookup
    constructor
    · rintro ⟨⟩
      exact .inl (standsFor_of_lookup hlookup)
    · rintro (h | h)
      · rw [← hlookup, lookup_of_standsFor h hname]
      · cases h <;> exact absurd rfl (hname _)
  | case2 digits =>
    rw [codePoint_eq_some_iff (by decide)]
    constructor
    · rintro (h | ⟨unsigned, rfl, h⟩)
      · exact .inl (.hexadecimal h)
      · exact .inr (.hexadecimal h)
    · rintro (h | h)
      · cases h with
        | hexadecimal h => exact .inl h
        | decimal h => exact absurd h (not_numeral_cons (by decide) rfl _ _)
      · cases h with
        | hexadecimal h => exact .inr ⟨_, rfl, h⟩
  | case3 digits hletter =>
    rw [codePoint_eq_some_iff (by decide)]
    constructor
    · rintro (h | ⟨unsigned, rfl, h⟩)
      · exact .inl (.decimal h)
      · exact .inr (.decimal h)
    · rintro (h | h)
      · cases h with
        | decimal h => exact .inl h
        | hexadecimal => exact absurd rfl (hletter _)
      · cases h with
        | decimal h => exact .inr ⟨_, rfl, h⟩
        | hexadecimal => exact absurd rfl (hletter _)
  | case4 _ hlookup _ hname =>
    refine iff_of_false nofun ?_
    rintro (h | h)
    · rw [lookup_of_standsFor h fun rest => hname rest] at hlookup
      cases hlookup
    · cases h <;> exact absurd rfl (hname _)

/-! ## What references turn into -/

theorem referenceText_eq_singleton_iff {name : List Char} {c : Char} :
    referenceText name = [c] ↔ referenced? name = some c := by
  unfold referenceText
  split
  · rename_i found hfound
    rw [hfound, List.singleton_inj, Option.some.injEq]
  · rename_i hnone
    simp [hnone]

/-- A reference turns into what it is read as. -/
theorem expands_iff_referenced {standsFor : List Char → Char → Prop} {name : List Char} :
    Expands standsFor name ↔ ∀ c, referenced? name = some c ↔ standsFor name c := by
  constructor
  · intro h c
    rw [← referenceText_eq_singleton_iff]
    refine ⟨fun htext => ?_, h.replaced c⟩
    by_contra hnot
    by_cases hnone : ∀ d, ¬ standsFor name d
    · -- What is left as it is has more than one character.
      have hlength := congrArg List.length (htext.symm.trans (h.left hnone))
      simp at hlength
    · obtain ⟨d, hd⟩ := not_forall_not.1 hnone
      obtain rfl : c = d := List.singleton_inj.1 (htext.symm.trans (h.replaced d hd))
      exact hnot hd
  · intro h
    refine ⟨fun c hc => referenceText_eq_singleton_iff.2 ((h c).2 hc), fun hnone => ?_⟩
    have hread : referenced? name = none :=
      Option.eq_none_iff_forall_ne_some.2 fun c hc => hnone c ((h c).1 hc)
    rw [referenceText, hread]

theorem WithPlus.not_standsFor {name : List Char} {c : Char} (h : WithPlus name c) (d : Char) :
    ¬ StandsFor name d := by
  intro hd
  cases h with
  | decimal =>
    cases hd with
    | decimal hdigits => exact not_numeral_cons (by decide) rfl _ _ hdigits
  | hexadecimal =>
    cases hd with
    | decimal hdigits => exact not_numeral_cons (by decide) rfl _ _ hdigits
    | hexadecimal hdigits => exact not_numeral_cons (by decide) rfl _ _ hdigits

/-- **A reference turns into the character it stands for**, and stays as it is if it stands for
none, but for a plus sign in front of the digits, which is passed over. -/
theorem expands_iff (name : List Char) :
    Expands (fun name c => StandsFor name c ∨ WithPlus name c) name ∧
      (Expands StandsFor name ↔ ∀ c, ¬ WithPlus name c) := by
  refine ⟨expands_iff_referenced.2 fun c => referenced?_eq_some_iff, ?_⟩
  rw [expands_iff_referenced]
  refine forall_congr' fun c => ?_
  rw [referenced?_eq_some_iff]
  constructor
  · intro h hplus
    exact hplus.not_standsFor c (h.1 (.inr hplus))
  · intro hplus
    exact or_iff_left hplus

example : referenceText "#x00041".toList = ['A'] ∧
    referenceText "#xD800".toList = "&#xD800;".toList := by decide

/-- The number of a letter behind a plus sign is read as the letter. -/
theorem plus_passed_over :
    referenceText "#+65".toList = ['A'] ∧ ¬ Expands StandsFor "#+65".toList := by
  refine ⟨by decide, fun h => ?_⟩
  have hnone : ∀ c, ¬ StandsFor ['#', '+', '6', '5'] c := by
    rintro c (_ | _ | _ | _ | _ | hdigits)
    exact not_numeral_cons (by decide) rfl _ _ hdigits
  exact absurd (h.left hnone) (by decide)

end SwiftDecls.Xml
