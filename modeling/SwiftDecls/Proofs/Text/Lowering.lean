import SwiftDecls.Text.Case

/-!
# The lower case of a text

Lowering goes character by character, on an ASCII text without exception (`LowersTo`) and else with
two. The capital dotted I becomes two characters, so a text grows by one character for each of them
(`length_lowerText`). The capital sigma becomes a final one where a word ends, so what it becomes can
change with the text behind it. Where no sigma changes, the lower case of a text starts with the
lower case of its front (`lowerText_prefix_iff`).
-/

set_option autoImplicit false

namespace SwiftDecls.Text

/-! ## ASCII -/

/-- An ASCII text and its lower case. -/
structure LowersTo (cs small : List Char) : Prop where
  ascii : ∀ c ∈ cs, c.toNat < 128
  lowered : cs.map Char.toLower = small

theorem LowersTo.append {cs ds small small' : List Char} (h : LowersTo cs small)
    (h' : LowersTo ds small') : LowersTo (cs ++ ds) (small ++ small') :=
  ⟨List.forall_mem_append.2 ⟨h.ascii, h'.ascii⟩, by rw [List.map_append, h.lowered, h'.lowered]⟩

theorem LowersTo.lowerText_eq {cs small : List Char} (h : LowersTo cs small) :
    lowerText cs = small := by rw [lowerText_of_ascii h.ascii, h.lowered]

theorem LowersTo.length_eq {cs small : List Char} (h : LowersTo cs small) :
    cs.length = small.length := by rw [← h.lowered, List.length_map]

/-! ## Length -/

/-- The capital dotted I: its lower case is an i with a combining dot. -/
def dottedI : Char := 'İ'

theorem lower_dottedI : lower dottedI = ['i', '\u0307'] := by decide +kernel

/-- Every character but the capital dotted I is one character in lower case. -/
theorem exists_lower_eq {c : Char} (h : c ≠ dottedI) : ∃ d, lower c = [d] := by
  unfold lower
  split
  · exact ⟨c.toLower, rfl⟩
  · unfold mapCase
    split
    · rename_i codes hlookup
      have hcode : c.toNat = dottedI.toNat := by
        obtain ⟨before, after, hs, -⟩ := List.lookup_eq_some_iff.1 hlookup
        have hmem : (c.toNat, codes) ∈ lowerSequences := by simp [hs]
        exact congrArg Prod.fst (List.mem_singleton.1 hmem)
      exact absurd (Char.toNat_inj.1 hcode) h
    · exact ⟨_, rfl⟩

theorem length_lower (c : Char) : (lower c).length = 1 + [c].count dottedI := by
  by_cases h : c = dottedI
  · subst h
    rw [lower_dottedI]
    rfl
  · obtain ⟨d, hd⟩ := exists_lower_eq h
    rw [hd, List.count_singleton, if_neg (by simpa using h)]
    rfl

theorem length_lowerAfter (before cs : List Char) :
    (lowerAfter before cs).length = cs.length + cs.count dottedI := by
  induction cs generalizing before with
  | nil => rfl
  | cons c rest ih =>
    have hfirst : (if c = 'Σ' then [lowerSigma before rest] else lower c).length =
        1 + [c].count dottedI := by
      split
      · rename_i hsigma
        rw [hsigma]
        rfl
      · exact length_lower c
    have hcount : (c :: rest).count dottedI = [c].count dottedI + rest.count dottedI := by
      rw [← List.singleton_append, List.count_append]
    rw [lowerAfter, List.length_append, hfirst, ih, hcount, List.length_cons]
    omega

/-- Each capital dotted I makes the lower case longer by one. -/
theorem length_lowerText (cs : List Char) :
    (lowerText cs).length = cs.length + cs.count dottedI := length_lowerAfter [] cs

/-- Where a capital dotted I was there is a combining dot. -/
theorem combiningDot_mem_lowerAfter (before : List Char) {cs : List Char} (h : dottedI ∈ cs) :
    '\u0307' ∈ lowerAfter before cs := by
  induction cs generalizing before with
  | nil => cases h
  | cons c rest ih =>
    rw [lowerAfter, List.mem_append]
    rcases List.mem_cons.1 h with rfl | hrest
    · left
      rw [if_neg (by decide), lower_dottedI]
      exact List.mem_cons_of_mem _ List.mem_cons_self
    · exact .inr (ih _ hrest)

/-! ## The front of a text -/

/-- Behind a text, the last character of which comes first, every capital sigma of a front becomes
the same whether or not another text stands behind the front. -/
def SigmasStay (before front behind : List Char) : Prop :=
  ∀ between after, front = between ++ 'Σ' :: after →
    lowerSigma (between.reverse ++ before) (after ++ behind) =
      lowerSigma (between.reverse ++ before) after

theorem sigmasStay_of_not_mem {front : List Char} (h : 'Σ' ∉ front) (before behind : List Char) :
    SigmasStay before front behind := by
  rintro between after rfl
  exact absurd (List.mem_append_right between List.mem_cons_self) h

/-- A sigma of a front is its first character or one of the others. -/
theorem sigmasStay_cons {before rest behind : List Char} {c : Char} :
    SigmasStay before (c :: rest) behind ↔
      (c = 'Σ' → lowerSigma before (rest ++ behind) = lowerSigma before rest) ∧
        SigmasStay (c :: before) rest behind := by
  have hreverse (between : List Char) :
      (c :: between).reverse ++ before = between.reverse ++ c :: before := by simp
  constructor
  · intro h
    refine ⟨fun hc => h [] rest (by rw [hc]; rfl), fun between after hrest => ?_⟩
    rw [← hreverse]
    exact h (c :: between) after (by rw [hrest]; rfl)
  · rintro ⟨hfirst, hlater⟩ between after hfront
    rcases List.cons_eq_append_iff.1 hfront with ⟨rfl, hcons⟩ | ⟨between', rfl, hrest⟩
    · obtain ⟨hc, rfl⟩ := List.cons.inj hcons
      exact hfirst hc.symm
    · rw [hreverse]
      exact hlater between' after hrest

theorem lowerAfter_prefix_iff (before front behind : List Char) :
    lowerAfter before front <+: lowerAfter before (front ++ behind) ↔
      SigmasStay before front behind := by
  induction front generalizing before with
  | nil => simp [lowerAfter, sigmasStay_of_not_mem]
  | cons c rest ih =>
    rw [sigmasStay_cons, ← ih, lowerAfter, List.cons_append, lowerAfter]
    by_cases hc : c = 'Σ'
    · simp only [hc, if_true, List.singleton_append, List.cons_prefix_cons, true_imp_iff, eq_comm]
    · simp only [hc, if_false, List.prefix_append_right_inj, false_imp_iff, true_and]

/-- **The lower case of a text starts with that of its front exactly if the sigmas of the front
stay.** -/
theorem lowerText_prefix_iff (front behind : List Char) :
    lowerText front <+: lowerText (front ++ behind) ↔ SigmasStay [] front behind :=
  lowerAfter_prefix_iff [] front behind

/-- The sigma is final only where nothing stands behind it. -/
example : ¬ SigmasStay [] ['α', 'Σ'] ['X'] := by
  rw [← lowerText_prefix_iff]
  decide +kernel

/-- A text of as many characters as a front, in lower case where the lower case of the whole starts,
is the front in lower case exactly if they have as many capital dotted Is and the sigmas of the front
stay. -/
theorem lowerText_eq_iff {name front behind : List Char}
    (hname : lowerText name <+: lowerText (front ++ behind)) (hlength : front.length = name.length) :
    lowerText front = lowerText name ↔
      front.count dottedI = name.count dottedI ∧ SigmasStay [] front behind := by
  have hfrontLength := length_lowerText front
  have hnameLength := length_lowerText name
  constructor
  · intro h
    rw [h] at hfrontLength
    rw [← lowerText_prefix_iff, h]
    exact ⟨by omega, hname⟩
  · rintro ⟨hcount, hstay⟩
    have hfront := (lowerText_prefix_iff front behind).2 hstay
    have hle : (lowerText front).length ≤ (lowerText name).length := by omega
    exact (List.prefix_of_prefix_length_le hfront hname hle).eq_of_length (by omega)

end SwiftDecls.Text
