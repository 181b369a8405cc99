import SwiftDecls.Naming
import SwiftDecls.Proofs.Text.Lines

/-!
# What names are made of

Words, the names of engine types, are made of ASCII letters, digits and underscores. The
property of characters that a proof needs about them is checked character by character on the
ASCII range (`forall_ascii`). The Pascal form of a word has letters and digits only
(`isAlphanum_of_mem_pascal`).

A property of characters that a change of case keeps goes over from a name to its Swift forms
(`of_mem_camelFrom`, `of_mem_memberName`). All that dropping the name of an enum can do to a camel
form is in `dropEnumName_cases`.
-/

set_option autoImplicit false

namespace SwiftDecls

namespace Text

/-- A property of all ASCII characters, checked by code point. -/
theorem forall_ascii {p : Char → Prop} (h : ∀ n < 128, p (Char.ofNat n)) {c : Char}
    (hc : c.toNat < 128) : p c := by
  have hp := h c.toNat hc
  rwa [Char.ofNat_toNat] at hp

theorem toNat_lt_of_isAlphanum {c : Char} (h : c.isAlphanum = true) : c.toNat < 128 := by
  have hlast : ∀ last : Char, last.toNat < 128 → c.val ≤ last.val → c.toNat < 128 := by
    intro last hlast hle
    exact Nat.lt_of_le_of_lt (UInt32.le_iff_toNat_le.1 hle) hlast
  rcases Bool.or_eq_true_iff.1 h with hletter | hdigit
  · rcases Bool.or_eq_true_iff.1 hletter with hupper | hlower
    · exact hlast 'Z' (by decide) (of_decide_eq_true hupper).2
    · exact hlast 'z' (by decide) (of_decide_eq_true (Bool.and_eq_true_iff.1 hlower).2)
  · exact hlast '9' (by decide) (of_decide_eq_true (Bool.and_eq_true_iff.1 hdigit).2)

theorem isAlphanum_of_isAlpha {c : Char} (h : c.isAlpha = true) : c.isAlphanum = true :=
  Bool.or_eq_true_iff.2 (.inl h)

theorem isAlphanum_of_isUpper {c : Char} (h : c.isUpper = true) : c.isAlphanum = true :=
  isAlphanum_of_isAlpha (Bool.or_eq_true_iff.2 (.inl h))

theorem isAlphanum_of_isLower {c : Char} (h : c.isLower = true) : c.isAlphanum = true :=
  isAlphanum_of_isAlpha (Bool.or_eq_true_iff.2 (.inr h))

theorem isAlphanum_of_isDigit {c : Char} (h : c.isDigit = true) : c.isAlphanum = true :=
  Bool.or_eq_true_iff.2 (.inr h)

/-- The upper case of an ASCII letter or digit is one. -/
theorem isAlphanum_of_mem_upper {c d : Char} (h : c.isAlphanum = true) (hd : d ∈ upper c) :
    d.isAlphanum = true := by
  have hc := toNat_lt_of_isAlphanum h
  rw [upper_of_ascii hc, List.mem_singleton] at hd
  subst hd
  exact forall_ascii (p := fun c => c.isAlphanum = true → c.toUpper.isAlphanum = true)
    (by decide) hc h

end Text

namespace Naming

open Text

/-- A name made of ASCII letters, digits and underscores. -/
def IsWord (name : String) : Prop := ∀ c ∈ name.toList, c.isAlphanum = true ∨ c = '_'

instance (name : String) : Decidable (IsWord name) :=
  List.decidableBAll _ name.toList

theorem isAlphanum_of_mem_capitalize {cs : List Char} (h : ∀ c ∈ cs, c.isAlphanum = true)
    {d : Char} (hd : d ∈ capitalize cs) : d.isAlphanum = true := by
  cases cs with
  | nil => simp [capitalize] at hd
  | cons c rest =>
    rw [capitalize] at hd
    rcases List.mem_append.1 hd with hd | hd
    · exact isAlphanum_of_mem_upper (h c List.mem_cons_self) hd
    · exact h d (List.mem_cons_of_mem _ hd)

/-- The Pascal form of a word has no underscores left. -/
theorem isAlphanum_of_mem_pascal {name : String} (h : IsWord name) {d : Char}
    (hd : d ∈ (pascal name).toList) : d.isAlphanum = true := by
  rw [pascal, String.toList_ofList] at hd
  obtain ⟨part, hpart, hd⟩ := List.mem_flatMap.1 hd
  obtain ⟨hunderscore, hsub⟩ := of_mem_splitOn hpart
  refine isAlphanum_of_mem_capitalize (fun c hc => ?_) hd
  rcases h c (hsub c hc) with halnum | rfl
  · exact halnum
  · exact absurd hc hunderscore

/-! ## Properties that the Swift forms keep -/

/-- A property of characters that a change of case keeps. -/
structure CaseStable (p : Char → Prop) : Prop where
  upper {c : Char} (h : p c) : ∀ d ∈ upper c, p d
  lower {c : Char} (h : p c) : ∀ d ∈ lower c, p d

/-- A change of case keeps letters and digits. -/
theorem caseStable_isAlphanum : CaseStable fun c => c.isAlphanum = true where
  upper h _ hd := isAlphanum_of_mem_upper h hd
  lower {c} h d hd := by
    have hc := toNat_lt_of_isAlphanum h
    rw [lower_of_ascii hc, List.mem_singleton] at hd
    subst hd
    exact forall_ascii (p := fun c => c.isAlphanum = true → c.toLower.isAlphanum = true)
      (by decide) hc h

variable {p : Char → Prop}

/-- Underscores of a name are not in its camel form. -/
theorem of_mem_camelFrom (hp : CaseStable p) {raised : Bool} {cs : List Char}
    (h : ∀ c ∈ cs, c ≠ '_' → p c) : ∀ c ∈ camelFrom raised cs, p c := by
  induction cs generalizing raised with
  | nil => simp
  | cons c rest ih =>
    obtain ⟨hc, hrest⟩ := List.forall_mem_cons.1 h
    unfold camelFrom
    split
    · exact ih hrest
    · rename_i hne
      refine List.forall_mem_append.2 ⟨?_, ih hrest⟩
      split
      · exact hp.upper (hc hne)
      · exact hp.lower (hc hne)

/-- The camel form of a word has no underscores left. -/
theorem isAlphanum_of_mem_camelFrom {cs : List Char} (h : ∀ c ∈ cs, c.isAlphanum = true ∨ c = '_')
    {raised : Bool} : ∀ c ∈ camelFrom raised cs, c.isAlphanum = true :=
  of_mem_camelFrom caseStable_isAlphanum fun c hc hne => (h c hc).resolve_right hne

theorem of_mem_decapitalize (hp : CaseStable p) {cs : List Char} (h : ∀ c ∈ cs, p c) :
    ∀ c ∈ decapitalize cs, p c := by
  cases cs with
  | nil => exact h
  | cons c rest =>
    rw [decapitalize]
    exact List.forall_mem_append.2
      ⟨hp.lower (h c List.mem_cons_self), fun d hd => h d (List.mem_cons_of_mem c hd)⟩

theorem toList_memberStem_eq (enumName member : String) : (memberStem enumName member).toList =
    dropEnumName enumName.toList (camel member).toList := by
  rw [memberStem, String.toList_ofList, camel, String.toList_ofList]

/-- The rest of a camel form behind a front, if an identifier can start with it: no digit stands
first, and what stands first is lowered. -/
def LeavesStem (camelled front stem : List Char) : Prop :=
  ∃ c rest, camelled = front ++ c :: rest ∧ c.isDigit = false ∧ stem = decapitalize (c :: rest)

/-- A camel form is left as it is, or loses as many characters as the name of its enum has. -/
theorem dropEnumName_cases (enumName camelled : List Char) :
    dropEnumName enumName camelled = camelled ∨
      lowerText enumName <+: lowerText camelled ∧
        LeavesStem camelled (camelled.take enumName.length) (dropEnumName enumName camelled) := by
  unfold dropEnumName
  dsimp only
  split
  · exact .inl rfl
  · rename_i hstarts
    rw [Bool.or_eq_true, not_or, Bool.not_eq_true', Bool.not_eq_false, List.isPrefixOf_iff_prefix]
      at hstarts
    split
    · exact .inl rfl
    · rename_i c rest hdrop
      split
      · exact .inl rfl
      · rename_i hdigit
        refine .inr ⟨hstarts.2, c, rest, ?_, by simpa using hdigit, rfl⟩
        rw [← hdrop, List.take_append_drop]

theorem of_mem_dropEnumName (hp : CaseStable p) (enumName : List Char) {camelled : List Char}
    (h : ∀ c ∈ camelled, p c) : ∀ c ∈ dropEnumName enumName camelled, p c := by
  rcases dropEnumName_cases enumName camelled with hkept | ⟨-, c, rest, hcamel, -, hstem⟩
  · rwa [hkept]
  · rw [hcamel, List.forall_mem_append] at h
    rw [hstem]
    exact of_mem_decapitalize hp h.2

theorem of_mem_escape (quote : p '`') {word : String} (h : ∀ c ∈ word.toList, p c) :
    ∀ c ∈ (escape word).toList, p c := by
  unfold escape
  split
  · have hquote : ∀ c ∈ "`".toList, p c := fun c hc => by rwa [List.mem_singleton.1 hc]
    rw [String.toList_append, String.toList_append]
    exact List.forall_mem_append.2 ⟨List.forall_mem_append.2 ⟨hquote, h⟩, hquote⟩
  · exact h

theorem of_mem_memberName (hp : CaseStable p) (quote : p '`') (enumName : String)
    {member : String} (h : ∀ c ∈ member.toList, p c) :
    ∀ c ∈ (memberName enumName member).toList, p c := by
  refine of_mem_escape quote ?_
  rw [memberStem, String.toList_ofList]
  exact of_mem_dropEnumName hp _ (of_mem_camelFrom hp fun c hc _ => h c hc)

end Naming

end SwiftDecls
