import SwiftDecls.Proofs.Naming
import SwiftDecls.Proofs.Text.Lowering

/-!
# The Swift names of members

The name of an enum goes from a member by its length: the two are compared in lower case, and then
the camel form loses as many characters as the enum's name has. What goes is the enum's name in any
case if lowering leaves both as long as each other and no sigma in it depends on the text behind
(`memberStem_strips_by_length`); a capital dotted I in only one of them moves the cut
(`cut_misses_name`).

Whatever the enum is called, a member that is a word with a letter in front gets a name that Swift
accepts (`memberName_isSwiftName`). A reserved word goes between backticks, and the search by halves
finds each of them, as their table is in order (`isReserved_iff`).
-/

set_option autoImplicit false

namespace SwiftDecls.Naming

open Text

/-! ## The name of the enum -/

/-- A camel form is left as it is, or loses a front that is the name of the enum in lower case. -/
def StripsEnumName (enumName camelled stem : List Char) : Prop :=
  stem = camelled ∨
    ∃ front, lowerText front = lowerText enumName ∧ LeavesStem camelled front stem

/-- Characters in front show: no case mapping makes up for them. -/
theorem decapitalize_cons_append_ne (c d : Char) (between rest : List Char) :
    decapitalize (c :: (between ++ d :: rest)) ≠ decapitalize (d :: rest) := by
  intro h
  rw [decapitalize, decapitalize] at h
  have hlength := congrArg List.length h
  simp only [List.length_append, List.length_cons] at hlength
  have hfirst := length_lower c
  by_cases hd : d = dottedI
  · -- Two characters for one: there is room for one in front, but the dot is no capital.
    subst hd
    rw [lower_dottedI] at h hlength
    obtain rfl : between = [] := by
      rw [← List.length_eq_zero_iff]
      simp only [List.length_cons, List.length_nil] at hlength
      omega
    obtain ⟨first, hfirst⟩ : ∃ first, lower c = [first] := by
      rw [← List.length_eq_one_iff]
      simp only [List.length_cons, List.length_nil] at hlength
      omega
    rw [hfirst] at h
    have hdot : dottedI = '\u0307' := (List.cons.inj (List.cons.inj h).2).1
    revert hdot
    decide
  · obtain ⟨_, hlower⟩ := exists_lower_eq hd
    rw [hlower, List.length_singleton] at hlength
    omega

theorem LeavesStem.eq_nil_of_append {camelled front more stem : List Char}
    (h : LeavesStem camelled front stem) (h' : LeavesStem camelled (front ++ more) stem) :
    more = [] := by
  obtain ⟨c, rest, hcamel, -, hstem⟩ := h
  obtain ⟨d, rest', hcamel', -, hstem'⟩ := h'
  rw [hcamel', List.append_assoc, List.append_cancel_left_eq] at hcamel
  cases more with
  | nil => rfl
  | cons first between =>
    rw [← hcamel, hstem'] at hstem
    exact absurd hstem.symm (decapitalize_cons_append_ne first d between rest')

/-- What is left tells what went. -/
theorem LeavesStem.front_unique {camelled front front' stem : List Char}
    (h : LeavesStem camelled front stem) (h' : LeavesStem camelled front' stem) :
    front = front' := by
  obtain ⟨c, rest, hcamel, -⟩ := id h
  obtain ⟨c', rest', hcamel', -⟩ := id h'
  rcases List.append_eq_append_iff.1 (hcamel.symm.trans hcamel') with
    ⟨more, rfl, -⟩ | ⟨more, rfl, -⟩
  · rw [h.eq_nil_of_append h', List.append_nil]
  · rw [h'.eq_nil_of_append h, List.append_nil]

/-- The name of the enum is stripped exactly if the characters that go are its name. -/
theorem strips_dropEnumName_iff (enumName camelled : List Char) :
    StripsEnumName enumName camelled (dropEnumName enumName camelled) ↔
      dropEnumName enumName camelled = camelled ∨
        lowerText (camelled.take enumName.length) = lowerText enumName := by
  rcases dropEnumName_cases enumName camelled with hkept | ⟨-, hcut⟩
  · exact ⟨fun _ => .inl hkept, fun _ => .inl hkept⟩
  · refine or_congr Iff.rfl ⟨?_, fun hlower => ⟨_, hlower, hcut⟩⟩
    rintro ⟨front, hlower, hleaves⟩
    rwa [hcut.front_unique hleaves]

/-- The characters that go are the name of the enum if they have as many capital dotted Is, so that
in lower case both are as long as each other, and their sigmas stay. -/
theorem strips_dropEnumName_iff_count (enumName camelled : List Char) :
    StripsEnumName enumName camelled (dropEnumName enumName camelled) ↔
      dropEnumName enumName camelled = camelled ∨
        (camelled.take enumName.length).count dottedI = enumName.count dottedI ∧
          SigmasStay [] (camelled.take enumName.length) (camelled.drop enumName.length) := by
  rw [strips_dropEnumName_iff]
  rcases dropEnumName_cases enumName camelled with hkept | ⟨hstarts, c, rest, hsplit, -⟩
  · simp only [hkept, true_or]
  · refine or_congr Iff.rfl (lowerText_eq_iff ?_ ?_)
    · rwa [List.take_append_drop]
    · have hlength := congrArg List.length hsplit
      rw [List.length_append, List.length_take, List.length_cons] at hlength
      rw [List.length_take]
      omega

/-- How a member loses the name of its enum. -/
structure StripsByLength (enumName camelled stem : List Char) : Prop where
  /-- The camel form is left as it is, or loses as many characters as the enum's name has, which then
  starts it in lower case. -/
  kept_or_cut : stem = camelled ∨ lowerText enumName <+: lowerText camelled ∧
    LeavesStem camelled (camelled.take enumName.length) stem
  /-- What goes is the name of the enum if it has as many capital dotted Is and lowering it needs
  nothing of the text behind. -/
  strips_iff : StripsEnumName enumName camelled stem ↔ stem = camelled ∨
    (camelled.take enumName.length).count dottedI = enumName.count dottedI ∧
      SigmasStay [] (camelled.take enumName.length) (camelled.drop enumName.length)
  /-- So it does among names without the letters that lowering treats apart. -/
  strips : dottedI ∉ enumName → dottedI ∉ camelled → 'Σ' ∉ camelled →
    StripsEnumName enumName camelled stem

/-- **A member loses the name of its enum by the length of the name.** -/
theorem memberStem_strips_by_length (enumName member : String) :
    StripsByLength enumName.toList (camel member).toList (memberStem enumName member).toList := by
  have hiff := strips_dropEnumName_iff_count enumName.toList (camel member).toList
  rw [toList_memberStem_eq]
  refine ⟨dropEnumName_cases _ _, hiff, fun hname hcamel hsigma => hiff.2 (.inr ⟨?_, ?_⟩)⟩
  · rw [List.count_eq_zero_of_not_mem hname,
      List.count_eq_zero_of_not_mem fun hmem => hcamel (List.mem_of_mem_take hmem)]
  · exact sigmasStay_of_not_mem (fun hmem => hsigma (List.mem_of_mem_take hmem)) _ _

/-- The dotted I of an enum's name is two characters in a member, of which one goes, and the last
letter of the name stays. The other way round a letter goes that is not of the name. -/
theorem cut_misses_name :
    (memberStem "İz" "İZ_SOL" = "zSol" ∧
      ¬ StripsEnumName "İz".toList (camel "İZ_SOL").toList (memberStem "İz" "İZ_SOL").toList) ∧
    (memberStem "i\u0307" "_İAB" = "b" ∧
      ¬ StripsEnumName "i\u0307".toList (camel "_İAB").toList
        (memberStem "i\u0307" "_İAB").toList) := by
  rw [toList_memberStem_eq, toList_memberStem_eq, strips_dropEnumName_iff, strips_dropEnumName_iff]
  decide +kernel

/-! ## Identifiers -/

/-- ASCII letters and digits, of which the first is a small letter. -/
def IsIdentifier : List Char → Prop
  | [] => False
  | c :: rest => c.isLower = true ∧ ∀ d ∈ rest, d.isAlphanum = true

/-- A name that Swift accepts: an identifier, between backticks if it is a reserved word. -/
inductive IsSwiftName : String → Prop where
  | plain {word : String} (identifier : IsIdentifier word.toList) (free : word ∉ reservedWords) :
      IsSwiftName word
  | escaped {word : String} (identifier : IsIdentifier word.toList)
      (reserved : word ∈ reservedWords) : IsSwiftName ("`" ++ word ++ "`")

theorem IsIdentifier.isAlphanum {cs : List Char} (h : IsIdentifier cs) :
    ∀ c ∈ cs, c.isAlphanum = true := by
  cases cs with
  | nil => cases h
  | cons c rest => exact List.forall_mem_cons.2 ⟨isAlphanum_of_isLower h.1, h.2⟩

/-- A letter in front is a small one in lower case. -/
theorem isIdentifier_decapitalize {c : Char} {rest : List Char} (hc : c.isAlpha = true)
    (hrest : ∀ d ∈ rest, d.isAlphanum = true) : IsIdentifier (decapitalize (c :: rest)) := by
  have hascii : c.toNat < 128 := toNat_lt_of_isAlphanum (isAlphanum_of_isAlpha hc)
  have hsmall := forall_ascii (p := fun c => c.isAlpha = true → c.toLower.isLower = true)
    (by decide) hascii hc
  rw [decapitalize, lower_of_ascii hascii]
  exact ⟨hsmall, hrest⟩

theorem isIdentifier_camelFrom {cs : List Char} (hword : ∀ c ∈ cs, c.isAlphanum = true ∨ c = '_')
    (hletter : cs.head?.any Char.isAlpha = true) : IsIdentifier (camelFrom false cs) := by
  cases cs with
  | nil => cases hletter
  | cons c rest =>
    have hc : c.isAlpha = true := hletter
    have hne : c ≠ '_' := by
      rintro rfl
      revert hc
      decide
    rw [camelFrom, if_neg hne, if_neg (by simp)]
    exact isIdentifier_decapitalize hc
      (isAlphanum_of_mem_camelFrom (List.forall_mem_cons.1 hword).2)

/-- Dropping the name of the enum leaves an identifier: what could not start one stays. -/
theorem isIdentifier_dropEnumName (enumName : List Char) {camelled : List Char}
    (h : IsIdentifier camelled) : IsIdentifier (dropEnumName enumName camelled) := by
  rcases dropEnumName_cases enumName camelled with hkept | ⟨-, c, rest, hcamel, hdigit, hstem⟩
  · rwa [hkept]
  · have halnum := h.isAlphanum
    rw [hcamel, List.forall_mem_append, List.forall_mem_cons] at halnum
    obtain ⟨-, hc, hrest⟩ := halnum
    have hletter : c.isAlpha = true := (Bool.or_eq_true_iff.1 hc).resolve_right (by simp [hdigit])
    rw [hstem]
    exact isIdentifier_decapitalize hletter hrest

/-! ## Reserved words -/

section Halves

variable {word middle : String} {words above : List String}

theorem mem_halves_iff (hhalf : words.drop (words.length / 2) = middle :: above) :
    word ∈ words ↔ word ∈ words.take (words.length / 2) ∨ word = middle ∨ word ∈ above := by
  rw [← List.mem_cons, ← List.mem_append, ← hhalf, List.take_append_drop]

/-- The halves of an ascending list are ascending, below and above the middle. -/
theorem pairwise_halves (h : words.Pairwise (· < ·))
    (hhalf : words.drop (words.length / 2) = middle :: above) :
    (words.take (words.length / 2)).Pairwise (· < ·) ∧ above.Pairwise (· < ·) ∧
      (∀ w ∈ words.take (words.length / 2), w < middle) ∧ ∀ w ∈ above, middle < w := by
  rw [← List.take_append_drop (words.length / 2) words, hhalf, List.pairwise_append,
    List.pairwise_cons] at h
  obtain ⟨htake, ⟨hmiddle, habove⟩, hacross⟩ := h
  exact ⟨htake, habove, fun w hw => hacross w hw middle List.mem_cons_self, hmiddle⟩

/-- A search by halves finds the members of an ascending list. -/
theorem findByHalves_iff (h : words.Pairwise (· < ·)) :
    findByHalves word words = true ↔ word ∈ words := by
  fun_induction findByHalves word words with
  | case1 words hnil =>
    rw [List.drop_eq_nil_iff] at hnil
    have hwords : words = [] := List.length_eq_zero_iff.1 (by omega)
    simp [hwords]
  | case2 words above hhalf => exact iff_of_true rfl ((mem_halves_iff hhalf).2 (.inr (.inl rfl)))
  | case3 words middle above hhalf hne hbelow ih =>
    obtain ⟨htake, -, -, hgreater⟩ := pairwise_halves h hhalf
    have hnot : word ∉ above := fun hmem =>
      absurd (hgreater word hmem) (String.lt_asymm hbelow)
    rw [ih htake, mem_halves_iff hhalf, or_iff_left (not_or.2 ⟨hne, hnot⟩)]
  | case4 words middle above hhalf hne hbelow ih =>
    obtain ⟨-, habove, hless, -⟩ := pairwise_halves h hhalf
    have hnot : word ∉ words.take (words.length / 2) := fun hmem => hbelow (hless word hmem)
    rw [ih habove, mem_halves_iff hhalf, or_iff_right hnot, or_iff_right hne]

end Halves

/-- The table is in order, as the search needs it. -/
theorem pairwise_reservedWords : reservedWords.Pairwise (· < ·) := by decide +kernel

theorem isReserved_iff {word : String} : isReserved word = true ↔ word ∈ reservedWords :=
  findByHalves_iff pairwise_reservedWords

theorem isSwiftName_escape {word : String} (h : IsIdentifier word.toList) :
    IsSwiftName (escape word) := by
  unfold escape
  split
  · rename_i hreserved
    exact .escaped h (isReserved_iff.1 hreserved)
  · rename_i hfree
    exact .plain h fun hmem => hfree (isReserved_iff.2 hmem)

/-- **Whatever an enum is called, its members have names that Swift accepts**, if they are words with
a letter in front. -/
theorem memberName_isSwiftName (enumName : String) {member : String} (word : IsWord member)
    (letter : member.toList.head?.any Char.isAlpha = true) :
    IsSwiftName (memberName enumName member) := by
  apply isSwiftName_escape
  rw [toList_memberStem_eq, camel, String.toList_ofList]
  exact isIdentifier_dropEnumName _ (isIdentifier_camelFrom word letter)

/-- A member of which a reserved word is left. -/
theorem memberName_isSwiftName_of_default :
    IsWord "MODE__DEFAULT" ∧ "MODE__DEFAULT".toList.head?.any Char.isAlpha = true ∧
      memberName "Mode" "MODE__DEFAULT" = "`default`" ∧
      IsSwiftName (memberName "Mode" "MODE__DEFAULT") := by
  have hword : IsWord "MODE__DEFAULT" := by decide
  have hletter : "MODE__DEFAULT".toList.head?.any Char.isAlpha = true := by decide
  exact ⟨hword, hletter, by decide +kernel, memberName_isSwiftName "Mode" hword hletter⟩

end SwiftDecls.Naming
