import SwiftDecls.Proofs.Naming
import SwiftDecls.Proofs.Text.Lowering

/-!
# Schema names and their Swift forms

A schema name is made of words of capitals and digits with underscores between them. Its camel
form keeps all of it, since the capitals that are left show where the underscores were
(`uncamel_camelFrom`), and so does escaping. What gets lost is the name of the enum: whatever the
spelling of a member, its Swift name is that of what stands behind the letters of the enum's name
(`shortName`). So two members have one Swift name exactly if they have one short name
(`memberName_eq_iff`).
-/

set_option autoImplicit false

namespace SwiftDecls.Naming

open Text

/-! ## Spelling -/

/-- A word of a schema name: a capital and more capitals and digits. -/
def isSchemaWord : List Char → Bool
  | [] => false
  | c :: rest => c.isUpper && rest.all fun d => d.isUpper || d.isDigit

/-- A name made of words with underscores between them. -/
def IsSchemaName (name : String) : Prop :=
  ∀ word ∈ name.toList.splitOn '_', isSchemaWord word = true

instance (name : String) : Decidable (IsSchemaName name) :=
  List.decidableBAll _ (name.toList.splitOn '_')

/-- The rest of a schema name, from the start of a word or from inside one. -/
inductive Spelled : Bool → List Char → Prop where
  | done : Spelled false []
  | letter {start : Bool} {c : Char} {rest : List Char} (capital : c.isUpper = true)
      (spelled : Spelled false rest) : Spelled start (c :: rest)
  | digit {c : Char} {rest : List Char} (digit : c.isDigit = true) (spelled : Spelled false rest) :
      Spelled false (c :: rest)
  | underscore {rest : List Char} (spelled : Spelled true rest) : Spelled false ('_' :: rest)

/-- The words between underscores say how a name is spelled. -/
theorem spelled_of_splitOn {cs first : List Char} {others : List (List Char)}
    (hsplit : cs.splitOn '_' = first :: others) (hothers : ∀ w ∈ others, isSchemaWord w = true) :
    (isSchemaWord first = true → Spelled true cs) ∧
      ((first.all fun d => d.isUpper || d.isDigit) = true → Spelled false cs) := by
  induction cs generalizing first others with
  | nil =>
    obtain ⟨rfl, rfl⟩ := List.cons.inj (List.splitOn_nil '_' ▸ hsplit)
    exact ⟨fun h => by simp [isSchemaWord] at h, fun _ => .done⟩
  | cons c rest ih =>
    obtain ⟨first', others', hrest⟩ :=
      List.exists_cons_of_ne_nil (List.splitOn_ne_nil '_' rest)
    rw [List.splitOn_cons_eq_if_modifyHead, hrest] at hsplit
    split at hsplit
    · rename_i hunderscore
      obtain rfl : c = '_' := by simpa using hunderscore
      obtain ⟨rfl, rfl⟩ := List.cons.inj hsplit
      obtain ⟨hfirst', hothers'⟩ := List.forall_mem_cons.1 hothers
      exact ⟨fun h => by simp [isSchemaWord] at h,
        fun _ => .underscore ((ih hrest hothers').1 hfirst')⟩
    · rw [List.modifyHead_cons] at hsplit
      obtain ⟨rfl, rfl⟩ := List.cons.inj hsplit
      obtain ⟨-, hinside⟩ := ih hrest hothers
      constructor <;> intro h
      · rw [isSchemaWord, Bool.and_eq_true] at h
        exact .letter h.1 (hinside h.2)
      · rw [List.all_cons, Bool.and_eq_true, Bool.or_eq_true] at h
        rcases h.1 with hcapital | hdigit
        · exact .letter hcapital (hinside h.2)
        · exact .digit hdigit (hinside h.2)

theorem IsSchemaName.spelled {name : String} (h : IsSchemaName name) :
    Spelled true name.toList := by
  obtain ⟨first, others, hsplit⟩ :=
    List.exists_cons_of_ne_nil (List.splitOn_ne_nil '_' name.toList)
  rw [IsSchemaName, hsplit, List.forall_mem_cons] at h
  exact (spelled_of_splitOn hsplit h.2).1 h.1

/-- A schema name is a word. -/
theorem Spelled.isWord {start : Bool} {cs : List Char} (h : Spelled start cs) :
    ∀ c ∈ cs, c.isAlphanum = true ∨ c = '_' := by
  induction h with
  | done => simp
  | letter hcapital _ ih =>
    exact List.forall_mem_cons.2 ⟨.inl (isAlphanum_of_isUpper hcapital), ih⟩
  | digit hdigit _ ih => exact List.forall_mem_cons.2 ⟨.inl (isAlphanum_of_isDigit hdigit), ih⟩
  | underscore _ ih => exact List.forall_mem_cons.2 ⟨.inr rfl, ih⟩

/-! ## Case -/

/-- What a change of case does to a capital. -/
theorem case_of_isUpper {c : Char} (h : c.isUpper = true) :
    upper c = [c] ∧ lower c = [c.toLower] ∧ c.toLower.isUpper = false ∧ c.toLower.toUpper = c ∧
      c.toLower.toLower = c.toLower ∧ lower c.toLower = [c.toLower] := by
  have hc : c.toNat < 128 := toNat_lt_of_isAlphanum (isAlphanum_of_isUpper h)
  have hcase := forall_ascii (p := fun c => c.isUpper = true → c.toUpper = c ∧
    c.toLower.isUpper = false ∧ c.toLower.toUpper = c ∧ c.toLower.toLower = c.toLower ∧
    lower c.toLower = [c.toLower]) (by decide) hc h
  rw [upper_of_ascii hc, lower_of_ascii hc, hcase.1]
  exact ⟨rfl, rfl, hcase.2⟩

theorem isDigit_of_isUpper {c : Char} (h : c.isUpper = true) :
    c.isDigit = false ∧ c.toLower.isDigit = false := by
  have hc : c.toNat < 128 := toNat_lt_of_isAlphanum (isAlphanum_of_isUpper h)
  exact forall_ascii (p := fun c => c.isUpper = true → c.isDigit = false ∧
    c.toLower.isDigit = false) (by decide) hc h

/-- A change of case leaves digits as they are. -/
theorem case_of_isDigit {c : Char} (h : c.isDigit = true) :
    upper c = [c] ∧ lower c = [c] ∧ c.isUpper = false ∧ c.toUpper = c ∧ c.toLower = c := by
  have hc : c.toNat < 128 := toNat_lt_of_isAlphanum (isAlphanum_of_isDigit h)
  have hcase := forall_ascii (p := fun c => c.isDigit = true → c.isUpper = false ∧
    c.toUpper = c ∧ c.toLower = c) (by decide) hc h
  rw [upper_of_ascii hc, lower_of_ascii hc, hcase.2.1, hcase.2.2]
  exact ⟨rfl, rfl, hcase.1, rfl, rfl⟩

theorem ne_underscore_of_isUpper {c : Char} (h : c.isUpper = true) : c ≠ '_' := by
  rintro rfl
  revert h
  decide

theorem ne_underscore_of_isDigit {c : Char} (h : c.isDigit = true) : c ≠ '_' := by
  rintro rfl
  revert h
  decide

theorem camelFrom_capital {c : Char} (h : c.isUpper = true) (raised : Bool) (rest : List Char) :
    camelFrom raised (c :: rest) = (if raised then c else c.toLower) :: camelFrom false rest := by
  obtain ⟨hupper, hlower, -⟩ := case_of_isUpper h
  rw [camelFrom, if_neg (ne_underscore_of_isUpper h), hupper, hlower]
  cases raised <;> rfl

theorem camelFrom_digit {c : Char} (h : c.isDigit = true) (raised : Bool) (rest : List Char) :
    camelFrom raised (c :: rest) = c :: camelFrom false rest := by
  obtain ⟨hupper, hlower, -⟩ := case_of_isDigit h
  rw [camelFrom, if_neg (ne_underscore_of_isDigit h), hupper, hlower]
  cases raised <;> rfl

/-! ## Camel forms -/

/-- The schema name of a camel form. -/
def uncamel (cs : List Char) : List Char :=
  cs.flatMap fun c => if c.isUpper then ['_', c] else [c.toUpper]

/-- **The camel form of a schema name tells the name.** -/
theorem uncamel_camelFrom {start raised : Bool} {cs : List Char} (h : Spelled start cs)
    (hraised : raised = true → start = true) :
    uncamel (camelFrom raised cs) = if raised then '_' :: cs else cs := by
  induction h generalizing raised with
  | done =>
    cases raised with
    | false => rfl
    | true => cases hraised rfl
  | @letter _ c rest hcapital _ ih =>
    have hrest : uncamel (camelFrom false rest) = rest := ih (by simp)
    obtain ⟨-, -, hlowered, hback, -⟩ := case_of_isUpper hcapital
    rw [camelFrom_capital hcapital, uncamel, List.flatMap_cons, ← uncamel, hrest]
    cases raised with
    | false => simp [hlowered, hback]
    | true => simp [hcapital]
  | @digit c rest hdigit _ ih =>
    have hrest : uncamel (camelFrom false rest) = rest := ih (by simp)
    obtain ⟨-, -, hnot, hsame, -⟩ := case_of_isDigit hdigit
    obtain rfl : raised = false := by simpa using hraised
    rw [camelFrom_digit hdigit, uncamel, List.flatMap_cons, ← uncamel, hrest]
    simp [hnot, hsame]
  | @underscore rest _ ih =>
    obtain rfl : raised = false := by simpa using hraised
    rw [camelFrom_underscore, ih (fun _ => rfl)]
    rfl

theorem camelFrom_injective {as bs : List Char} (ha : Spelled true as) (hb : Spelled true bs)
    (h : camelFrom false as = camelFrom false bs) : as = bs := by
  have huncamel := congrArg uncamel h
  rwa [uncamel_camelFrom ha (by simp), uncamel_camelFrom hb (by simp)] at huncamel

/-- The letters and digits of a name in lower case. -/
def letters (cs : List Char) : List Char := (cs.filter (· != '_')).map Char.toLower

theorem letters_underscore (rest : List Char) : letters ('_' :: rest) = letters rest := rfl

theorem letters_cons {c : Char} (h : c ≠ '_') (rest : List Char) :
    letters (c :: rest) = c.toLower :: letters rest := by simp [letters, h]

theorem map_toLower_camelFrom {start : Bool} {cs : List Char} (h : Spelled start cs)
    (raised : Bool) : (camelFrom raised cs).map Char.toLower = letters cs := by
  induction h generalizing raised with
  | done => rfl
  | @letter _ c rest hcapital _ ih =>
    obtain ⟨-, -, -, -, hlowered, -⟩ := case_of_isUpper hcapital
    rw [camelFrom_capital hcapital, List.map_cons, ih,
      letters_cons (ne_underscore_of_isUpper hcapital)]
    cases raised with
    | false => rw [if_neg (by simp), hlowered]
    | true => rw [if_pos rfl]
  | @digit c rest hdigit _ ih =>
    rw [camelFrom_digit hdigit, List.map_cons, ih, letters_cons (ne_underscore_of_isDigit hdigit)]
  | underscore _ ih => rw [camelFrom_underscore, ih, letters_underscore]

/-! ## Short names -/

/-- What stands in a name behind some letters, which are matched in lower case and across
underscores. -/
def dropLetters : List Char → List Char → Option (List Char)
  | [], cs => some cs
  | _ :: _, [] => none
  | e :: es, c :: cs =>
    if c = '_' then dropLetters (e :: es) cs
    else if c.toLower = e then dropLetters es cs else none

/-- A member without the letters of its enum and the underscores behind them, if there is
something left that does not start with a digit. -/
def shortName (enumName member : List Char) : List Char :=
  match dropLetters (lowerText enumName) member with
  | none => member
  | some rest =>
    match rest.dropWhile (· == '_') with
    | [] => member
    | c :: cs => if c.isDigit then member else c :: cs

/-- Letters can be dropped from a name that starts with them. -/
theorem isPrefixOf_letters (es cs : List Char) :
    es.isPrefixOf (letters cs) = (dropLetters es cs).isSome := by
  fun_induction dropLetters es cs with
  | case1 cs => rfl
  | case2 e es => rfl
  | case3 e es cs ih => exact ih
  | case4 es c cs hc ih =>
    rw [letters_cons hc, List.isPrefixOf_cons_cons, beq_self_eq_true, Bool.true_and]
    exact ih
  | case5 e es c cs hc hne =>
    rw [letters_cons hc, List.isPrefixOf_cons_cons, beq_false_of_ne (Ne.symm hne)]
    rfl

/-- Behind the dropped letters the camel form goes on as inside a word. -/
def DropsLetters (camelled cs : List Char) : Prop :=
  ∀ es rest : List Char, es ≠ [] → dropLetters es cs = some rest →
    camelled.drop es.length = camelFrom false rest ∧ Spelled false rest

/-- A letter or digit in front is the first one that is dropped. -/
theorem DropsLetters.cons {tail : List Char} (h : DropsLetters (camelFrom false tail) tail)
    (htail : Spelled false tail) {c : Char} (hc : c ≠ '_') (first : Char) :
    DropsLetters (first :: camelFrom false tail) (c :: tail) := by
  intro es rest hes hdrop
  obtain ⟨e, es, rfl⟩ := List.exists_cons_of_ne_nil hes
  rw [dropLetters, if_neg hc] at hdrop
  split at hdrop
  · rw [List.length_cons, List.drop_succ_cons]
    cases es with
    | nil =>
      rw [dropLetters] at hdrop
      obtain rfl := Option.some.inj hdrop
      exact ⟨rfl, htail⟩
    | cons e' es => exact h (e' :: es) rest (List.cons_ne_nil e' es) hdrop
  · cases hdrop

theorem dropsLetters_camelFrom {start : Bool} {cs : List Char} (h : Spelled start cs)
    (raised : Bool) : DropsLetters (camelFrom raised cs) cs := by
  induction h generalizing raised with
  | done =>
    intro es rest hes hdrop
    obtain ⟨e, es, rfl⟩ := List.exists_cons_of_ne_nil hes
    cases hdrop
  | letter hcapital hrest ih =>
    rw [camelFrom_capital hcapital]
    exact (ih false).cons hrest (ne_underscore_of_isUpper hcapital) _
  | digit hdigit hrest ih =>
    rw [camelFrom_digit hdigit]
    exact (ih false).cons hrest (ne_underscore_of_isDigit hdigit) _
  | underscore hrest ih =>
    intro es rest hes hdrop
    obtain ⟨e, es, rfl⟩ := List.exists_cons_of_ne_nil hes
    rw [camelFrom_underscore]
    exact ih true (e :: es) rest hes hdrop

/-! ## Swift names -/

theorem dropWhile_underscore_of_ne {c : Char} (h : c ≠ '_') (rest : List Char) :
    (c :: rest).dropWhile (· == '_') = c :: rest := List.dropWhile_cons_of_neg (by simpa using h)

/-- What stands behind dropped letters: nothing, a digit, or the start of a short name. -/
inductive Behind (rest : List Char) : Prop where
  | nothing (name : rest.dropWhile (· == '_') = []) (camelled : camelFrom false rest = [])
  | digit {c : Char} {cs tail : List Char} (digit : c.isDigit = true)
      (name : rest.dropWhile (· == '_') = c :: cs) (camelled : camelFrom false rest = c :: tail)
  | word {c first : Char} {cs tail : List Char} (spelled : Spelled true (c :: cs))
      (name : rest.dropWhile (· == '_') = c :: cs) (noDigit : c.isDigit = false)
      (camelled : camelFrom false rest = first :: tail) (noFirstDigit : first.isDigit = false)
      (short : decapitalize (first :: tail) = camelFrom false (c :: cs))

theorem Spelled.behind {rest : List Char} (h : Spelled false rest) : Behind rest := by
  cases h with
  | done => exact .nothing rfl rfl
  | digit hdigit _ =>
    exact .digit hdigit (dropWhile_underscore_of_ne (ne_underscore_of_isDigit hdigit) _)
      (camelFrom_digit hdigit false _)
  | @letter _ c rest hcapital hrest =>
    obtain ⟨hdigit, hlowered⟩ := isDigit_of_isUpper hcapital
    obtain ⟨-, -, -, -, -, hlower⟩ := case_of_isUpper hcapital
    have hcamel := camelFrom_capital hcapital false rest
    refine .word (.letter hcapital hrest)
      (dropWhile_underscore_of_ne (ne_underscore_of_isUpper hcapital) rest) hdigit hcamel hlowered ?_
    rw [hcamel, decapitalize, if_neg (by simp), hlower]
    rfl
  | underscore hrest =>
    cases hrest with
    | @letter _ c rest hcapital hrest =>
      obtain ⟨hdigit, -⟩ := isDigit_of_isUpper hcapital
      obtain ⟨-, hlower, -⟩ := case_of_isUpper hcapital
      have hcamel : camelFrom false ('_' :: c :: rest) = c :: camelFrom false rest := by
        rw [camelFrom_underscore, camelFrom_capital hcapital, if_pos rfl]
      refine .word (.letter hcapital hrest) ?_ hdigit hcamel hdigit ?_
      · exact dropWhile_underscore_of_ne (ne_underscore_of_isUpper hcapital) rest
      · rw [decapitalize, hlower, camelFrom_capital hcapital, if_neg (by simp)]
        rfl

theorem toNat_lt_of_word {c : Char} (h : c.isAlphanum = true ∨ c = '_') : c.toNat < 128 := by
  rcases h with h | rfl
  · exact toNat_lt_of_isAlphanum h
  · decide

/-- In lower case a camel form has the letters and digits of its name. -/
theorem Spelled.lowersTo_camelFrom {cs : List Char} (h : Spelled true cs) :
    LowersTo (camelFrom false cs) (letters cs) where
  ascii c hc := toNat_lt_of_isAlphanum (isAlphanum_of_mem_camelFrom h.isWord c hc)
  lowered := map_toLower_camelFrom h false

theorem Spelled.toNat_lt_of_mem_letters {cs : List Char} (h : Spelled true cs) {d : Char}
    (hd : d ∈ letters cs) : d.toNat < 128 := by
  obtain ⟨c, hc, rfl⟩ := List.mem_map.1 hd
  exact forall_ascii (p := fun c => c.toLower.toNat < 128) (by decide)
    (toNat_lt_of_word (h.isWord c (List.mem_filter.1 hc).1))

/-- A name whose lower case stands in a schema name is as long as its lower case. -/
theorem length_lowerText_of_dropLetters {enumName cs rest : List Char} (h : Spelled true cs)
    (hdrop : dropLetters (lowerText enumName) cs = some rest) :
    (lowerText enumName).length = enumName.length := by
  have hstarts : lowerText enumName <+: letters cs := by
    rw [← List.isPrefixOf_iff_prefix, isPrefixOf_letters, hdrop]
    rfl
  rw [length_lowerText, List.count_eq_zero_of_not_mem, Nat.add_zero]
  intro hdotted
  have hdot := h.toNat_lt_of_mem_letters (hstarts.subset (combiningDot_mem_lowerAfter [] hdotted))
  revert hdot
  decide

/-- Dropping letters from a camel form is dropping them from the name. -/
theorem dropEnumName_camelFrom (enumName : List Char) {cs : List Char} (h : Spelled true cs) :
    Spelled true (shortName enumName cs) ∧
      dropEnumName enumName (camelFrom false cs) = camelFrom false (shortName enumName cs) := by
  unfold dropEnumName shortName
  dsimp only
  rw [h.lowersTo_camelFrom.lowerText_eq, isPrefixOf_letters]
  cases hdrop : dropLetters (lowerText enumName) cs with
  | none => exact ⟨h, by simp⟩
  | some rest =>
    dsimp only
    by_cases hempty : lowerText enumName = []
    · -- Nothing is dropped, and the name is not empty.
      rw [hempty, dropLetters] at hdrop
      obtain rfl := Option.some.inj hdrop
      rw [if_pos (by simp [hempty])]
      cases h with
      | @letter _ c rest hcapital hrest =>
        rw [dropWhile_underscore_of_ne (ne_underscore_of_isUpper hcapital)]
        simpa only [(isDigit_of_isUpper hcapital).1, Bool.false_eq_true, if_false, and_true]
          using Spelled.letter hcapital hrest
    · obtain ⟨hcamel, hspelled⟩ := dropsLetters_camelFrom h false _ rest hempty hdrop
      rw [length_lowerText_of_dropLetters h hdrop] at hcamel
      rw [if_neg (by simp [hempty]), hcamel]
      cases hspelled.behind with
      | nothing hname hcamelled =>
        rw [hname, hcamelled]
        exact ⟨h, rfl⟩
      | digit hdigit hname hcamelled =>
        rw [hname, hcamelled]
        simpa only [hdigit, if_true, and_true] using h
      | word hshort hname hno hcamelled hfirst hcase =>
        rw [hname, hcamelled]
        simp only [hno, hfirst, Bool.false_eq_true, if_false]
        exact ⟨hshort, hcase⟩

theorem toList_memberStem (enumName : String) {member : String} (h : IsSchemaName member) :
    (memberStem enumName member).toList =
      camelFrom false (shortName enumName.toList member.toList) := by
  rw [memberStem, String.toList_ofList, (dropEnumName_camelFrom _ h.spelled).2]

/-- What stands for a member before it is escaped is a word. -/
theorem isWord_memberStem (enumName : String) {member : String} (h : IsSchemaName member) :
    IsWord (memberStem enumName member) := by
  rw [IsWord, toList_memberStem enumName h]
  exact fun c hc =>
    .inl (isAlphanum_of_mem_camelFrom (dropEnumName_camelFrom _ h.spelled).1.isWord c hc)

theorem not_mem_of_isWord {word : String} (h : IsWord word) {c : Char}
    (hc : c.isAlphanum = false) (hne : c ≠ '_') : c ∉ word.toList := by
  intro hmem
  rcases h c hmem with halnum | heq
  · rw [hc] at halnum
    cases halnum
  · exact hne heq

/-- Escaped words tell the words. -/
theorem escape_injective {a b : String} (ha : IsWord a) (hb : IsWord b)
    (h : escape a = escape b) : a = b := by
  have hquote : ∀ word : String, '`' ∈ ("`" ++ word ++ "`").toList := fun word => by simp
  have hplain : ∀ {word : String}, IsWord word → '`' ∉ word.toList := fun hword =>
    not_mem_of_isWord hword (by decide) (by decide)
  unfold escape at h
  split at h <;> split at h
  · have hchars := congrArg String.toList h
    simp only [String.toList_append] at hchars
    exact String.toList_inj.1 (List.append_cancel_left (List.append_cancel_right hchars))
  · exact absurd (h ▸ hquote a) (hplain hb)
  · exact absurd (h ▸ hquote b) (hplain ha)
  · exact h

/-- **Two members have one Swift name exactly if they have one short name.** -/
theorem memberName_eq_iff (enumName : String) {a b : String} (ha : IsSchemaName a)
    (hb : IsSchemaName b) :
    memberName enumName a = memberName enumName b ↔
      shortName enumName.toList a.toList = shortName enumName.toList b.toList := by
  constructor
  · intro h
    have hstem := escape_injective (isWord_memberStem enumName ha) (isWord_memberStem enumName hb) h
    have hcamel := congrArg String.toList hstem
    rw [toList_memberStem enumName ha, toList_memberStem enumName hb] at hcamel
    exact camelFrom_injective (dropEnumName_camelFrom _ ha.spelled).1
      (dropEnumName_camelFrom _ hb.spelled).1 hcamel
  · intro h
    have hstem : memberStem enumName a = memberStem enumName b := by
      rw [← String.toList_inj, toList_memberStem enumName ha, toList_memberStem enumName hb, h]
    rw [memberName, memberName, hstem]

end SwiftDecls.Naming
