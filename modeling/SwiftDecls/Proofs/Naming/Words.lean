import SwiftDecls.Proofs.SchemaNames
import SwiftDecls.Proofs.Text.Pieces

/-!
# Names made of words

The schema names a type by words that are capitalized, and a member by words in capitals with
underscores between them. The camel form of a member is its first word and then the others
capitalized (`camel_memberNameOf`). So the name of an enum goes from a member word by word
(`memberStem_memberNameOf`), unless no letter stands behind it.

Where every word starts with a letter the camel form can be read back: its capitals are where the
words behind the first start (`fromCamel_camel`).
-/

set_option autoImplicit false

namespace SwiftDecls.Naming

open Text

/-! ## Words in small letters -/

/-- A word of small ASCII letters and digits. -/
def IsPlainWord (word : String) : Prop :=
  word ≠ "" ∧ ∀ c ∈ word.toList, c.isLower = true ∨ c.isDigit = true

instance (word : String) : Decidable (IsPlainWord word) :=
  @instDecidableAnd _ _ _ (List.decidableBAll _ word.toList)

/-- The name of a type: its words, capitalized. -/
def typeNameOf (words : List String) : String :=
  String.ofList (words.flatMap fun word => capitalize word.toList)

/-- The name of a member: its words in capitals, with underscores between them. -/
def memberNameOf (words : List String) : String :=
  joinSegments '_' (words.map fun word => String.ofList (word.toList.flatMap upper))

/-- There is a first word, and a letter stands first in it. -/
def startsWithLetter (words : List String) : Bool :=
  words.head?.any fun word => word.toList.head?.any Char.isAlpha

/-- What a change of case does to a small letter or digit. -/
structure CaseOfPlain (c : Char) : Prop where
  upper_eq : upper c = [c.toUpper]
  upper_raised : upper c.toUpper = [c.toUpper]
  lower_raised : lower c.toUpper = [c]
  toLower_eq : c.toLower = c
  toLower_raised : c.toUpper.toLower = c
  ascii : c.toNat < 128
  ascii_raised : c.toUpper.toNat < 128
  isDigit_raised : c.toUpper.isDigit = !c.isAlpha
  ne_underscore : c.toUpper ≠ '_'

theorem caseOfPlain {c : Char} (h : c.isLower = true ∨ c.isDigit = true) : CaseOfPlain c := by
  have hc : c.toNat < 128 := by
    rcases h with hlower | hdigit
    · exact toNat_lt_of_isAlphanum (isAlphanum_of_isLower hlower)
    · exact toNat_lt_of_isAlphanum (isAlphanum_of_isDigit hdigit)
  have hcase := forall_ascii (p := fun c => c.isLower = true ∨ c.isDigit = true →
    c.toLower = c ∧ c.toUpper.toLower = c ∧ c.toUpper.toUpper = c.toUpper ∧
      c.toUpper.toNat < 128 ∧ c.toUpper.isDigit = (!c.isAlpha) ∧ c.toUpper ≠ '_') (by decide) hc h
  obtain ⟨hlower, hback, hupper, hascii, hdigit, hne⟩ := hcase
  refine ⟨upper_of_ascii hc, ?_, ?_, hlower, hback, hc, hascii, hdigit, hne⟩
  · rw [upper_of_ascii hascii, hupper]
  · rw [lower_of_ascii hascii, hback]

theorem IsPlainWord.exists_toList_eq {word : String} (h : IsPlainWord word) :
    ∃ c cs, word.toList = c :: cs ∧ CaseOfPlain c ∧
      ∀ d ∈ cs, d.isLower = true ∨ d.isDigit = true := by
  have hne : word.toList ≠ [] := fun hnil => h.1 (String.toList_eq_nil_iff.1 hnil)
  obtain ⟨c, cs, hword⟩ := List.exists_cons_of_ne_nil hne
  obtain ⟨hc, hcs⟩ := List.forall_mem_cons.1 (hword ▸ h.2)
  exact ⟨c, cs, hword, caseOfPlain hc, hcs⟩

/-- Inside a name capitals go back to the small letters they are of. -/
theorem camelFrom_capitals {cs : List Char} (h : ∀ c ∈ cs, c.isLower = true ∨ c.isDigit = true)
    (behind : List Char) :
    camelFrom false (cs.flatMap upper ++ behind) = cs ++ camelFrom false behind := by
  induction cs with
  | nil => rfl
  | cons c cs ih =>
    obtain ⟨hc, hcs⟩ := List.forall_mem_cons.1 h
    have hcase := caseOfPlain hc
    rw [List.flatMap_cons, hcase.upper_eq, List.append_assoc, List.singleton_append, camelFrom,
      if_neg hcase.ne_underscore, if_neg (by simp), hcase.lower_raised, ih hcs]
    rfl

/-- A word in capitals goes back to the word, which is capitalized behind an underscore. -/
theorem camelFrom_word (raised : Bool) {word : String} (h : IsPlainWord word)
    (behind : List Char) :
    camelFrom raised (word.toList.flatMap upper ++ behind) =
      (if raised then capitalize word.toList else word.toList) ++ camelFrom false behind := by
  cases raised with
  | false => exact camelFrom_capitals h.2 behind
  | true =>
    obtain ⟨c, cs, hword, hcase, hcs⟩ := h.exists_toList_eq
    rw [hword, List.flatMap_cons, hcase.upper_eq, List.append_assoc, List.singleton_append,
      camelFrom, if_neg hcase.ne_underscore, if_pos rfl, hcase.upper_raised,
      camelFrom_capitals hcs, if_pos rfl, capitalize, hcase.upper_eq]
    rfl

theorem toList_typeNameOf_nil : (typeNameOf []).toList = [] := rfl

theorem toList_typeNameOf_cons (word : String) (rest : List String) :
    (typeNameOf (word :: rest)).toList = capitalize word.toList ++ (typeNameOf rest).toList := by
  simp only [typeNameOf, String.toList_ofList, List.flatMap_cons]

theorem typeNameOf_append (words more : List String) :
    typeNameOf (words ++ more) = typeNameOf words ++ typeNameOf more := by
  rw [typeNameOf, List.flatMap_append, String.ofList_append]
  rfl

theorem toList_memberNameOf_singleton (word : String) :
    (memberNameOf [word]).toList = word.toList.flatMap upper := by
  simp only [memberNameOf, joinSegments, List.map_cons, List.map_nil, String.toList_ofList,
    List.intercalate_singleton]

theorem toList_memberNameOf_cons_cons (word next : String) (rest : List String) :
    (memberNameOf (word :: next :: rest)).toList =
      word.toList.flatMap upper ++ '_' :: (memberNameOf (next :: rest)).toList := by
  simp only [memberNameOf, joinSegments, List.map_cons, String.toList_ofList,
    List.intercalate_cons_cons, List.append_assoc, List.singleton_append]

theorem camelFrom_memberNameOf (raised : Bool) {word : String} {rest : List String}
    (hword : IsPlainWord word) (hrest : ∀ w ∈ rest, IsPlainWord w) :
    camelFrom raised (memberNameOf (word :: rest)).toList =
      (if raised then capitalize word.toList else word.toList) ++ (typeNameOf rest).toList := by
  induction rest generalizing raised word with
  | nil =>
    have hcamel := camelFrom_word raised hword []
    rw [List.append_nil] at hcamel
    rw [toList_memberNameOf_singleton, hcamel, camelFrom_nil, toList_typeNameOf_nil]
  | cons next rest ih =>
    obtain ⟨hnext, hrest⟩ := List.forall_mem_cons.1 hrest
    rw [toList_memberNameOf_cons_cons, camelFrom_word raised hword, camelFrom_underscore,
      ih true hnext hrest, if_pos rfl, toList_typeNameOf_cons]

/-- The camel form of a member: the first word, and the others capitalized. -/
theorem camel_memberNameOf {word : String} {rest : List String} (hword : IsPlainWord word)
    (hrest : ∀ w ∈ rest, IsPlainWord w) :
    camel (memberNameOf (word :: rest)) = word ++ typeNameOf rest := by
  rw [← String.toList_inj, camel, String.toList_ofList, camelFrom_memberNameOf false hword hrest,
    if_neg (by simp), String.toList_append]

/-! ## The name of the enum -/

theorem lowersTo_self {cs : List Char} (h : ∀ c ∈ cs, c.isLower = true ∨ c.isDigit = true) :
    LowersTo cs cs where
  ascii c hc := (caseOfPlain (h c hc)).ascii
  lowered := (List.map_congr_left fun c hc => (caseOfPlain (h c hc)).toLower_eq).trans
    (List.map_id cs)

theorem lowersTo_capitalize {cs : List Char} (h : ∀ c ∈ cs, c.isLower = true ∨ c.isDigit = true) :
    LowersTo (capitalize cs) cs := by
  cases cs with
  | nil => exact lowersTo_self h
  | cons c cs =>
    obtain ⟨hc, hcs⟩ := List.forall_mem_cons.1 h
    have hcase := caseOfPlain hc
    have hfirst : LowersTo [c.toUpper] [c] :=
      ⟨by simpa using hcase.ascii_raised, by rw [List.map_singleton, hcase.toLower_raised]⟩
    rw [capitalize, hcase.upper_eq]
    exact hfirst.append (lowersTo_self hcs)

/-- In lower case the name of a type is its words without anything between them. -/
theorem lowersTo_typeNameOf {words : List String} (h : ∀ w ∈ words, IsPlainWord w) :
    LowersTo (typeNameOf words).toList (words.flatMap String.toList) := by
  induction words with
  | nil => exact ⟨by simp [toList_typeNameOf_nil], rfl⟩
  | cons word rest ih =>
    obtain ⟨hword, hrest⟩ := List.forall_mem_cons.1 h
    rw [toList_typeNameOf_cons, List.flatMap_cons]
    exact (lowersTo_capitalize hword.2).append (ih hrest)

/-- What stands first in the name of a type is a digit if it is no letter. -/
theorem all_isDigit_head?_typeNameOf {words : List String} (h : ∀ w ∈ words, IsPlainWord w) :
    (typeNameOf words).toList.head?.all Char.isDigit = !startsWithLetter words := by
  cases words with
  | nil => rfl
  | cons word rest =>
    obtain ⟨c, cs, hword, hcase, -⟩ := (h word List.mem_cons_self).exists_toList_eq
    rw [toList_typeNameOf_cons, startsWithLetter, hword, capitalize, hcase.upper_eq, List.head?_cons,
      Option.any_some, hword]
    exact hcase.isDigit_raised

theorem decapitalize_typeNameOf {word : String} (h : IsPlainWord word) (rest : List String) :
    decapitalize (typeNameOf (word :: rest)).toList = word.toList ++ (typeNameOf rest).toList := by
  obtain ⟨c, cs, hword, hcase, -⟩ := h.exists_toList_eq
  rw [toList_typeNameOf_cons, hword, capitalize, hcase.upper_eq, List.append_assoc,
    List.singleton_append, decapitalize, hcase.lower_raised]
  rfl

/-- A front with the letters of the enum's name goes if an identifier is left. -/
theorem dropEnumName_append {enumName front behind small small' : List Char}
    (hname : LowersTo enumName small) (hfront : LowersTo front small)
    (hbehind : LowersTo behind small') (hne : small ≠ []) :
    dropEnumName enumName (front ++ behind) =
      if behind.head?.all Char.isDigit then front ++ behind else decapitalize behind := by
  have hstarts : small.isPrefixOf (small ++ small') = true :=
    List.isPrefixOf_iff_prefix.2 (List.prefix_append small small')
  have hdrop : (front ++ behind).drop enumName.length = behind := by
    rw [hname.length_eq, ← hfront.length_eq, List.drop_left]
  have hempty : small.isEmpty = false := by simpa using hne
  unfold dropEnumName
  dsimp only
  rw [hname.lowerText_eq, (hfront.append hbehind).lowerText_eq, hstarts, hempty, hdrop,
    if_neg (by simp)]
  cases behind with
  | nil => rfl
  | cons c rest => rfl

/-- **The name of an enum goes from a member word by word**, unless nothing or a digit is behind
it. -/
theorem memberStem_memberNameOf {own more : List String} (own_ne : own ≠ [])
    (plain_own : ∀ w ∈ own, IsPlainWord w) (plain_more : ∀ w ∈ more, IsPlainWord w) :
    memberStem (typeNameOf own) (memberNameOf (own ++ more)) =
      if startsWithLetter more then camel (memberNameOf more)
      else camel (memberNameOf (own ++ more)) := by
  obtain ⟨word, rest, rfl⟩ := List.exists_cons_of_ne_nil own_ne
  obtain ⟨hword, hrest⟩ := List.forall_mem_cons.1 plain_own
  have hall : ∀ w ∈ rest ++ more, IsPlainWord w := List.forall_mem_append.2 ⟨hrest, plain_more⟩
  have hcamel : (camel (memberNameOf (word :: rest ++ more))).toList =
      (word.toList ++ (typeNameOf rest).toList) ++ (typeNameOf more).toList := by
    rw [List.cons_append, camel_memberNameOf hword hall, typeNameOf_append, String.toList_append,
      String.toList_append, List.append_assoc]
  have hfront : LowersTo (word.toList ++ (typeNameOf rest).toList)
      ((word :: rest).flatMap String.toList) :=
    (lowersTo_self hword.2).append (lowersTo_typeNameOf hrest)
  have hne : (word :: rest).flatMap String.toList ≠ [] := by
    obtain ⟨c, cs, hcs, -⟩ := hword.exists_toList_eq
    rw [List.flatMap_cons, hcs]
    exact List.cons_ne_nil c _
  rw [← String.toList_inj, toList_memberStem_eq, hcamel,
    dropEnumName_append (lowersTo_typeNameOf plain_own) hfront (lowersTo_typeNameOf plain_more) hne,
    all_isDigit_head?_typeNameOf plain_more]
  cases hletter : startsWithLetter more with
  | false =>
    rw [if_pos (by simp), if_neg (by simp), hcamel]
  | true =>
    cases more with
    | nil => cases hletter
    | cons next later =>
      obtain ⟨hnext, hlater⟩ := List.forall_mem_cons.1 plain_more
      rw [if_neg (by simp), if_pos rfl, decapitalize_typeNameOf hnext,
        camel_memberNameOf hnext hlater, String.toList_append]

/-- Words with digits in front on both sides of the cut. -/
theorem memberStem_memberNameOf_of_digits :
    let own := ["2d", "axis"]
    let more := ["x2", "3d"]
    own ≠ [] ∧ (∀ w ∈ own, IsPlainWord w) ∧ (∀ w ∈ more, IsPlainWord w) ∧
      startsWithLetter more = true ∧
      memberStem (typeNameOf own) (memberNameOf (own ++ more)) = camel (memberNameOf more) := by
  intro own more
  have hown : own ≠ [] := by decide
  have hplainOwn : ∀ w ∈ own, IsPlainWord w := by decide
  have hplainMore : ∀ w ∈ more, IsPlainWord w := by decide
  exact ⟨hown, hplainOwn, hplainMore, by decide,
    memberStem_memberNameOf hown hplainOwn hplainMore⟩

/-! ## Reading a camel form back -/

/-- A text with an underscore before each of its capitals. -/
def markCapitals (cs : List Char) : List Char :=
  cs.flatMap fun c => if c.isUpper then ['_', c] else [c]

/-- The name in capitals that a camel form is of. -/
def fromCamel (camelled : String) : String :=
  String.ofList ((markCapitals camelled.toList).flatMap upper)

theorem flatMap_upper_markCapitals {cs : List Char} (h : ∀ c ∈ cs, c.toNat < 128) :
    (markCapitals cs).flatMap upper = uncamel cs := by
  induction cs with
  | nil => rfl
  | cons c rest ih =>
    obtain ⟨hc, hrest⟩ := List.forall_mem_cons.1 h
    rw [markCapitals, uncamel, List.flatMap_cons, List.flatMap_cons, ← markCapitals, ← uncamel,
      List.flatMap_append, ih hrest]
    split
    · rename_i hcapital
      obtain ⟨hupper, -⟩ := case_of_isUpper hcapital
      have hunderscore : upper '_' = ['_'] := by decide
      rw [List.flatMap_cons, List.flatMap_singleton, hunderscore, hupper]
      rfl
    · rw [List.flatMap_singleton, upper_of_ascii hc]

theorem underscore_not_mem_of_isSchemaWord {cs : List Char} (h : isSchemaWord cs = true) :
    '_' ∉ cs := by
  cases cs with
  | nil => exact List.not_mem_nil
  | cons c rest =>
    rw [isSchemaWord, Bool.and_eq_true, List.all_eq_true] at h
    rintro hmem
    rcases List.mem_cons.1 hmem with hfirst | hrest
    · exact ne_underscore_of_isUpper h.1 hfirst.symm
    · rcases Bool.or_eq_true_iff.1 (h.2 '_' hrest) with hcapital | hdigit
      · exact ne_underscore_of_isUpper hcapital rfl
      · exact ne_underscore_of_isDigit hdigit rfl

/-- The words of a schema name are read back from it, so it is a schema name. -/
theorem segments_of_isSchemaWord {words : List String} (hne : words ≠ [])
    (hwords : ∀ w ∈ words, isSchemaWord w.toList = true) :
    segments '_' (joinSegments '_' words) = words ∧ IsSchemaName (joinSegments '_' words) := by
  have hsegments := segments_joinSegments '_' hne fun w hw =>
    underscore_not_mem_of_isSchemaWord (hwords w hw)
  refine ⟨hsegments, fun cs hcs => ?_⟩
  have hword : String.ofList cs ∈ words := by
    rw [← hsegments]
    exact List.mem_map_of_mem hcs
  have hschema := hwords _ hword
  rwa [String.toList_ofList] at hschema

/-- The camel form of a schema name is marked and raised back to the name. -/
theorem fromCamel_camel_of_isSchemaName {name : String} (h : IsSchemaName name) :
    fromCamel (camel name) = name := by
  rw [← String.toList_inj, fromCamel, String.toList_ofList, camel, String.toList_ofList,
    flatMap_upper_markCapitals h.spelled.lowersTo_camelFrom.ascii,
    uncamel_camelFrom h.spelled (by simp), if_neg (by simp)]

/-- **A name of schema words is read back from its camel form**, so no other words have this form. -/
theorem fromCamel_camel {words : List String} (words_ne : words ≠ [])
    (schema : ∀ w ∈ words, isSchemaWord w.toList = true) :
    fromCamel (camel (joinSegments '_' words)) = joinSegments '_' words ∧
      ∀ others : List String, others ≠ [] → (∀ w ∈ others, isSchemaWord w.toList = true) →
        camel (joinSegments '_' words) = camel (joinSegments '_' others) → words = others := by
  obtain ⟨hsegments, hname⟩ := segments_of_isSchemaWord words_ne schema
  have hback := fromCamel_camel_of_isSchemaName hname
  refine ⟨hback, fun others hne hothers hcamel => ?_⟩
  obtain ⟨hsegments', hname'⟩ := segments_of_isSchemaWord hne hothers
  have hjoined : joinSegments '_' words = joinSegments '_' others := by
    rw [← hback, hcamel, fromCamel_camel_of_isSchemaName hname']
  rw [← hsegments, hjoined, hsegments']

/-- Digits on both sides of an underscore. -/
theorem fromCamel_camel_of_digits :
    let words := ["AXIS2", "X3D", "B"]
    words ≠ [] ∧ (∀ w ∈ words, isSchemaWord w.toList = true) ∧
      camel (joinSegments '_' words) = "axis2X3dB" ∧
      fromCamel (camel (joinSegments '_' words)) = joinSegments '_' words := by
  intro words
  have hne : words ≠ [] := by decide
  have hschema : ∀ w ∈ words, isSchemaWord w.toList = true := by decide
  exact ⟨hne, hschema, by decide, (fromCamel_camel hne hschema).1⟩

/-- A digit does not show the underscore before it. -/
example : camel "KEY_0" = camel "KEY0" := by decide

end SwiftDecls.Naming
