import Mathlib.Data.List.Chain
import SwiftDecls.Json.Value
import SwiftDecls.Proofs.Json.Spelling

/-!
# How values are written

A value in which nothing is broken is written as its tokens, with white space anywhere between
them. This says which texts spell a value without saying how they are read (`Spells`), and every
JSON text spells one. The main statements are that reading finds the value that a text spells
(`parse_of_spells`) and that what it reads without a fault is spelled by the text
(`spells_parse`).

The tokens need no space between them. Only two numbers would run together, and in a value there
is a comma, a colon or a bracket between any two.
-/

set_option autoImplicit false

namespace SwiftDecls.Json

open Number Text

/-! ## Texts of tokens -/

/-- How tokens are written, with white space anywhere between them. -/
inductive TokensSpelled : List Token → List Char → Prop
  | nil : TokensSpelled [] []
  | space {c : Char} {ts : List Token} {cs : List Char} (blank : isSpace c = true)
      (rest : TokensSpelled ts cs) : TokensSpelled ts (c :: cs)
  | token {t : Token} {ts : List Token} {word cs : List Char} (spelled : t.Spelled word)
      (rest : TokensSpelled ts cs) : TokensSpelled (t :: ts) (word ++ cs)

/-- No number comes right after another. -/
def NumbersApart (ts : List Token) : Prop :=
  ts.IsChain fun t u => t.isNumber = true → u.isNumber = false

/-- White space ends a number. -/
theorem endsNumber_of_isSpace {c : Char} (h : isSpace c = true) (cs : List Char) :
    EndsNumber (c :: cs) := by
  intro d hd
  obtain rfl : c = d := Option.some.inj hd
  simp only [isSpace, Bool.or_eq_true, beq_iff_eq] at h
  rcases h with ((rfl | rfl) | rfl) | rfl <;> decide

/-- Every token but a number ends the number before it. -/
theorem endsNumber_of_spelled {t : Token} {word : List Char} (h : t.Spelled word)
    (ht : t.isNumber = false) (rest : List Char) : EndsNumber (word ++ rest) := by
  have start : ∀ {c : Char} {cs : List Char},
      (c.isDigit = false ∧ c ≠ '.' ∧ c ≠ 'e' ∧ c ≠ 'E') → EndsNumber (c :: cs ++ rest) :=
    fun hc d hd => Option.some.inj hd ▸ hc
  cases t with
  | openBrace | closeBrace | openBracket | closeBracket | colon | comma | null =>
    obtain rfl : word = _ := h
    exact start (by decide)
  | bool value =>
    obtain rfl : word = _ := h
    cases value
    · exact start (c := 'f') (by decide)
    · exact start (c := 't') (by decide)
  | number => cases ht
  | string =>
    obtain ⟨body, parts, -, -, rfl⟩ := h
    exact start (by decide)
  | stray | brokenScalar | brokenString => exact h.elim

theorem TokensSpelled.endsNumber {ts : List Token} {cs : List Char} (h : TokensSpelled ts cs)
    (hts : ∀ t ∈ ts.head?, t.isNumber = false) : EndsNumber cs := by
  cases h with
  | nil => rintro c ⟨⟩
  | space blank => exact endsNumber_of_isSpace blank _
  | token spelled => exact endsNumber_of_spelled spelled (hts _ rfl) _

/-- A text of tokens is read into these tokens. -/
theorem tokensAfter_of_spelled {ts : List Token} {cs : List Char} (h : TokensSpelled ts cs)
    (hapart : NumbersApart ts) (done : List Token) : tokensAfter done cs = done.reverse ++ ts := by
  induction h generalizing done with
  | nil => simp [tokensAfter]
  | space blank _ ih => rw [tokensAfter, if_pos blank, ih hapart]
  | @token t ts word cs spelled rest ih =>
    obtain ⟨happart, hrest⟩ := List.isChain_cons.1 hapart
    obtain ⟨c, word, rfl, hspace, hread⟩ := readToken_of_spelled spelled cs
      fun ht => rest.endsNumber fun u hu => happart u hu ht
    rw [List.cons_append, tokensAfter, if_neg (by simp [hspace]), hread, ih hrest]
    simp

/-- Where nothing is wrong with the tokens that are read, the text is a text of them. -/
theorem exists_tokensAfter_eq (done : List Token) (cs : List Char) :
    ∃ ts, tokensAfter done cs = done.reverse ++ ts ∧
      ((∀ t ∈ ts, t.isSound = true) → TokensSpelled ts cs) := by
  fun_induction tokensAfter done cs with
  | case1 done => exact ⟨[], by simp, fun _ => .nil⟩
  | case2 done c cs blank ih =>
    obtain ⟨ts, heq, hspelled⟩ := ih
    exact ⟨ts, heq, fun hts => .space blank (hspelled hts)⟩
  | case3 done c cs _ ih =>
    obtain ⟨ts, heq, hspelled⟩ := ih
    refine ⟨(readToken c cs).1 :: ts, by simp [heq], fun hts => ?_⟩
    obtain ⟨hsound, hrest⟩ := List.forall_mem_cons.1 hts
    obtain ⟨word, hword, hcs⟩ := takesSpelling_readToken c cs hsound
    rw [hcs]
    exact .token hword (hspelled hrest)

/-! ## Tokens of values -/

/-- A token that stands for nothing itself: a bracket, a colon or a comma. -/
def Token.isMark : Token → Bool
  | openBrace | closeBrace | openBracket | closeBracket | colon | comma => true
  | _ => false

mutual

/-- The tokens of a value. -/
def Value.tokens : Value → List Token
  | .null => [.null]
  | .bool value => [.bool value]
  | .number literal => [.number literal]
  | .string literal => [.string literal]
  | .list [] _ => [.openBracket, .closeBracket]
  | .list (item :: items) _ => .openBracket :: (item.tokens ++ itemTokens items)
  | .map [] _ => [.openBrace, .closeBrace]
  | .map ((key, value) :: entries) _ =>
    .openBrace :: .string key :: .colon :: (value.tokens ++ entryTokens entries)
  | .broken found => found.toList

/-- The tokens behind an item of a list, where these items follow. -/
def itemTokens : List Value → List Token
  | [] => [.closeBracket]
  | item :: items => .comma :: (item.tokens ++ itemTokens items)

/-- The tokens behind an entry of a map, where these entries follow. -/
def entryTokens : List (StringLiteral × Value) → List Token
  | [] => [.closeBrace]
  | (key, value) :: entries =>
    .comma :: .string key :: .colon :: (value.tokens ++ entryTokens entries)

end

/-- Nothing in a value is broken. -/
inductive Value.IsWhole : Value → Prop
  | null : IsWhole .null
  | bool (value : Bool) : IsWhole (.bool value)
  | number (literal : Literal) : IsWhole (.number literal)
  | string (literal : StringLiteral) : IsWhole (.string literal)
  | list {items : List Value} (whole : ∀ v ∈ items, v.IsWhole) : IsWhole (.list items .closed)
  | map {entries : List (StringLiteral × Value)} (whole : ∀ e ∈ entries, e.2.IsWhole) :
      IsWhole (.map entries .closed)

/-- A text spells a value: nothing in the value is broken, and the text is one of its tokens. -/
def Spells (v : Value) (text : String) : Prop := v.IsWhole ∧ TokensSpelled v.tokens text.toList

theorem numbersApart_cons {t : Token} {ts : List Token} (ht : t.isNumber = false)
    (h : NumbersApart ts) : NumbersApart (t :: ts) :=
  List.isChain_cons.2 ⟨fun _ _ hnumber => absurd hnumber (by simp [ht]), h⟩

/-- Tokens with no two numbers in a row, behind which a number could follow. -/
def KeepsApart (ts : List Token) : Prop :=
  ∀ rest, NumbersApart rest → (∀ t ∈ rest.head?, t.isNumber = false) → NumbersApart (ts ++ rest)

theorem numbersApart_itemTokens {items : List Value} (h : ∀ v ∈ items, KeepsApart v.tokens)
    {rest : List Token} (hrest : NumbersApart rest) :
    NumbersApart (itemTokens items ++ rest) ∧
      ∀ t ∈ (itemTokens items ++ rest).head?, t.isNumber = false := by
  induction items with
  | nil => exact ⟨numbersApart_cons rfl hrest, by simp [itemTokens, Token.isNumber]⟩
  | cons item items ih =>
    obtain ⟨hitem, hitems⟩ := List.forall_mem_cons.1 h
    obtain ⟨hbehind, hhead⟩ := ih hitems
    refine ⟨?_, by simp [itemTokens, Token.isNumber]⟩
    rw [itemTokens, List.cons_append, List.append_assoc]
    exact numbersApart_cons rfl (hitem _ hbehind hhead)

theorem numbersApart_entryTokens {entries : List (StringLiteral × Value)}
    (h : ∀ e ∈ entries, KeepsApart e.2.tokens) {rest : List Token} (hrest : NumbersApart rest) :
    NumbersApart (entryTokens entries ++ rest) ∧
      ∀ t ∈ (entryTokens entries ++ rest).head?, t.isNumber = false := by
  induction entries with
  | nil => exact ⟨numbersApart_cons rfl hrest, by simp [entryTokens, Token.isNumber]⟩
  | cons e entries ih =>
    obtain ⟨hvalue, hentries⟩ := List.forall_mem_cons.1 h
    obtain ⟨hbehind, hhead⟩ := ih hentries
    refine ⟨?_, by simp [entryTokens, Token.isNumber]⟩
    simp only [entryTokens, List.cons_append, List.append_assoc]
    exact numbersApart_cons rfl (numbersApart_cons rfl (numbersApart_cons rfl
      (hvalue _ hbehind hhead)))

/-- In a value no number comes right after another. -/
theorem keepsApart_tokens {v : Value} (hv : v.IsWhole) : KeepsApart v.tokens := by
  induction hv with
  | null | bool | string =>
    exact fun rest hrest _ => numbersApart_cons rfl hrest
  | number l => exact fun rest hrest hhead => List.isChain_cons.2 ⟨fun t ht _ => hhead t ht, hrest⟩
  | @list items _ ih =>
    intro rest hrest _
    cases items with
    | nil => exact numbersApart_cons rfl (numbersApart_cons rfl hrest)
    | cons item items =>
      obtain ⟨hitem, hitems⟩ := List.forall_mem_cons.1 ih
      obtain ⟨hbehind, hhead⟩ := numbersApart_itemTokens hitems hrest
      rw [Value.tokens, List.cons_append, List.append_assoc]
      exact numbersApart_cons rfl (hitem _ hbehind hhead)
  | @map entries _ ih =>
    intro rest hrest _
    cases entries with
    | nil => exact numbersApart_cons rfl (numbersApart_cons rfl hrest)
    | cons e entries =>
      obtain ⟨hvalue, hentries⟩ := List.forall_mem_cons.1 ih
      obtain ⟨hbehind, hhead⟩ := numbersApart_entryTokens hentries hrest
      simp only [Value.tokens, List.cons_append, List.append_assoc]
      exact numbersApart_cons rfl (numbersApart_cons rfl (numbersApart_cons rfl
        (hvalue _ hbehind hhead)))

section Marks

variable {P : Token → Prop} (hmark : ∀ t, t.isMark = true → P t)

include hmark

theorem forall_itemTokens {items : List Value} (h : ∀ v ∈ items, ∀ t ∈ v.tokens, P t) :
    ∀ t ∈ itemTokens items, P t := by
  induction items with
  | nil => simpa [itemTokens] using hmark _ rfl
  | cons item items ih =>
    obtain ⟨hitem, hitems⟩ := List.forall_mem_cons.1 h
    rw [itemTokens, List.forall_mem_cons, List.forall_mem_append]
    exact ⟨hmark _ rfl, hitem, ih hitems⟩

theorem forall_entryTokens {entries : List (StringLiteral × Value)}
    (hkeys : ∀ e ∈ entries, P (.string e.1)) (h : ∀ e ∈ entries, ∀ t ∈ e.2.tokens, P t) :
    ∀ t ∈ entryTokens entries, P t := by
  induction entries with
  | nil => simpa [entryTokens] using hmark _ rfl
  | cons e entries ih =>
    obtain ⟨hkey, hkeys⟩ := List.forall_mem_cons.1 hkeys
    obtain ⟨hvalue, hentries⟩ := List.forall_mem_cons.1 h
    simp only [entryTokens, List.forall_mem_cons, List.forall_mem_append]
    exact ⟨hmark _ rfl, hkey, hmark _ rfl, hvalue, ih hkeys hentries⟩

/-- What holds of marks and of the tokens of the items holds of the tokens of a list. -/
theorem forall_listTokens {items : List Value} {stop : ListStop}
    (h : ∀ v ∈ items, ∀ t ∈ v.tokens, P t) : ∀ t ∈ (Value.list items stop).tokens, P t := by
  cases items with
  | nil => simpa [Value.tokens] using ⟨hmark _ rfl, hmark _ rfl⟩
  | cons item items =>
    obtain ⟨hitem, hitems⟩ := List.forall_mem_cons.1 h
    rw [Value.tokens, List.forall_mem_cons, List.forall_mem_append]
    exact ⟨hmark _ rfl, hitem, forall_itemTokens hmark hitems⟩

/-- What holds of marks, of the keys and of the tokens of the values holds of the tokens of a map. -/
theorem forall_mapTokens {entries : List (StringLiteral × Value)} {stop : MapStop}
    (hkeys : ∀ e ∈ entries, P (.string e.1)) (h : ∀ e ∈ entries, ∀ t ∈ e.2.tokens, P t) :
    ∀ t ∈ (Value.map entries stop).tokens, P t := by
  cases entries with
  | nil => simpa [Value.tokens] using ⟨hmark _ rfl, hmark _ rfl⟩
  | cons e entries =>
    obtain ⟨hkey, hkeys⟩ := List.forall_mem_cons.1 hkeys
    obtain ⟨hvalue, hentries⟩ := List.forall_mem_cons.1 h
    simp only [Value.tokens, List.forall_mem_cons, List.forall_mem_append]
    exact ⟨hmark _ rfl, hkey, hmark _ rfl, hvalue, forall_entryTokens hmark hkeys hentries⟩

end Marks

theorem isSound_of_isMark (t : Token) (h : t.isMark = true) : t.isSound = true := by
  cases t <;> simp_all [Token.isMark, Token.isSound]

/-- Nothing is wrong with the tokens of a whole value. -/
theorem isSound_tokens {v : Value} (hv : v.IsWhole) : ∀ t ∈ v.tokens, t.isSound = true := by
  induction hv with
  | null | bool | number | string => simp [Value.tokens, Token.isSound]
  | list _ ih => exact forall_listTokens isSound_of_isMark ih
  | map _ ih => exact forall_mapTokens isSound_of_isMark (fun _ _ => rfl) ih

/-! ## Reading values -/

theorem parseItems_of_close {t : Token} {ts behind : List Token} (done : List Value)
    (h : (parseValue t ts).rest = .closeBracket :: behind) :
    (parseItems done t ts).value = .list ((parseValue t ts).value :: done).reverse .closed ∧
      (parseItems done t ts).rest = behind := by
  rw [parseItems]
  split <;> simp_all [Parsed.close]

theorem parseItems_of_comma {t u : Token} {ts behind : List Token} (done : List Value)
    (h : (parseValue t ts).rest = .comma :: u :: behind) (hu : u ≠ .closeBracket) :
    (parseItems done t ts).value =
        (parseItems ((parseValue t ts).value :: done) u behind).value ∧
      (parseItems done t ts).rest =
        (parseItems ((parseValue t ts).value :: done) u behind).rest := by
  rw [parseItems]
  split <;> simp_all [Parsed.next]
  obtain ⟨rfl, rfl⟩ := h
  exact ⟨rfl, rfl⟩

theorem parseEntries_of_close (key : StringLiteral) {t : Token} {ts behind : List Token}
    (done : List (StringLiteral × Value))
    (h : (parseValue t ts).rest = .closeBrace :: behind) :
    (parseEntries done (.string key) (.colon :: t :: ts)).value =
        .map ((key, (parseValue t ts).value) :: done).reverse .closed ∧
      (parseEntries done (.string key) (.colon :: t :: ts)).rest = behind := by
  rw [parseEntries]
  split <;> simp_all [Parsed.close, Parsed.skip]

theorem parseEntries_of_comma (key : StringLiteral) {t u : Token} {ts behind : List Token}
    (done : List (StringLiteral × Value))
    (h : (parseValue t ts).rest = .comma :: u :: behind) :
    (parseEntries done (.string key) (.colon :: t :: ts)).value =
        (parseEntries ((key, (parseValue t ts).value) :: done) u behind).value ∧
      (parseEntries done (.string key) (.colon :: t :: ts)).rest =
        (parseEntries ((key, (parseValue t ts).value) :: done) u behind).rest := by
  rw [parseEntries]
  split <;> simp_all [Parsed.next, Parsed.skip]
  obtain ⟨rfl, rfl⟩ := h
  exact ⟨rfl, rfl⟩

/-- From these tokens on the value is read, up to what follows it. The first of them does not
close a list. -/
def ReadsValue (v : Value) : Prop :=
  ∀ rest, ∃ t ts, v.tokens ++ rest = t :: ts ∧ t ≠ .closeBracket ∧
    (parseValue t ts).value = v ∧ (parseValue t ts).rest = rest

theorem parseItems_of_tokens {items : List Value} (h : ∀ v ∈ items, ReadsValue v)
    {t : Token} {ts rest : List Token} (done : List Value)
    (hrest : (parseValue t ts).rest = itemTokens items ++ rest) :
    (parseItems done t ts).value =
        .list (done.reverse ++ (parseValue t ts).value :: items) .closed ∧
      (parseItems done t ts).rest = rest := by
  induction items generalizing t ts done with
  | nil => simpa using parseItems_of_close done hrest
  | cons item items ih =>
    obtain ⟨hitem, hitems⟩ := List.forall_mem_cons.1 h
    obtain ⟨u, us, htokens, hu, hvalue, hbehind⟩ := hitem (itemTokens items ++ rest)
    rw [itemTokens, List.cons_append, List.append_assoc, htokens] at hrest
    obtain ⟨hv, hr⟩ := parseItems_of_comma done hrest hu
    rw [hv, hr]
    simpa [hvalue] using ih hitems ((parseValue t ts).value :: done) hbehind

theorem parseEntries_of_tokens (key : StringLiteral) {entries : List (StringLiteral × Value)}
    (h : ∀ e ∈ entries, ReadsValue e.2) {t : Token} {ts rest : List Token}
    (done : List (StringLiteral × Value))
    (hrest : (parseValue t ts).rest = entryTokens entries ++ rest) :
    (parseEntries done (.string key) (.colon :: t :: ts)).value =
        .map (done.reverse ++ (key, (parseValue t ts).value) :: entries) .closed ∧
      (parseEntries done (.string key) (.colon :: t :: ts)).rest = rest := by
  induction entries generalizing key t ts done with
  | nil => simpa using parseEntries_of_close key done hrest
  | cons e entries ih =>
    obtain ⟨hitem, hentries⟩ := List.forall_mem_cons.1 h
    obtain ⟨u, us, htokens, -, hvalue, hbehind⟩ := hitem (entryTokens entries ++ rest)
    simp only [entryTokens, List.cons_append, List.append_assoc, htokens] at hrest
    obtain ⟨hv, hr⟩ := parseEntries_of_comma key done hrest
    rw [hv, hr]
    simpa [hvalue] using ih e.1 hentries ((key, (parseValue t ts).value) :: done) hbehind

theorem readsValue {v : Value} (hv : v.IsWhole) : ReadsValue v := by
  induction hv with
  | null | bool | number | string =>
    exact fun rest => ⟨_, rest, rfl, by simp, by simp [parseValue, Parsed.here]⟩
  | @list items _ ih =>
    intro rest
    cases items with
    | nil =>
      exact ⟨.openBracket, .closeBracket :: rest, rfl, by simp,
        by simp [parseValue, Parsed.here, Parsed.skip]⟩
    | cons item items =>
      obtain ⟨hitem, hitems⟩ := List.forall_mem_cons.1 ih
      obtain ⟨t, ts, htokens, ht, hvalue, hrest⟩ := hitem (itemTokens items ++ rest)
      refine ⟨.openBracket, t :: ts, by simp [Value.tokens, htokens], by simp, ?_⟩
      rw [parseValue]
      · simpa [Parsed.skip, hvalue] using parseItems_of_tokens hitems [] hrest
      · simpa using ht
  | @map entries _ ih =>
    intro rest
    cases entries with
    | nil =>
      exact ⟨.openBrace, .closeBrace :: rest, rfl, by simp,
        by simp [parseValue, Parsed.here, Parsed.skip]⟩
    | cons e entries =>
      obtain ⟨hvalue, hentries⟩ := List.forall_mem_cons.1 ih
      obtain ⟨t, ts, htokens, ht, hvalue, hrest⟩ := hvalue (entryTokens entries ++ rest)
      refine ⟨.openBrace, .string e.1 :: .colon :: t :: ts, by simp [Value.tokens, htokens],
        by simp, ?_⟩
      rw [parseValue]
      · simpa [Parsed.skip, hvalue] using parseEntries_of_tokens e.1 hentries [] hrest
      · simp

/-- The tokens of a text that spells a value are those of the value. -/
theorem tokens_of_spells {v : Value} {text : String} (h : Spells v text) :
    tokens text.toList = v.tokens := by
  have hapart : NumbersApart v.tokens := by
    simpa using keepsApart_tokens h.1 [] .nil (by simp)
  exact tokensAfter_of_spelled h.2 hapart []

/-- **Reading finds the value that a text spells.** -/
theorem parse_of_spells {v : Value} {text : String} (h : Spells v text) : parse text = ⟨v, []⟩ := by
  obtain ⟨t, ts, hcons, -, hvalue, hrest⟩ := readsValue h.1 []
  rw [List.append_nil] at hcons
  rw [parse, tokens_of_spells h, hcons]
  dsimp only
  rw [hvalue, hrest]

/-- A text spells one value at most. -/
theorem spells_unique {v w : Value} {text : String} (hv : Spells v text) (hw : Spells w text) :
    v = w :=
  (Document.mk.inj ((parse_of_spells hv).symm.trans (parse_of_spells hw))).1

/-! ## What is read is written -/

/-- In a list without a fault an item is followed by the end of the list or by another item. -/
theorem parseItems_cases {done : List Value} {t : Token} {ts : List Token}
    (h : (parseItems done t ts).value.IsWhole) :
    (∃ behind, (parseValue t ts).rest = .closeBracket :: behind) ∨
      ∃ u behind, (parseValue t ts).rest = .comma :: u :: behind ∧ u ≠ .closeBracket := by
  rw [parseItems] at h
  split at h
  · cases h
  · exact .inl ⟨_, ‹_›⟩
  · cases h
  · cases h
  · rename_i u behind hu hrest
    exact .inr ⟨u, behind, hrest, fun hclose => hu (hclose ▸ rfl)⟩
  · cases h

/-- In a map without a fault an entry is followed by the end of the map or by another entry. -/
theorem parseEntries_cases {done : List (StringLiteral × Value)} {t : Token} {ts : List Token}
    (h : (parseEntries done t ts).value.IsWhole) :
    ∃ key u us, t = .string key ∧ ts = .colon :: u :: us ∧
      ((∃ behind, (parseValue u us).rest = .closeBrace :: behind) ∨
        ∃ w behind, (parseValue u us).rest = .comma :: w :: behind) := by
  rw [parseEntries.eq_def] at h
  split at h
  · split at h
    · cases h
    · cases h
    · rename_i key _ u us
      refine ⟨key, u, us, rfl, rfl, ?_⟩
      dsimp only at h
      split at h
      · cases h
      · exact .inl ⟨_, ‹_›⟩
      · cases h
      · exact .inr ⟨_, _, ‹_›⟩
      · cases h
    · cases h
  · cases h

mutual

/-- A value that is read without a fault takes its tokens. -/
theorem tokens_of_parseValue (t : Token) (ts : List Token) (h : (parseValue t ts).value.IsWhole) :
    t :: ts = (parseValue t ts).value.tokens ++ (parseValue t ts).rest := by
  revert h
  unfold parseValue
  split
  · exact fun _ => rfl
  · exact fun _ => rfl
  · exact fun _ => rfl
  · exact fun _ => rfl
  · split
    · rintro ⟨⟩
    · exact fun _ => rfl
    · rename_i t ts _
      intro h
      obtain ⟨item, items, hvalue, htokens⟩ := exists_tokens_of_parseItems [] t ts h
      simp [Parsed.skip, hvalue, htokens, Value.tokens]
  · split
    · rintro ⟨⟩
    · exact fun _ => rfl
    · rename_i t ts _
      intro h
      obtain ⟨key, value, entries, hvalue, htokens⟩ := exists_tokens_of_parseEntries [] t ts h
      simp [Parsed.skip, hvalue, htokens, Value.tokens]
  · rintro ⟨⟩
termination_by 2 * ts.length

/-- The rest of a list that is read without a fault takes the tokens of its items. -/
theorem exists_tokens_of_parseItems (done : List Value) (t : Token) (ts : List Token)
    (h : (parseItems done t ts).value.IsWhole) :
    ∃ item items,
      (parseItems done t ts).value = .list (done.reverse ++ item :: items) .closed ∧
      t :: ts = item.tokens ++ (itemTokens items ++ (parseItems done t ts).rest) := by
  rcases parseItems_cases h with ⟨behind, hrest⟩ | ⟨u, behind, hrest, hu⟩
  · obtain ⟨hvalue, hbehind⟩ := parseItems_of_close done hrest
    rw [hvalue] at h
    cases h with
    | list whole =>
      have htokens := tokens_of_parseValue t ts (whole _ (by simp))
      refine ⟨(parseValue t ts).value, [], by simp [hvalue], ?_⟩
      rw [hbehind, htokens, hrest]
      rfl
  · have hshorter := (parseValue t ts).shorter_of_cons₂ hrest
    obtain ⟨hvalue, hbehind⟩ := parseItems_of_comma done hrest hu
    rw [hvalue] at h
    obtain ⟨item, items, hlist, hmore⟩ := exists_tokens_of_parseItems _ u behind h
    rw [hlist] at h
    cases h with
    | list whole =>
      have htokens := tokens_of_parseValue t ts (whole _ (by simp))
      refine ⟨(parseValue t ts).value, item :: items, by simp [hvalue, hlist], ?_⟩
      rw [hbehind, htokens, hrest, hmore]
      simp [itemTokens]
termination_by 2 * ts.length + 1

/-- The rest of a map that is read without a fault takes the tokens of its entries. -/
theorem exists_tokens_of_parseEntries (done : List (StringLiteral × Value)) (t : Token)
    (ts : List Token) (h : (parseEntries done t ts).value.IsWhole) :
    ∃ key value entries,
      (parseEntries done t ts).value = .map (done.reverse ++ (key, value) :: entries) .closed ∧
      t :: ts = .string key :: .colon ::
        (value.tokens ++ (entryTokens entries ++ (parseEntries done t ts).rest)) := by
  obtain ⟨key, u, us, rfl, rfl, ⟨behind, hrest⟩ | ⟨w, behind, hrest⟩⟩ := parseEntries_cases h
  · obtain ⟨hvalue, hbehind⟩ := parseEntries_of_close key done hrest
    rw [hvalue] at h
    cases h with
    | map whole =>
      have htokens := tokens_of_parseValue u us (whole (key, (parseValue u us).value) (by simp))
      refine ⟨key, (parseValue u us).value, [], by simp [hvalue], ?_⟩
      rw [hbehind, htokens, hrest]
      rfl
  · have hshorter := (parseValue u us).shorter_of_cons₂ hrest
    obtain ⟨hvalue, hbehind⟩ := parseEntries_of_comma key done hrest
    rw [hvalue] at h
    obtain ⟨next, value, entries, hmap, hmore⟩ := exists_tokens_of_parseEntries _ w behind h
    rw [hmap] at h
    cases h with
    | map whole =>
      have htokens := tokens_of_parseValue u us (whole (key, (parseValue u us).value) (by simp))
      refine ⟨key, (parseValue u us).value, (next, value) :: entries, by simp [hvalue, hmap], ?_⟩
      rw [hbehind, htokens, hrest, hmore]
      simp [entryTokens]
termination_by 2 * ts.length + 1
decreasing_by
  all_goals
    simp only [*, List.length_cons]
    omega

end

/-- A text spells a whole value if it has the tokens of the value. -/
theorem spells_iff {v : Value} (hv : v.IsWhole) {text : String} :
    Spells v text ↔ tokens text.toList = v.tokens := by
  constructor
  · exact fun h => tokens_of_spells h
  · intro h
    obtain ⟨ts, htokens, hspelled⟩ := exists_tokensAfter_eq [] text.toList
    obtain rfl : v.tokens = ts := h.symm.trans htokens
    exact ⟨hv, hspelled (isSound_tokens hv)⟩

theorem spells_of_ofList {v : Value} (hv : v.IsWhole) {text : String} {cs : List Char}
    (htext : text = String.ofList cs) (h : tokens cs = v.tokens) : Spells v text := by
  rw [spells_iff hv, htext, String.toList_ofList, h]

/-- **What is read without a fault is spelled by the text.** -/
theorem spells_parse {text : String} (hwhole : (parse text).value.IsWhole)
    (hrest : (parse text).rest = []) : Spells (parse text).value text := by
  refine (spells_iff hwhole).2 ?_
  unfold parse at hwhole hrest ⊢
  cases htokens : tokens text.toList with
  | nil =>
    rw [htokens] at hwhole
    cases hwhole
  | cons t ts =>
    rw [htokens] at hwhole hrest
    have hnone : (parseValue t ts).rest = [] := hrest
    have hvalue := tokens_of_parseValue t ts hwhole
    rw [hnone, List.append_nil] at hvalue
    exact hvalue

end SwiftDecls.Json
