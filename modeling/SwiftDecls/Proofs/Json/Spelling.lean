import SwiftDecls.Json.Token
import SwiftDecls.Proofs.Text.Pieces

/-!
# How tokens are written

The written forms of JSON tokens, given without a reader: a token has one spelling or several,
so a number may have its exponent behind either letter and a string may write a character as it
is or as an escape. A string is written in parts, and what the parts stand for is said apart from
how they are written (`partsText`), since the two halves of a surrogate pair are two parts for
one character.

Reading takes every spelling for its token, whatever follows (`readToken_of_spelled`), save that
a number has to end before something that could go on with it. And reading takes nothing else
for a token (`exists_spelled_of_readToken`).
-/

set_option autoImplicit false

namespace SwiftDecls.Json

open Number Text

/-! ## Spellings -/

/-- One digit or more. -/
def IsDigits (cs : List Char) : Prop := cs ≠ [] ∧ ∀ c ∈ cs, c.isDigit = true

/-- How a fraction is written. -/
def FractionSpelled (cs : List Char) : Option (List Char) → Prop
  | none => cs = []
  | some digits => IsDigits digits ∧ cs = '.' :: digits

/-- How the sign of an exponent is written. -/
def SignSpelled (cs : List Char) : Bool → Prop
  | true => cs = ['-']
  | false => cs = [] ∨ cs = ['+']

/-- How an exponent is written. -/
def ExponentSpelled (cs : List Char) : Option Exponent → Prop
  | none => cs = []
  | some e => IsDigits e.digits ∧ ∃ mark sign, (mark = 'e' ∨ mark = 'E') ∧
      SignSpelled sign e.negative ∧ cs = mark :: (sign ++ e.digits)

/-- How a number is written: a zero stands in front of no other digit. -/
def NumberSpelled (cs : List Char) (l : Literal) : Prop :=
  IsDigits l.whole ∧ (l.whole.head? = some '0' → l.whole = ['0']) ∧
    ∃ fraction exponent, FractionSpelled fraction l.fraction ∧
      ExponentSpelled exponent l.exponent ∧
      cs = (if l.negative then ['-'] else []) ++ (l.whole ++ (fraction ++ exponent))

/-- A part of a string: a character, or a unit given by its number. -/
inductive StringPart where
  | char (c : Char)
  | unit (n : Nat)

/-- How the parts of a string are written. -/
inductive PartsSpelled : List Char → List StringPart → Prop
  | nil : PartsSpelled [] []
  | plain {c : Char} {cs : List Char} {parts : List StringPart} (noQuote : c ≠ '"')
      (noEscape : c ≠ '\\') (noControl : 32 ≤ c.toNat) (rest : PartsSpelled cs parts) :
      PartsSpelled (c :: cs) (.char c :: parts)
  | short {letter c : Char} {cs : List Char} {parts : List StringPart}
      (known : (letter, c) ∈ shortEscapes) (rest : PartsSpelled cs parts) :
      PartsSpelled ('\\' :: letter :: cs) (.char c :: parts)
  | unit {a b c d : Char} {n : Nat} {cs : List Char} {parts : List StringPart}
      (digits : digitsIn? 16 [a, b, c, d] = some n) (rest : PartsSpelled cs parts) :
      PartsSpelled ('\\' :: 'u' :: a :: b :: c :: d :: cs) (.unit n :: parts)

/-- The text that the parts of a string stand for. Two halves of a surrogate pair stand for one
character, and a half without the other for none. -/
def partsText : List StringPart → Option (List Char)
  | [] => some []
  | .char c :: parts => (partsText parts).map (c :: ·)
  | .unit n :: parts =>
    if isHighSurrogate n then
      match parts with
      | .unit low :: parts =>
        if isLowSurrogate low then (partsText parts).map (pairChar n low :: ·) else none
      | _ => none
    else if isLowSurrogate n then none
    else (partsText parts).map (Char.ofNat n :: ·)

theorem partsText_pair {high low : Nat} (hhigh : isHighSurrogate high = true)
    (hlow : isLowSurrogate low = true) (parts : List StringPart) :
    partsText (.unit high :: .unit low :: parts) =
      (partsText parts).map (pairChar high low :: ·) := by
  simp [partsText, hhigh, hlow]

/-- The first half of a pair without the second half. -/
theorem partsText_high {n : Nat} (hhigh : isHighSurrogate n = true) {parts : List StringPart}
    (hlow : ∀ low behind, parts = .unit low :: behind → isLowSurrogate low = false) :
    partsText (.unit n :: parts) = none := by
  cases parts with
  | nil => simp [partsText, hhigh]
  | cons part parts =>
    cases part with
    | char c => simp [partsText, hhigh]
    | unit low => simp [partsText, hhigh, hlow low parts rfl]

/-- A unit that is not the first half of a pair. -/
theorem partsText_unit {n : Nat} (hhigh : isHighSurrogate n = false) (parts : List StringPart) :
    partsText (.unit n :: parts) =
      if isLowSurrogate n then none else (partsText parts).map (Char.ofNat n :: ·) := by
  cases parts with
  | nil => simp [partsText, hhigh]
  | cons part parts => cases part <;> simp [partsText, hhigh]

/-- How a string is written. -/
def StringSpelled (cs : List Char) (l : StringLiteral) : Prop :=
  ∃ body parts, PartsSpelled body parts ∧ l.text? = (partsText parts).map String.ofList ∧
    cs = '"' :: (body ++ ['"'])

/-- How a token is written. -/
def Token.Spelled (cs : List Char) : Token → Prop
  | openBrace => cs = ['\x7b']
  | closeBrace => cs = ['\x7d']
  | openBracket => cs = ['[']
  | closeBracket => cs = [']']
  | colon => cs = [':']
  | comma => cs = [',']
  | null => cs = "null".toList
  | bool value => cs = (if value then "true" else "false").toList
  | number literal => NumberSpelled cs literal
  | string literal => StringSpelled cs literal
  | stray | brokenScalar _ _ | brokenString _ _ => False

/-- A number. -/
def Token.isNumber : Token → Bool
  | number _ => true
  | _ => false

/-- What follows does not go on with a number. -/
def EndsNumber (cs : List Char) : Prop :=
  ∀ c ∈ cs.head?, c.isDigit = false ∧ c ≠ '.' ∧ c ≠ 'e' ∧ c ≠ 'E'

/-! ## Reading numbers -/

theorem EndsNumber.isDigit {rest : List Char} (h : EndsNumber rest) :
    ∀ c ∈ rest.head?, c.isDigit = false := fun c hc => (h c hc).1

theorem readExponent_of_spelled {cs rest : List Char} (l : Literal) (he : l.exponent = none)
    {e : Option Exponent} (h : ExponentSpelled cs e) (hrest : EndsNumber rest) :
    readExponent l (cs ++ rest) = (.number { l with exponent := e }, rest) := by
  cases e with
  | none =>
    obtain rfl : cs = [] := h
    have hl : ({ l with exponent := none } : Literal) = l := by rw [← he]
    rw [hl, List.nil_append]
    cases rest with
    | nil => rfl
    | cons c rest =>
      obtain ⟨-, -, hlower, hupper⟩ := hrest c rfl
      simp [readExponent, hlower, hupper]
  | some e =>
    obtain ⟨⟨hne, hdigits⟩, mark, sign, hmark, hsign, rfl⟩ := h
    obtain ⟨negative, digits⟩ := e
    obtain ⟨d, ds, rfl⟩ := List.exists_cons_of_ne_nil hne
    have htake := takeWhile_append_of_head? hdigits hrest.isDigit
    have hdrop := dropWhile_append_of_head? hdigits hrest.isDigit
    have hd : d.isDigit = true := hdigits d List.mem_cons_self
    rw [List.cons_append, List.append_assoc]
    cases negative with
    | true =>
      obtain rfl : sign = ['-'] := hsign
      rw [List.cons_append, List.nil_append, readExponent.eq_2, if_pos hmark, htake, hdrop]
    | false =>
      rcases hsign with rfl | rfl
      · rw [List.nil_append, readExponent.eq_3, if_pos hmark, htake, hdrop]
        · rintro _ h
          obtain rfl : d = '+' := (List.cons.inj h).1
          exact absurd hd (by decide)
        · rintro _ h
          obtain rfl : d = '-' := (List.cons.inj h).1
          exact absurd hd (by decide)
      · rw [List.cons_append, List.nil_append, readExponent.eq_1, if_pos hmark, htake, hdrop]

theorem EndsNumber.of_exponent {cs rest : List Char} {e : Option Exponent}
    (h : ExponentSpelled cs e) (hrest : EndsNumber rest) :
    ∀ c ∈ (cs ++ rest).head?, c.isDigit = false ∧ c ≠ '.' := by
  cases e with
  | none =>
    obtain rfl : cs = [] := h
    exact fun c hc => ⟨(hrest c hc).1, (hrest c hc).2.1⟩
  | some e =>
    obtain ⟨-, mark, sign, hmark, -, rfl⟩ := h
    intro c hc
    obtain rfl : mark = c := Option.some.inj hc
    rcases hmark with rfl | rfl <;> decide

theorem readFraction_of_spelled {cs exponent rest : List Char} (l : Literal)
    (hf : l.fraction = none) (he : l.exponent = none) {f : Option (List Char)}
    {e : Option Exponent} (h : FractionSpelled cs f) (hexponent : ExponentSpelled exponent e)
    (hrest : EndsNumber rest) :
    readFraction l (cs ++ (exponent ++ rest)) =
      (.number { l with fraction := f, exponent := e }, rest) := by
  have hbehind := EndsNumber.of_exponent hexponent hrest
  cases f with
  | none =>
    obtain rfl : cs = [] := h
    have hl : ({ l with fraction := none, exponent := e } : Literal) = { l with exponent := e } := by
      rw [← hf]
    rw [List.nil_append, hl, readFraction.eq_2]
    · exact readExponent_of_spelled l he hexponent hrest
    · rintro digits hdot
      exact (hbehind '.' (by rw [hdot]; rfl)).2 rfl
  | some digits =>
    obtain ⟨⟨hne, hdigits⟩, rfl⟩ := h
    have hnodigit : ∀ c ∈ (exponent ++ rest).head?, c.isDigit = false := fun c hc => (hbehind c hc).1
    have htake := takeWhile_append_of_head? hdigits hnodigit
    have hdrop := dropWhile_append_of_head? hdigits hnodigit
    obtain ⟨d, ds, rfl⟩ := List.exists_cons_of_ne_nil hne
    rw [List.cons_append, readFraction.eq_1, htake, hdrop]
    exact readExponent_of_spelled { l with fraction := some (d :: ds) } he hexponent hrest

/-- Digits that are no zero in front of other digits. -/
theorem readNumber_eq_of_digits {negative : Bool} {cs whole : List Char}
    (hwhole : cs.takeWhile Char.isDigit = whole) (hne : whole ≠ [])
    (hzero : whole.head? = some '0' → whole = ['0']) :
    readNumber negative cs =
      readFraction ⟨negative, whole, none, none⟩ (cs.dropWhile Char.isDigit) := by
  rw [readNumber, hwhole]
  split
  · exact absurd rfl hne
  · cases hzero rfl
  · rfl

theorem readNumber_of_spelled {fraction exponent rest : List Char} {l : Literal}
    (hwhole : IsDigits l.whole) (hzero : l.whole.head? = some '0' → l.whole = ['0'])
    (hfraction : FractionSpelled fraction l.fraction)
    (hexponent : ExponentSpelled exponent l.exponent) (hrest : EndsNumber rest) :
    readNumber l.negative (l.whole ++ (fraction ++ (exponent ++ rest))) = (.number l, rest) := by
  obtain ⟨hne, hdigits⟩ := hwhole
  have hbehind := EndsNumber.of_exponent hexponent hrest
  have hnodigit : ∀ c ∈ (fraction ++ (exponent ++ rest)).head?, c.isDigit = false := by
    cases hf : l.fraction with
    | none =>
      obtain rfl : fraction = [] := by rwa [hf] at hfraction
      exact fun c hc => (hbehind c hc).1
    | some digits =>
      obtain ⟨-, rfl⟩ : IsDigits digits ∧ fraction = '.' :: digits := by rwa [hf] at hfraction
      intro c hc
      obtain rfl : '.' = c := Option.some.inj hc
      decide
  rw [readNumber_eq_of_digits (takeWhile_append_of_head? hdigits hnodigit) hne hzero,
    dropWhile_append_of_head? hdigits hnodigit]
  exact readFraction_of_spelled ⟨l.negative, l.whole, none, none⟩ rfl rfl hfraction hexponent hrest

/-! ## Reading strings -/

theorem readHex_of_digits {a b c d : Char} {n : Nat} (h : digitsIn? 16 [a, b, c, d] = some n)
    (rest : List Char) :
    readHex (a :: b :: c :: d :: rest) = .ok (Shorter.one n d rest).skip.skip.skip := by
  rw [readHex, h]

theorem lookup_shortEscapes {letter c : Char} (h : (letter, c) ∈ shortEscapes) :
    letter ≠ 'u' ∧ shortEscapes.lookup letter = some c := by
  have hall : ∀ e ∈ shortEscapes, e.1 ≠ 'u' ∧ shortEscapes.lookup e.1 = some e.2 := by decide
  exact hall (letter, c) h

theorem mem_of_lookup_shortEscapes {letter c : Char} (h : shortEscapes.lookup letter = some c) :
    (letter, c) ∈ shortEscapes := by
  obtain ⟨before, after, hescapes, -⟩ := List.lookup_eq_some_iff.1 h
  rw [hescapes]
  exact List.mem_append_right _ List.mem_cons_self

theorem readEscape_of_short {letter c : Char} (h : (letter, c) ∈ shortEscapes) (rest : List Char) :
    ∃ s, readEscape (letter :: rest) = .ok s ∧ s.result = some c ∧ s.rest = rest := by
  obtain ⟨hne, hlookup⟩ := lookup_shortEscapes h
  rw [readEscape.eq_3 _ _ hne, hlookup]
  exact ⟨_, rfl, rfl, rfl⟩

/-- Behind the first half of a pair the second half is taken. -/
theorem readLow_of_low {a b c d : Char} {low : Nat} (h : digitsIn? 16 [a, b, c, d] = some low)
    (hlow : isLowSurrogate low = true) (high : Nat) (rest : List Char) :
    ∃ s, readLow high ('\\' :: 'u' :: a :: b :: c :: d :: rest) = .ok (some s) ∧
      s.result = pairChar high low ∧ s.rest = rest := by
  rw [readLow.eq_3, readHex_of_digits h]
  simp only [bind, Except.bind, Shorter.result_skip, Shorter.result_one, hlow, if_true]
  exact ⟨_, rfl, by simp, by simp⟩

/-- Behind the first half of a pair nothing else is taken. -/
theorem readLow_of_parts {body : List Char} {parts : List StringPart} (h : PartsSpelled body parts)
    (hlow : ∀ n rest, parts = .unit n :: rest → isLowSurrogate n = false) (high : Nat)
    (rest : List Char) : readLow high (body ++ '"' :: rest) = .ok none := by
  cases h with
  | nil => rfl
  | plain _ noEscape =>
    rw [List.cons_append, readLow.eq_4]
    · simp
    · simp [noEscape]
    · simp [noEscape]
  | short known =>
    obtain ⟨hne, -⟩ := lookup_shortEscapes known
    rw [List.cons_append, List.cons_append, readLow.eq_4]
    · simp
    · simp
    · simp [hne]
  | unit digits =>
    simp only [List.cons_append]
    rw [readLow.eq_3, readHex_of_digits digits]
    simp only [bind, Except.bind, Shorter.result_skip, Shorter.result_one, hlow _ _ rfl]
    rfl

/-- A unit that stands for a character by itself, or for none. -/
theorem readEscape_of_unit {a b c d : Char} {n : Nat} (h : digitsIn? 16 [a, b, c, d] = some n)
    (hhigh : isHighSurrogate n = false) (rest : List Char) :
    ∃ s, readEscape ('u' :: a :: b :: c :: d :: rest) = .ok s ∧
      s.result = (if isLowSurrogate n then none else some (Char.ofNat n)) ∧ s.rest = rest := by
  rw [readEscape.eq_2, readHex_of_digits h]
  by_cases hlow : isLowSurrogate n = true <;>
  · simp only [bind, Except.bind, Shorter.result_skip, Shorter.result_one, hhigh, hlow,
      Bool.false_eq_true, if_false, if_true]
    exact ⟨_, rfl, rfl, rfl⟩

/-- The first half of a pair, with the second half or without. -/
theorem readEscape_of_high {a b c d : Char} {n : Nat} (h : digitsIn? 16 [a, b, c, d] = some n)
    (hhigh : isHighSurrogate n = true) {rest : List Char} {low? : Option (Shorter Char rest)}
    (hlow : readLow n rest = .ok low?) :
    ∃ s, readEscape ('u' :: a :: b :: c :: d :: rest) = .ok s ∧
      s.result = low?.map (·.result) ∧ s.rest = (low?.map (·.rest)).getD rest := by
  rw [readEscape.eq_2, readHex_of_digits h]
  simp only [bind, Except.bind, Shorter.result_skip, Shorter.result_one, Shorter.rest_skip,
    Shorter.rest_one, hhigh, if_true, hlow]
  cases low? <;> exact ⟨_, rfl, rfl, rfl⟩

/-- What a reader of a string has at its end: the characters in `text`, last one first, and those
of the parts after them, if there have been no half pairs. -/
def readText (text : List Char) (sound : Bool) (parts : List StringPart) : Option String :=
  if sound then (partsText parts).map fun cs => String.ofList (text.reverse ++ cs) else none

theorem readText_char (text : List Char) (sound : Bool) (c : Char) (parts : List StringPart) :
    readText text sound (.char c :: parts) = readText (c :: text) sound parts := by
  simp [readText, partsText, Function.comp_def]

/-- **A spelled string is read for what its parts stand for.** -/
theorem readString_of_parts {body : List Char} {parts : List StringPart}
    (h : PartsSpelled body parts) (text : List Char) (sound : Bool) (rest : List Char) :
    readString text sound (body ++ '"' :: rest) =
      (.string ⟨readText text sound parts⟩, rest) := by
  -- On the length, because the two halves of a pair are read in one step.
  induction hn : parts.length using Nat.strongRecOn generalizing body parts text sound with
  | ind length ih =>
  subst hn
  cases h with
  | nil =>
    rw [List.nil_append, readString.eq_2]
    simp [readText, partsText]
  | plain noQuote noEscape noControl h =>
    rw [List.cons_append, readString.eq_4 _ _ _ _ noQuote noEscape,
      if_neg (Nat.not_lt.2 noControl), ih _ (Nat.lt_succ_self _) h _ _ rfl, readText_char]
  | short known h =>
    obtain ⟨e, he, hresult, hrest⟩ := readEscape_of_short known (_ ++ '"' :: rest)
    rw [List.cons_append, List.cons_append, readString.eq_3, he]
    simp only [hresult, hrest]
    rw [ih _ (Nat.lt_succ_self _) h _ _ rfl, readText_char]
  | @unit a b c d n cs parts digits h =>
    simp only [List.cons_append]
    rw [readString.eq_3]
    by_cases hhigh : isHighSurrogate n = true
    · by_cases hpair : ∃ low behind, parts = .unit low :: behind ∧ isLowSurrogate low = true
      · obtain ⟨low, behind, rfl, hlow⟩ := hpair
        cases h with
        | unit lowDigits h =>
          simp only [List.cons_append]
          obtain ⟨s, hs, hlowResult, hlowRest⟩ :=
            readLow_of_low lowDigits hlow n (_ ++ '"' :: rest)
          obtain ⟨e, he, hresult, hrest⟩ := readEscape_of_high digits hhigh hs
          rw [he]
          simp only [hresult, hrest, Option.map_some, hlowResult, Option.getD_some, hlowRest]
          rw [ih behind.length (by simp only [List.length_cons]; omega) h _ _ rfl]
          simp [readText, partsText_pair hhigh hlow, Function.comp_def]
      · have hlow : ∀ low behind, parts = .unit low :: behind → isLowSurrogate low = false :=
          fun low behind hparts => Bool.eq_false_iff.2 fun h => hpair ⟨low, behind, hparts, h⟩
        obtain ⟨e, he, hresult, hrest⟩ :=
          readEscape_of_high digits hhigh (readLow_of_parts h hlow n rest)
        rw [he]
        simp only [hresult, hrest, Option.map_none, Option.getD_none]
        rw [ih _ (Nat.lt_succ_self _) h _ _ rfl]
        simp [readText, partsText_high hhigh hlow]
    · have hhigh : isHighSurrogate n = false := Bool.eq_false_iff.2 hhigh
      obtain ⟨e, he, hresult, hrest⟩ := readEscape_of_unit digits hhigh (cs ++ '"' :: rest)
      rw [he]
      simp only [hresult, hrest]
      by_cases hlow : isLowSurrogate n = true
      · simp only [hlow, if_true]
        rw [ih _ (Nat.lt_succ_self _) h _ _ rfl]
        simp [readText, partsText_unit hhigh, hlow]
      · rw [if_neg hlow]
        dsimp only
        rw [ih _ (Nat.lt_succ_self _) h _ _ rfl]
        simp [readText, partsText_unit hhigh, hlow, Function.comp_def]

/-! ## What is read is spelled -/

/-- A token in which nothing is wrong. -/
def Token.isSound : Token → Bool
  | stray | brokenScalar _ _ | brokenString _ _ => false
  | _ => true

theorem isDigits_takeWhile {cs : List Char} (h : cs.takeWhile Char.isDigit ≠ []) :
    IsDigits (cs.takeWhile Char.isDigit) :=
  ⟨h, fun _ => List.mem_takeWhile_imp⟩

/-- The digits behind a mark, if reading finds any. -/
theorem spelled_of_digits (make : List Char → Token) {cs rest : List Char} {t : Token}
    (h : (match cs.takeWhile Char.isDigit with
      | [] => missingDigit cs
      | shown => (make shown, cs.dropWhile Char.isDigit)) = (t, rest)) (ht : t.isSound = true) :
    ∃ digits, IsDigits digits ∧ t = make digits ∧ cs = digits ++ rest := by
  split at h
  · obtain ⟨rfl, rfl⟩ := Prod.mk.inj h
    cases ht
  · rename_i hne
    obtain ⟨rfl, rfl⟩ := Prod.mk.inj h
    exact ⟨_, isDigits_takeWhile hne, rfl, List.takeWhile_append_dropWhile.symm⟩

/-- The exponent behind its mark and sign. -/
theorem spelled_of_signed {l : Literal} {mark : Char} {sign cs rest : List Char} {negative : Bool}
    {t : Token} (hmark : mark = 'e' ∨ mark = 'E') (hsign : SignSpelled sign negative)
    (h : (match cs.takeWhile Char.isDigit with
      | [] => missingDigit cs
      | shown => (.number { l with exponent := some ⟨negative, shown⟩ },
          cs.dropWhile Char.isDigit)) = (t, rest)) (ht : t.isSound = true) :
    ∃ word e, t = .number { l with exponent := e } ∧ ExponentSpelled word e ∧
      mark :: (sign ++ cs) = word ++ rest := by
  obtain ⟨digits, hdigits, rfl, rfl⟩ :=
    spelled_of_digits (fun shown => .number { l with exponent := some ⟨negative, shown⟩ }) h ht
  refine ⟨mark :: (sign ++ digits), some ⟨negative, digits⟩, rfl, ?_, ?_⟩
  · exact ⟨hdigits, mark, sign, hmark, hsign, rfl⟩
  · rw [List.cons_append, List.append_assoc]

theorem spelled_of_readExponent {cs rest : List Char} {l : Literal} {t : Token}
    (h : readExponent l cs = (t, rest)) (he : l.exponent = none) (ht : t.isSound = true) :
    ∃ word e, t = .number { l with exponent := e } ∧ ExponentSpelled word e ∧
      cs = word ++ rest := by
  have hnone : (Token.number l, cs) = (t, rest) →
      ∃ word e, t = .number { l with exponent := e } ∧ ExponentSpelled word e ∧
        cs = word ++ rest := by
    rintro ⟨⟩
    exact ⟨[], none, by rw [← he], rfl, rfl⟩
  unfold readExponent at h
  split at h
  · split at h
    · rename_i hmark
      split at h
      rename_i hsplit
      split at hsplit <;> obtain ⟨rfl, rfl⟩ := Prod.mk.inj hsplit
      · have hsign : SignSpelled ['+'] false := Or.inr rfl
        exact spelled_of_signed hmark hsign h ht
      · have hsign : SignSpelled ['-'] true := rfl
        exact spelled_of_signed hmark hsign h ht
      · have hsign : SignSpelled [] false := Or.inl rfl
        exact spelled_of_signed hmark hsign h ht
    · exact hnone h
  · exact hnone h

theorem spelled_of_readFraction {cs rest : List Char} {l : Literal} {t : Token}
    (h : readFraction l cs = (t, rest)) (hf : l.fraction = none) (he : l.exponent = none)
    (ht : t.isSound = true) :
    ∃ fraction exponent f e, t = .number { l with fraction := f, exponent := e } ∧
      FractionSpelled fraction f ∧ ExponentSpelled exponent e ∧
      cs = fraction ++ (exponent ++ rest) := by
  unfold readFraction at h
  split at h
  · rename_i digits
    split at h
    · obtain ⟨rfl, rfl⟩ := Prod.mk.inj h
      cases ht
    · rename_i hne
      obtain ⟨exponent, e, rfl, hexponent, hbehind⟩ := spelled_of_readExponent h he ht
      refine ⟨_, exponent, _, e, rfl, ⟨isDigits_takeWhile hne, rfl⟩, hexponent, ?_⟩
      rw [← hbehind, List.cons_append, List.takeWhile_append_dropWhile]
  · obtain ⟨exponent, e, rfl, hexponent, rfl⟩ := spelled_of_readExponent h he ht
    exact ⟨[], exponent, none, e, by rw [← hf], rfl, hexponent, rfl⟩

/-- What is read for a number behind its sign. -/
theorem spelled_of_readNumber {cs rest : List Char} {negative : Bool} {t : Token}
    (h : readNumber negative cs = (t, rest)) (ht : t.isSound = true) :
    ∃ word, t.Spelled ((if negative then ['-'] else []) ++ word) ∧ cs = word ++ rest := by
  unfold readNumber at h
  split at h
  · obtain ⟨rfl, rfl⟩ := Prod.mk.inj h
    cases ht
  · obtain ⟨rfl, rfl⟩ := Prod.mk.inj h
    cases ht
  · rename_i hne hzero
    obtain ⟨fraction, exponent, f, e, rfl, hfraction, hexponent, hbehind⟩ :=
      spelled_of_readFraction h rfl rfl ht
    refine ⟨cs.takeWhile Char.isDigit ++ (fraction ++ exponent), ?_, ?_⟩
    · refine ⟨isDigits_takeWhile hne, fun hhead => ?_, fraction, exponent, hfraction, hexponent, rfl⟩
      dsimp only at hhead ⊢
      cases htake : cs.takeWhile Char.isDigit with
      | nil => exact absurd htake hne
      | cons c digits =>
        rw [htake] at hhead
        obtain rfl : c = '0' := Option.some.inj hhead
        cases digits with
        | nil => rfl
        | cons d digits => exact absurd htake (hzero d digits)
    · rw [List.append_assoc, List.append_assoc, ← hbehind, List.takeWhile_append_dropWhile]

theorem digits_of_readHex {cs : List Char} {s : Shorter Nat cs} (h : readHex cs = .ok s) :
    ∃ a b c d, cs = a :: b :: c :: d :: s.rest ∧ digitsIn? 16 [a, b, c, d] = some s.result := by
  unfold readHex at h
  split at h
  · split at h
    · rename_i n hn
      cases h
      exact ⟨_, _, _, _, rfl, hn⟩
    · cases h
  · split at h <;> cases h

/-- The second half of a pair. -/
theorem digits_of_readLow {high : Nat} {cs : List Char} {s : Shorter Char cs}
    (h : readLow high cs = .ok (some s)) :
    ∃ a b c d n, cs = '\\' :: 'u' :: a :: b :: c :: d :: s.rest ∧
      digitsIn? 16 [a, b, c, d] = some n := by
  unfold readLow at h
  split at h
  · cases h
  · cases h
  · rename_i digits
    cases hlow : readHex digits with
    | error f =>
      rw [hlow] at h
      cases h
    | ok low =>
      obtain ⟨a, b, c, d, hdigits, hn⟩ := digits_of_readHex hlow
      rw [hlow] at h
      simp only [bind, Except.bind] at h
      split at h
      · have hs : (low.map (pairChar high)).skip.skip = s := Option.some.inj (Except.ok.inj h)
        refine ⟨a, b, c, d, _, ?_, hn⟩
        rw [← hs, Shorter.rest_skip, Shorter.rest_skip, Shorter.rest_map]
        exact congrArg ('\\' :: 'u' :: ·) hdigits
      · cases h
  · cases h

/-- An escape is one part of a string, or two for a surrogate pair. -/
theorem parts_of_readEscape {cs : List Char} {e : Shorter (Option Char) cs}
    (h : readEscape cs = .ok e) {body : List Char} {parts : List StringPart}
    (hbody : PartsSpelled body parts) {rest : List Char} (hrest : e.rest = body ++ rest) :
    ∃ word parts, PartsSpelled ('\\' :: word) parts ∧ cs = word ++ rest := by
  unfold readEscape at h
  split at h
  · cases h
  · rename_i digits
    cases hn : readHex digits with
    | error f =>
      rw [hn] at h
      cases h
    | ok n =>
      obtain ⟨a, b, c, d, hdigits, hvalue⟩ := digits_of_readHex hn
      rw [hn] at h
      have hunit : n.rest = body ++ rest →
          ∃ word parts, PartsSpelled ('\\' :: word) parts ∧ 'u' :: digits = word ++ rest := by
        intro hrest
        refine ⟨'u' :: a :: b :: c :: d :: body, _, .unit hvalue hbody, ?_⟩
        rw [hdigits, hrest]
        rfl
      simp only [bind, Except.bind] at h
      split at h
      · cases hlow : readLow n.result n.rest with
        | error f =>
          rw [hlow] at h
          cases h
        | ok low? =>
          rw [hlow] at h
          cases low? with
          | none =>
            obtain rfl : (n.map fun _ => none).skip = e := Except.ok.inj h
            rw [Shorter.rest_skip, Shorter.rest_map] at hrest
            exact hunit hrest
          | some low =>
            obtain ⟨a', b', c', d', _, hlowDigits, hlowValue⟩ := digits_of_readLow hlow
            obtain rfl : ((n.next low).map some).skip = e := Except.ok.inj h
            rw [Shorter.rest_skip, Shorter.rest_map, Shorter.rest_next] at hrest
            refine ⟨'u' :: a :: b :: c :: d :: '\\' :: 'u' :: a' :: b' :: c' :: d' :: body, _,
              .unit hvalue (.unit hlowValue hbody), ?_⟩
            rw [hdigits, hlowDigits, hrest]
            rfl
      · split at h <;> cases h <;> exact hunit hrest
  · rename_i c behind _
    split at h
    · rename_i meant hknown
      cases h
      exact ⟨c :: body, _, .short (mem_of_lookup_shortEscapes hknown) hbody,
        congrArg (c :: ·) hrest⟩
    · cases h

/-- What is read for a string behind its quote is written in parts. -/
theorem parts_of_readString {text : List Char} {sound : Bool} {cs rest : List Char}
    {l : StringLiteral} (h : readString text sound cs = (.string l, rest)) :
    ∃ body parts, PartsSpelled body parts ∧ cs = body ++ '"' :: rest := by
  fun_induction readString text sound cs with
  | case1 => cases h
  | case2 text sound behind =>
    obtain ⟨-, rfl⟩ := Prod.mk.inj h
    exact ⟨[], [], .nil, rfl⟩
  | case3 text sound cs e he c hc ih =>
    obtain ⟨body, parts, hbody, hrest⟩ := ih h
    obtain ⟨word, parts, hword, rfl⟩ := parts_of_readEscape he hbody hrest
    exact ⟨'\\' :: word, parts, hword, by simp⟩
  | case4 text sound cs e he hc ih =>
    obtain ⟨body, parts, hbody, hrest⟩ := ih h
    obtain ⟨word, parts, hword, rfl⟩ := parts_of_readEscape he hbody hrest
    exact ⟨'\\' :: word, parts, hword, by simp⟩
  | case5 => cases h
  | case6 => cases h
  | case7 text sound c cs noQuote noEscape noControl ih =>
    obtain ⟨body, parts, hbody, rfl⟩ := ih h
    exact ⟨c :: body, .char c :: parts,
      .plain noQuote noEscape (Nat.not_lt.1 noControl) hbody, rfl⟩

/-- Nothing else than a string is read for one. -/
theorem exists_string_of_readString {text : List Char} {sound : Bool} {cs : List Char}
    (h : (readString text sound cs).1.isSound = true) :
    ∃ l, (readString text sound cs).1 = .string l := by
  fun_induction readString text sound cs with
  | case2 => exact ⟨_, rfl⟩
  | case3 _ _ _ _ _ _ _ ih => exact ih h
  | case4 _ _ _ _ _ _ ih => exact ih h
  | case7 _ _ _ _ _ _ _ ih => exact ih h
  | case1 | case5 | case6 => cases h

/-! ## Tokens -/

theorem readWord_append (t : Token) (word rest : List Char) :
    readWord t word (word ++ rest) = (t, rest) := by
  induction word with
  | nil => cases rest <;> rfl
  | cons c word ih => rw [List.cons_append, readWord, if_pos rfl, ih]

theorem spelled_of_readWord {t t' : Token} {word cs rest : List Char}
    (h : readWord t word cs = (t', rest)) (ht : t'.isSound = true) :
    t' = t ∧ cs = word ++ rest := by
  fun_induction readWord t word cs with
  | case1 => cases h; exact ⟨rfl, rfl⟩
  | case2 => cases h; cases ht
  | case3 w word cs ih =>
    obtain ⟨rfl, rfl⟩ := ih h
    exact ⟨rfl, rfl⟩
  | case4 => cases h; cases ht

/-- A digit is none of the characters that other tokens start with. -/
theorem readToken_of_isDigit {c : Char} (h : c.isDigit = true) (rest : List Char) :
    readToken c rest = readNumber false (c :: rest) := by
  have hne : ∀ d : Char, d.isDigit = false → c ≠ d := by
    rintro d hd rfl
    rw [h] at hd
    cases hd
  have hmarks : "\x7b\x7d[]:,\"ntf-".toList.all (!·.isDigit) = true := by decide
  have hall : ∀ d ∈ "\x7b\x7d[]:,\"ntf-".toList, c ≠ d := fun d hd =>
    hne d (by simpa using List.all_eq_true.1 hmarks d hd)
  simp only [String.reduceToList, List.mem_cons, List.not_mem_nil, or_false, forall_eq_or_imp,
    forall_eq] at hall
  simp only [readToken, hall, h, if_true, if_false]

theorem isSpace_of_isDigit {c : Char} (h : c.isDigit = true) : isSpace c = false := by
  refine Bool.eq_false_iff.2 fun hspace => ?_
  simp only [isSpace, Bool.or_eq_true, beq_iff_eq] at hspace
  rcases hspace with ((rfl | rfl) | rfl) | rfl <;> exact absurd h (by decide)

/-- **Every spelling of a token is read for it.** -/
theorem readToken_of_spelled {t : Token} {word : List Char} (h : t.Spelled word) (rest : List Char)
    (hrest : t.isNumber = true → EndsNumber rest) :
    ∃ c cs, word = c :: cs ∧ isSpace c = false ∧ readToken c (cs ++ rest) = (t, rest) := by
  cases t with
  | openBrace | closeBrace | openBracket | closeBracket | colon | comma =>
    obtain rfl : word = _ := h
    exact ⟨_, _, rfl, by decide, by simp [readToken]⟩
  | null =>
    obtain rfl : word = _ := h
    exact ⟨_, _, rfl, by decide, readWord_append _ _ rest⟩
  | bool value =>
    obtain rfl : word = _ := h
    cases value
    · exact ⟨_, _, rfl, by decide, readWord_append _ _ rest⟩
    · exact ⟨_, _, rfl, by decide, readWord_append _ _ rest⟩
  | number l =>
    obtain ⟨hwhole, hzero, fraction, exponent, hfraction, hexponent, rfl⟩ := h
    have hread := readNumber_of_spelled hwhole hzero hfraction hexponent (hrest rfl)
    cases hneg : l.negative with
    | true =>
      rw [hneg] at hread
      refine ⟨'-', _, rfl, by decide, ?_⟩
      simpa [readToken] using hread
    | false =>
      obtain ⟨hne, hdigits⟩ := hwhole
      obtain ⟨d, digits, hd⟩ := List.exists_cons_of_ne_nil hne
      have hdigit : d.isDigit = true := hdigits d (by simp [hd])
      rw [hneg, hd] at hread
      refine ⟨d, digits ++ (fraction ++ exponent), by simp [hd], isSpace_of_isDigit hdigit, ?_⟩
      rw [readToken_of_isDigit hdigit]
      simpa using hread
  | string l =>
    obtain ⟨body, parts, hbody, htext, rfl⟩ := h
    refine ⟨'"', body ++ ['"'], rfl, by decide, ?_⟩
    have hread := readString_of_parts hbody [] true rest
    have hl : (⟨readText [] true parts⟩ : StringLiteral) = l := by
      rw [StringLiteral.mk.injEq, htext]
      simp [readText]
    rw [hl] at hread
    simpa [readToken] using hread
  | stray | brokenScalar | brokenString => exact h.elim

/-- If nothing is wrong with the token that was read from a text, the text starts with a spelling
of it. -/
def TakesSpelling (cs : List Char) (read : Token × List Char) : Prop :=
  read.1.isSound = true → ∃ word, read.1.Spelled word ∧ cs = word ++ read.2

theorem TakesSpelling.ite {p : Prop} [Decidable p] {cs : List Char} {a b : Token × List Char}
    (ha : p → TakesSpelling cs a) (hb : ¬p → TakesSpelling cs b) :
    TakesSpelling cs (if p then a else b) := by
  by_cases h : p
  · rw [if_pos h]
    exact ha h
  · rw [if_neg h]
    exact hb h

theorem takesSpelling_one {c d : Char} {t : Token} {cs : List Char} (hc : c = d)
    (h : t.Spelled [d]) : TakesSpelling (c :: cs) (t, cs) := by
  subst hc
  exact fun _ => ⟨[c], h, rfl⟩

theorem takesSpelling_readWord {c d : Char} {t : Token} {word cs : List Char} (hc : c = d)
    (h : t.Spelled (d :: word)) : TakesSpelling (c :: cs) (readWord t word cs) := by
  subst hc
  intro hsound
  obtain ⟨ht, hcs⟩ := spelled_of_readWord rfl hsound
  exact ⟨c :: word, by rwa [ht], congrArg (c :: ·) hcs⟩

theorem takesSpelling_readString {c : Char} {cs : List Char} (hc : c = '"') :
    TakesSpelling (c :: cs) (readString [] true cs) := by
  subst hc
  intro hsound
  obtain ⟨l, hl⟩ := exists_string_of_readString hsound
  have hread : readString [] true cs = (.string l, (readString [] true cs).2) := Prod.ext hl rfl
  obtain ⟨body, parts, hbody, hcs⟩ := parts_of_readString hread
  have hvalue := readString_of_parts hbody [] true (readString [] true cs).2
  rw [← hcs, hread] at hvalue
  have hl : l = ⟨readText [] true parts⟩ := Token.string.inj (Prod.mk.inj hvalue).1
  refine ⟨'"' :: (body ++ ['"']), ?_, ?_⟩
  · rw [hread, hl]
    exact ⟨body, parts, hbody, by simp [readText], rfl⟩
  · simpa using hcs

/-- **Only a spelling of a token is read for it.** -/
theorem takesSpelling_readToken (c : Char) (cs : List Char) :
    TakesSpelling (c :: cs) (readToken c cs) := by
  unfold readToken
  refine .ite (fun hc => takesSpelling_one hc rfl) fun _ =>
    .ite (fun hc => takesSpelling_one hc rfl) fun _ =>
    .ite (fun hc => takesSpelling_one hc rfl) fun _ =>
    .ite (fun hc => takesSpelling_one hc rfl) fun _ =>
    .ite (fun hc => takesSpelling_one hc rfl) fun _ =>
    .ite (fun hc => takesSpelling_one hc rfl) fun _ =>
    .ite (fun hc => takesSpelling_readString hc) fun _ =>
    .ite (fun hc => takesSpelling_readWord hc rfl) fun _ =>
    .ite (fun hc => takesSpelling_readWord hc rfl) fun _ =>
    .ite (fun hc => takesSpelling_readWord hc rfl) fun _ =>
    .ite ?_ fun _ => .ite (fun _ => ?_) fun _ => ?_
  · rintro rfl hsound
    obtain ⟨word, hword, hcs⟩ := spelled_of_readNumber rfl hsound
    exact ⟨'-' :: word, hword, congrArg ('-' :: ·) hcs⟩
  · exact fun hsound => spelled_of_readNumber rfl hsound
  · rintro ⟨⟩

end SwiftDecls.Json
