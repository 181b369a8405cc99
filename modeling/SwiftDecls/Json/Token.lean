import SwiftDecls.Number.Literal
import SwiftDecls.Text.Blank
import SwiftDecls.Text.Digits
import SwiftDecls.Text.Shorter

/-!
# JSON tokens

A text is read into tokens as far as it goes. Where it goes wrong the last token says how, and
nothing is read after it. A fault can look different to a reader that wants the value and to
one that skips it: a number that breaks off has merely ended for the first and is malformed for
the second, and only the first minds an escape that is half a surrogate pair.
-/

set_option autoImplicit false

namespace SwiftDecls.Json

open Number Text

/-- What is wrong with a text: it ends too early, or it is no JSON. -/
inductive Fault where
  | ended
  | malformed
deriving DecidableEq, Repr

/-- A string; it has no text if an escape in it is half a surrogate pair. -/
structure StringLiteral where
  text? : Option String
deriving DecidableEq, Repr

/-- A token. -/
inductive Token where
  | openBrace
  | closeBrace
  | openBracket
  | closeBracket
  | colon
  | comma
  | null
  | bool (value : Bool)
  | number (literal : Literal)
  | string (literal : StringLiteral)
  /-- A character that starts no token. -/
  | stray
  /-- A word or number that goes wrong: the fault for a reader that wants it, and for one that
  skips it. -/
  | brokenScalar (wanted skipped : Fault)
  /-- A string that goes wrong, with the two faults. -/
  | brokenString (wanted skipped : Fault)
deriving DecidableEq, Repr

/-- The kinds of value that messages name. -/
inductive Kind where
  | null
  | bool (value : Bool)
  | integer (value : Int)
  | double (text : String)
  | string (text : String)
  | sequence
  | map
deriving DecidableEq, Repr

namespace Token

/-- What a reader finds that wants a value of another kind: the kind that the token starts, or
what is wrong with it. -/
def kind : Token → Except Fault Kind
  | openBracket => .ok .sequence
  | openBrace => .ok .map
  | null => .ok .null
  | bool value => .ok (.bool value)
  | number literal =>
    match literal.value? with
    | some (.natural n) => .ok (.integer n)
    | some (.negative n) => .ok (.integer (-n))
    | some (.double text) => .ok (.double text)
    | none => .error .malformed
  | string literal =>
    match literal.text? with
    | some text => .ok (.string text)
    | none => .error .malformed
  | brokenScalar wanted _ | brokenString wanted _ => .error wanted
  | _ => .error .malformed

/-- The fault of a token that starts no value, for a reader that skips the value. -/
def skipFault : Token → Fault
  | brokenScalar _ skipped | brokenString _ skipped => skipped
  | _ => .malformed

end Token

/-! ## Strings -/

/-- The number of bytes up to the end of a text. -/
def byteCount (cs : List Char) : Nat := cs.foldl (fun n c => n + c.utf8Size) 0

/-- The four digits of a `\u` escape. Fewer than four bytes up to the end of the text are an
early end, whatever they are. -/
def readHex (cs : List Char) : Except Fault (Shorter Nat cs) :=
  match cs with
  | a :: b :: c :: d :: rest =>
    match digitsIn? 16 [a, b, c, d] with
    | some n => .ok (Shorter.one n d rest).skip.skip.skip
    | none => .error .malformed
  | short => if byteCount short < 4 then .error .ended else .error .malformed

/-- The first half of a surrogate pair. -/
def isHighSurrogate (n : Nat) : Bool := 0xD800 ≤ n && n ≤ 0xDBFF

/-- The second half of a surrogate pair. -/
def isLowSurrogate (n : Nat) : Bool := 0xDC00 ≤ n && n ≤ 0xDFFF

/-- The character of a surrogate pair. -/
def pairChar (high low : Nat) : Char :=
  Char.ofNat ((high - 0xD800) * 0x400 + (low - 0xDC00) + 0x10000)

/-- The characters that a backslash and a letter stand for. -/
def shortEscapes : List (Char × Char) := [
  ('"', '"'), ('\\', '\\'), ('/', '/'), ('b', '\x08'), ('f', '\x0c'), ('n', '\n'), ('r', '\r'),
  ('t', '\t')]

/-- The second half of a pair whose first half has been read: the character if it is there,
nothing if something else follows. -/
def readLow (high : Nat) (cs : List Char) : Except Fault (Option (Shorter Char cs)) :=
  match cs with
  | [] => .error .ended
  | ['\\'] => .error .ended
  | '\\' :: 'u' :: digits => do
    let low ← readHex digits
    return if isLowSurrogate low.result then some (low.map (pairChar high)).skip.skip else none
  | _ => .ok none

/-- What follows a backslash: the character, or nothing for half a surrogate pair. -/
def readEscape (cs : List Char) : Except Fault (Shorter (Option Char) cs) :=
  match cs with
  | [] => .error .ended
  | 'u' :: digits => do
    let n ← readHex digits
    if isHighSurrogate n.result then
      match ← readLow n.result n.rest with
      | some c => return ((n.next c).map some).skip
      | none => return (n.map fun _ => none).skip
    else if isLowSurrogate n.result then return (n.map fun _ => none).skip
    else return (n.map fun n => some (Char.ofNat n)).skip
  | c :: rest =>
    match shortEscapes.lookup c with
    | some meant => .ok (.one (some meant) c rest)
    | none => .error .malformed

/-- The token of a string that goes wrong after half pairs (`sound = false`) or without. -/
def brokenString (sound : Bool) (fault : Fault) : Token :=
  .brokenString (if sound then fault else .malformed) fault

/-- A string after its opening quote. `text` holds the characters so far, last one first. -/
def readString (text : List Char) (sound : Bool) (cs : List Char) : Token × List Char :=
  match cs with
  | [] => (brokenString sound .ended, [])
  | '"' :: rest =>
    (.string ⟨if sound then some (String.ofList text.reverse) else none⟩, rest)
  | '\\' :: rest =>
    match readEscape rest with
    | .ok e =>
      match e.result with
      | some c => readString (c :: text) sound e.rest
      | none => readString text false e.rest
    | .error fault => (brokenString sound fault, [])
  | c :: rest =>
    if c.toNat < 32 then (brokenString sound .malformed, [])
    else readString (c :: text) sound rest
termination_by cs.length
decreasing_by
  · exact e.shorter_cons '\\'
  · exact e.shorter_cons '\\'
  · exact length_lt_cons c rest

/-! ## Words and numbers -/

/-- A word whose first letter has been read. -/
def readWord (token : Token) : List Char → List Char → Token × List Char
  | [], rest => (token, rest)
  | _ :: _, [] => (.brokenScalar .ended .ended, [])
  | w :: word, c :: rest =>
    if w = c then readWord token word rest else (.brokenScalar .malformed .malformed, [])

/-- A number that lacks a digit: at the end of the text it has ended for a reader that wants
it. -/
def missingDigit (cs : List Char) : Token × List Char :=
  (.brokenScalar (if cs.isEmpty then .ended else .malformed) .malformed, [])

/-- The exponent of a number, if there is one. -/
def readExponent (number : Literal) (cs : List Char) : Token × List Char :=
  match cs with
  | c :: rest =>
    if c = 'e' ∨ c = 'E' then
      let (negative, digits) := match rest with
        | '+' :: digits => (false, digits)
        | '-' :: digits => (true, digits)
        | digits => (false, digits)
      match digits.takeWhile Char.isDigit with
      | [] => missingDigit digits
      | shown =>
        (.number { number with exponent := some ⟨negative, shown⟩ }, digits.dropWhile Char.isDigit)
    else (.number number, cs)
  | [] => (.number number, [])

/-- The fraction and exponent of a number, if there are any. -/
def readFraction (number : Literal) (cs : List Char) : Token × List Char :=
  match cs with
  | '.' :: digits =>
    match digits.takeWhile Char.isDigit with
    | [] => missingDigit digits
    | shown => readExponent { number with fraction := some shown } (digits.dropWhile Char.isDigit)
  | _ => readExponent number cs

/-- A number after its sign. A zero in front of other digits is malformed. -/
def readNumber (negative : Bool) (cs : List Char) : Token × List Char :=
  match cs.takeWhile Char.isDigit with
  | [] => missingDigit cs
  | '0' :: _ :: _ => (.brokenScalar .malformed .malformed, [])
  | digits => readFraction ⟨negative, digits, none, none⟩ (cs.dropWhile Char.isDigit)

/-! ## Tokens -/

/-- The first token of a text that does not start with white space. -/
def readToken (c : Char) (rest : List Char) : Token × List Char :=
  if c = '\x7b' then (.openBrace, rest)
  else if c = '\x7d' then (.closeBrace, rest)
  else if c = '[' then (.openBracket, rest)
  else if c = ']' then (.closeBracket, rest)
  else if c = ':' then (.colon, rest)
  else if c = ',' then (.comma, rest)
  else if c = '"' then readString [] true rest
  else if c = 'n' then readWord .null "ull".toList rest
  else if c = 't' then readWord (.bool true) "rue".toList rest
  else if c = 'f' then readWord (.bool false) "alse".toList rest
  else if c = '-' then readNumber true rest
  else if c.isDigit then readNumber false (c :: rest)
  else (.stray, [])

theorem length_readString (text : List Char) (sound : Bool) (cs : List Char) :
    (readString text sound cs).2.length ≤ cs.length := by
  fun_induction readString text sound cs with
  | case1 => exact Nat.le_refl _
  | case2 => exact Nat.le_succ _
  | case3 text sound rest e he c hc ih =>
    exact Nat.le_of_lt (Nat.lt_of_le_of_lt ih (e.shorter_cons _))
  | case4 text sound rest e he hc ih =>
    exact Nat.le_of_lt (Nat.lt_of_le_of_lt ih (e.shorter_cons _))
  | case5 => exact Nat.zero_le _
  | case6 => exact Nat.zero_le _
  | case7 text sound c rest _ _ _ ih => exact Nat.le_succ_of_le ih

theorem length_readWord (token : Token) (word cs : List Char) :
    (readWord token word cs).2.length ≤ cs.length := by
  fun_induction readWord token word cs <;> simp_all; omega

theorem length_readExponent (number : Literal) (cs : List Char) :
    (readExponent number cs).2.length ≤ cs.length := by
  unfold readExponent
  split
  · rename_i c rest
    split
    · have key : ∀ digits : List Char, digits.length ≤ rest.length →
          (digits.dropWhile Char.isDigit).length ≤ (c :: rest).length := fun digits h => by
        have := length_dropWhile_le Char.isDigit digits
        simp only [List.length_cons]
        omega
      split
      split
      · simp [missingDigit]
      · rename_i negative digits hd _ _
        refine key digits ?_
        split at hd <;> cases hd <;> simp
    · simp
  · simp

theorem length_readFraction (number : Literal) (cs : List Char) :
    (readFraction number cs).2.length ≤ cs.length := by
  unfold readFraction
  split
  · rename_i digits
    split
    · simp [missingDigit]
    · have h := length_readExponent { number with fraction := some (digits.takeWhile Char.isDigit) }
        (digits.dropWhile Char.isDigit)
      have := length_dropWhile_le Char.isDigit digits
      simp only [List.length_cons]
      omega
  · exact length_readExponent number cs

theorem length_readNumber (negative : Bool) (cs : List Char) :
    (readNumber negative cs).2.length ≤ (cs.dropWhile Char.isDigit).length := by
  unfold readNumber
  split
  · simp [missingDigit]
  · simp
  · exact length_readFraction _ _

theorem length_ite_le {p : Prop} [Decidable p] {a b : Token × List Char} {n : Nat}
    (ha : p → a.2.length ≤ n) (hb : ¬p → b.2.length ≤ n) :
    (if p then a else b).2.length ≤ n := by
  by_cases h : p
  · rw [if_pos h]
    exact ha h
  · rw [if_neg h]
    exact hb h

/-- Every token takes at least its first character. -/
theorem length_readToken (c : Char) (rest : List Char) :
    (readToken c rest).2.length ≤ rest.length := by
  have here : ∀ t : Token, ((t, rest) : Token × List Char).2.length ≤ rest.length :=
    fun _ => Nat.le_refl _
  unfold readToken
  refine length_ite_le (fun _ => here _) fun _ => length_ite_le (fun _ => here _) fun _ =>
    length_ite_le (fun _ => here _) fun _ => length_ite_le (fun _ => here _) fun _ =>
    length_ite_le (fun _ => here _) fun _ => length_ite_le (fun _ => here _) fun _ =>
    length_ite_le (fun _ => length_readString _ _ _) fun _ =>
    length_ite_le (fun _ => length_readWord _ _ _) fun _ =>
    length_ite_le (fun _ => length_readWord _ _ _) fun _ =>
    length_ite_le (fun _ => length_readWord _ _ _) fun _ =>
    length_ite_le (fun _ => ?_) fun _ => length_ite_le (fun h => ?_) fun _ => Nat.zero_le _
  · have := length_readNumber true rest
    have := length_dropWhile_le Char.isDigit rest
    omega
  · have := length_readNumber false (c :: rest)
    have := length_dropWhile_le Char.isDigit rest
    rw [List.dropWhile_cons_of_pos h] at *
    omega

/-- The tokens of a text after those in `done`, which come last one first. -/
def tokensAfter (done : List Token) (cs : List Char) : List Token :=
  match cs with
  | [] => done.reverse
  | c :: rest =>
    if isSpace c then tokensAfter done rest
    else tokensAfter ((readToken c rest).1 :: done) (readToken c rest).2
termination_by cs.length
decreasing_by
  · exact length_lt_cons c rest
  · exact Nat.lt_succ_of_le (length_readToken c rest)

/-- The tokens of a text, as far as it can be read. -/
def tokens (cs : List Char) : List Token := tokensAfter [] cs

end SwiftDecls.Json
