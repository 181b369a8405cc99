import SwiftDecls.Text.Digits
import SwiftDecls.Text.Shorter

/-!
# TOML texts

A text is between single or double quotes, one or three of each. Between double quotes a
backslash starts an escape. Three quotes may enclose several lines; an end of a line directly
after the opening quotes does not count, an escaped one does not count together with the blanks
and ends of lines after it, and up to two quotes may stand directly before the closing ones.
-/

set_option autoImplicit false

namespace SwiftDecls.Toml

open Text

/-- Blanks in a line. -/
def isLineBlank (c : Char) : Bool := c == ' ' || c == '\t'

/-- Characters that may stand as they are in a line. -/
def isPlain (c : Char) : Bool := c == '\t' || (32 ≤ c.toNat && c.toNat != 127)

/-- The character with a number of so many hexadecimal digits. -/
def hexChar? (digits : Nat) (cs : List Char) : Option Char :=
  if cs.length < digits then none else (digitsIn? 16 (cs.take digits)).bind charOf?

/-- The characters that a backslash and a letter stand for. -/
def shortEscapes : List (Char × Char) := [
  ('b', '\x08'), ('t', '\t'), ('n', '\n'), ('f', '\x0c'), ('r', '\r'), ('e', '\x1b'), ('"', '"'),
  ('\\', '\\')]

/-- The letters that start a number, with its digits. -/
def numberEscapes : List (Char × Nat) := [('x', 2), ('u', 4), ('U', 8)]

/-- An escape after its backslash. -/
def readEscape (cs : List Char) : Option (Shorter Char cs) :=
  match cs with
  | [] => none
  | c :: rest =>
    match shortEscapes.lookup c, numberEscapes.lookup c with
    | some meant, _ => some (.one meant c rest)
    | none, some digits => (hexChar? digits rest).map fun meant =>
      (Shorter.one meant c rest).drop digits
    | none, none => none

/-- The end of a line at the front of a text. -/
def dropLineEnd? : List Char → Option (List Char)
  | '\n' :: rest => some rest
  | '\r' :: '\n' :: rest => some rest
  | _ => none

/-- The rest behind blanks and ends of lines. -/
def dropBlankLines : List Char → List Char
  | [] => []
  | '\r' :: '\n' :: rest => dropBlankLines rest
  | c :: rest => if isLineBlank c || c == '\n' then dropBlankLines rest else c :: rest

/-- The rest behind an end of a line that a backslash escapes. -/
def dropEscapedEnd? (cs : List Char) : Option (List Char) :=
  (dropLineEnd? (cs.dropWhile isLineBlank)).map dropBlankLines

theorem length_of_dropLineEnd? {cs rest : List Char} (h : dropLineEnd? cs = some rest) :
    rest.length < cs.length := by
  unfold dropLineEnd? at h
  split at h
  · cases h
    exact length_lt_cons '\n' rest
  · cases h
    exact Nat.lt_succ_of_lt (length_lt_cons '\n' rest)
  · cases h

theorem length_dropBlankLines_le (cs : List Char) : (dropBlankLines cs).length ≤ cs.length := by
  fun_induction dropBlankLines cs with
  | case1 => exact Nat.le_refl _
  | case2 rest ih => exact Nat.le_succ_of_le (Nat.le_succ_of_le ih)
  | case3 c rest _ _ ih => exact Nat.le_succ_of_le ih
  | case4 => exact Nat.le_refl _

theorem length_of_dropEscapedEnd? {cs rest : List Char} (h : dropEscapedEnd? cs = some rest) :
    rest.length < cs.length := by
  unfold dropEscapedEnd? at h
  obtain ⟨after, ha, rfl⟩ := Option.map_eq_some_iff.1 h
  exact Nat.lt_of_le_of_lt (length_dropBlankLines_le after)
    (Nat.lt_of_lt_of_le (length_of_dropLineEnd? ha) (length_dropWhile_le isLineBlank cs))

theorem length_cons_of_dropEscapedEnd? {c : Char} {cs rest : List Char}
    (h : dropEscapedEnd? cs = some rest) : rest.length < (c :: cs).length :=
  Nat.lt_succ_of_lt (length_of_dropEscapedEnd? h)

/-! ## Texts in one line -/

/-- A text in single quotes, after the opening one. -/
def readLiteral (cs : List Char) : Option (Shorter String cs) :=
  match cutUntil? (fun c => isPlain c && c != '\'') cs with
  | some ('\'', s) => some (s.map String.ofList)
  | _ => none

/-- A text in double quotes, after the opening one. `done` holds the characters so far, last
one first. -/
def readBasic (done : List Char) (cs : List Char) : Option (Shorter String cs) :=
  match cs with
  | '"' :: rest => some (.one (String.ofList done.reverse) '"' rest)
  | '\\' :: rest =>
    match readEscape rest with
    | some e => (readBasic (e.result :: done) e.rest).map fun s => (e.next s).skip
    | none => none
  | c :: rest => if isPlain c then (readBasic (c :: done) rest).map .skip else none
  | [] => none
termination_by cs.length
decreasing_by
  · exact e.shorter_cons '\\'
  · exact length_lt_cons c rest

/-! ## Texts in several lines -/

/-- Up to two quotes that still belong to a text, behind the three that end it. -/
def extraQuotes (quote : Char) (cs : List Char) : List Char := (cs.take 2).takeWhile (· == quote)

/-- The end of a text in three quotes, of which the first has been read and the others are at
the front. -/
def closeLines (quote : Char) (done : List Char) (cs : List Char) : Shorter String (quote :: cs) :=
  let extra := extraQuotes quote (cs.drop 2)
  (Shorter.one (String.ofList (done.reverse ++ extra)) quote cs).drop (2 + extra.length)

/-- A text in three quotes, after the opening ones and an end of a line behind them. -/
def readLines (quote : Char) (done : List Char) (cs : List Char) : Option (Shorter String cs) :=
  match cs with
  | [] => none
  | c :: rest =>
    if c = quote ∧ [quote, quote].isPrefixOf rest then some (closeLines c done rest)
    else if c = '\\' ∧ quote = '"' then
      match h : dropEscapedEnd? rest with
      | some after =>
        (readLines quote done after).map fun s =>
          s.before (length_cons_of_dropEscapedEnd? h)
      | none =>
        match readEscape rest with
        | some e => (readLines quote (e.result :: done) e.rest).map fun s => (e.next s).skip
        | none => none
    else if isPlain c || c == '\n' || (c == '\r' && rest.head? == some '\n') then
      (readLines quote (c :: done) rest).map .skip
    else none
termination_by cs.length
decreasing_by
  · exact length_cons_of_dropEscapedEnd? h
  · exact e.shorter_cons c
  · exact length_lt_cons c rest

/-- A text behind its opening quote. -/
def readText (quote : Char) (cs : List Char) : Option (Shorter String cs) :=
  match cs with
  | a :: b :: rest =>
    if a = quote ∧ b = quote then
      match h : dropLineEnd? rest with
      | some after =>
        (readLines quote [] after).map fun s => (s.before (length_of_dropLineEnd? h)).skip.skip
      | none => (readLines quote [] rest).map fun s => s.skip.skip
    else if quote = '"' then readBasic [] (a :: b :: rest) else readLiteral (a :: b :: rest)
  | cs => if quote = '"' then readBasic [] cs else readLiteral cs

end SwiftDecls.Toml
