import SwiftDecls.Toml.Scalar
import SwiftDecls.Toml.Value

/-!
# Reading TOML

A document is a sequence of lines: empty ones, headers, and keys with values. A list and a
table in braces may extend over several lines, with comments, and end with a comma. How deep
lists and tables in braces are inside each other has a limit, and so has the length of a key.
-/

set_option autoImplicit false

namespace SwiftDecls.Toml

open Text

/-! ## White space -/

/-- The rest behind a comment, if there is one; it has to end with its line. -/
def dropComment? (cs : List Char) : Option (List Char) :=
  match cs with
  | '#' :: rest =>
    let behind := rest.dropWhile isPlain
    if behind.isEmpty || (dropLineEnd? behind).isSome then some behind else none
  | cs => some cs

theorem length_of_dropComment? {cs rest : List Char} (h : dropComment? cs = some rest) :
    rest.length ≤ cs.length := by
  unfold dropComment? at h
  split at h
  · rename_i body
    simp only at h
    split at h
    · cases h
      exact Nat.le_succ_of_le (length_dropWhile_le isPlain body)
    · cases h
  · cases h
    exact Nat.le_refl _

theorem length_lt_of_line {cs rest behind : List Char}
    (hc : dropComment? (cs.dropWhile isLineBlank) = some rest)
    (h : dropLineEnd? rest = some behind) : behind.length < cs.length :=
  Nat.lt_of_lt_of_le (length_of_dropLineEnd? h)
    (Nat.le_trans (length_of_dropComment? hc) (length_dropWhile_le isLineBlank cs))

/-- The rest behind blanks, comments and ends of lines. -/
def dropSpace? (cs : List Char) : Option (List Char) :=
  match _hc : dropComment? (cs.dropWhile isLineBlank) with
  | none => none
  | some rest =>
    match _h : dropLineEnd? rest with
    | some behind => dropSpace? behind
    | none => some rest
termination_by cs.length
decreasing_by exact length_lt_of_line _hc _h

theorem length_of_dropSpace? {cs rest : List Char} (h : dropSpace? cs = some rest) :
    rest.length ≤ cs.length := by
  fun_induction dropSpace? cs with
  | case1 => cases h
  | case2 cs line hc behind hb ih =>
    exact Nat.le_trans (ih h) (Nat.le_of_lt (length_lt_of_line hc hb))
  | case3 cs line hc =>
    cases h
    exact Nat.le_trans (length_of_dropComment? hc) (length_dropWhile_le isLineBlank cs)

theorem length_of_dropSpace?_cons {cs rest : List Char} {c : Char}
    (h : dropSpace? cs = some (c :: rest)) : rest.length < cs.length :=
  Nat.lt_of_lt_of_le (length_lt_cons c rest) (length_of_dropSpace? h)

/-! ## Keys -/

/-- A character of a key without quotes. -/
def isKeyChar (c : Char) : Bool := c.isAlphanum || c == '_' || c == '-'

/-- One part of a key. -/
def readKeyPart (cs : List Char) : Option (Shorter String cs) :=
  match cs with
  | '"' :: rest => (readBasic [] rest).map .skip
  | '\'' :: rest => (readLiteral rest).map .skip
  | c :: rest =>
    if isKeyChar c then some ((Shorter.span isKeyChar c rest).map String.ofList) else none
  | [] => none

/-- One part of a key and the blanks behind it. -/
def readKeyWord (cs : List Char) : Option (Shorter String cs) :=
  (readKeyPart cs).map (·.dropWhile isLineBlank)

theorem length_behind_dot {cs rest : List Char} {c : Char} {s : Shorter String cs}
    (h : s.rest = c :: rest) : (rest.dropWhile isLineBlank).length < cs.length := by
  have hs := s.shorter
  rw [h] at hs
  exact Nat.lt_of_le_of_lt (length_dropWhile_le isLineBlank rest) (Nat.lt_of_succ_lt hs)

/-- The parts of a key with dots between them. Blanks may be around the dots and at the end. -/
def readKeyParts (cs : List Char) : Option (Shorter (List String) cs) :=
  match readKeyWord cs with
  | none => none
  | some part =>
    match h : part.rest with
    | '.' :: rest =>
      (readKeyParts (rest.dropWhile isLineBlank)).map fun more =>
        (more.map (part.result :: ·)).before (length_behind_dot h)
    | _ => some (part.map ([·]))
termination_by cs.length
decreasing_by exact length_behind_dot h

/-- How many parts a key may have, and how deep a value may be. -/
def nestingLimit : Nat := 80

/-- A key. -/
def readKey (cs : List Char) : Option (Shorter (List String) cs) :=
  (readKeyParts cs).filter (·.result.length ≤ nestingLimit)

/-- A key and the equals sign behind it, with blanks on both sides. -/
def readKeyEquals (cs : List Char) : Option (Shorter (List String) cs) := do
  let key ← readKey cs
  let key ← key.expect? '='
  return key.dropWhile isLineBlank

/-- A result without the white space behind it. -/
def dropSpaceBehind? {α : Type} {cs : List Char} (s : Shorter α cs) : Option (Shorter α cs) :=
  match h : dropSpace? s.rest with
  | some rest => some (s.within rest (length_of_dropSpace? h))
  | none => none

/-- A key in braces and the equals sign behind it, with white space on both sides. -/
def readFieldKey (cs : List Char) : Option (Shorter (List String) cs) := do
  let key ← dropSpaceBehind? (← readKey cs)
  let key ← key.expect? '='
  dropSpaceBehind? key

/-! ## Values -/

/-- The first character behind white space. -/
def readMark (cs : List Char) : Option (Shorter Char cs) :=
  match h : dropSpace? cs with
  | some (c :: rest) => some ⟨c, rest, length_of_dropSpace?_cons h⟩
  | _ => none

theorem length_behind_mark {α : Type} {cs start : List Char} (h : dropSpace? cs = some start)
    (item : Shorter α start) (mark : Shorter Char item.rest) : mark.rest.length < cs.length :=
  Nat.lt_of_lt_of_le (item.next mark).shorter (length_of_dropSpace? h)

mutual

/-- A value. There may be `room` lists and tables in braces around each other in it. -/
def readValue (room : Nat) (cs : List Char) : Option (Shorter Value cs) :=
  match cs with
  | '[' :: rest => if room = 0 then none else (readItems (room - 1) [] rest).map .skip
  | '\x7b' :: rest => if room = 0 then none else (readFields (room - 1) [] rest).map .skip
  | c :: rest =>
    if isQuote c then (readText c rest).map fun s => (s.map .text).skip
    else
      match h : dropScalar? (c :: rest) with
      | some behind => some ⟨.scalar, behind, length_of_dropScalar? h⟩
      | none => none
  | [] => none
termination_by 2 * cs.length
decreasing_by
  · exact twice_succ_lt_twice (length_lt_cons '[' rest)
  · exact twice_succ_lt_twice (length_lt_cons '\x7b' rest)

/-- A list behind its bracket or behind the comma after the items in `done`, last one first. -/
def readItems (room : Nat) (done : List Value) (cs : List Char) : Option (Shorter Value cs) :=
  match h : dropSpace? cs with
  | none => none
  | some (']' :: rest) => some ⟨.list done.reverse false, rest, length_of_dropSpace?_cons h⟩
  | some start => do
    let item ← readValue room start
    let items := item.result :: done
    let mark ← readMark item.rest
    if mark.result = ',' then
      let list ← readItems room items mark.rest
      return list.before (length_behind_mark h item mark)
    else if mark.result = ']' then
      return ⟨.list items.reverse false, mark.rest, length_behind_mark h item mark⟩
    else none
termination_by 2 * cs.length + 1
decreasing_by
  · exact twice_lt_twice_succ (length_of_dropSpace? h)
  · exact twice_succ_lt_twice_succ (length_behind_mark h item mark)

/-- A table in braces behind its opening brace or behind the comma after some entries. -/
def readFields (room : Nat) (done : Entries) (cs : List Char) : Option (Shorter Value cs) :=
  match h : dropSpace? cs with
  | none => none
  | some ('\x7d' :: rest) => some ⟨.table .braces done, rest, length_of_dropSpace?_cons h⟩
  | some start => do
    let key ← readFieldKey start
    let value ← readValue room key.rest
    let entries ← done.add key.result value.result
    let mark ← readMark value.rest
    if mark.result = ',' then
      let table ← readFields room entries mark.rest
      return table.before (length_behind_mark h (key.next value) mark)
    else if mark.result = '\x7d' then
      return ⟨.table .braces entries, mark.rest, length_behind_mark h (key.next value) mark⟩
    else none
termination_by 2 * cs.length + 1
decreasing_by
  · exact twice_lt_twice_succ (Nat.le_trans (Nat.le_of_lt key.shorter) (length_of_dropSpace? h))
  · exact twice_succ_lt_twice_succ (length_behind_mark h (key.next value) mark)

end

/-! ## Lines -/

/-- A line. -/
inductive Line where
  | empty
  | entry (key : List String) (value : Value)
  | header (path : List String) (listed : Bool)

/-- The rest behind the end of a line, before which there may be blanks and a comment. -/
def endLine? (cs : List Char) : Option (List Char) :=
  match dropComment? (cs.dropWhile isLineBlank) with
  | none => none
  | some [] => some []
  | some rest => dropLineEnd? rest

theorem length_of_endLine?_cons {c : Char} {cs rest : List Char}
    (h : endLine? (c :: cs) = some rest) : rest.length < (c :: cs).length := by
  unfold endLine? at h
  split at h
  · cases h
  · cases h
    exact Nat.succ_pos cs.length
  · rename_i line _ hc
    exact length_lt_of_line hc h

theorem length_of_endLine? {cs rest : List Char} (h : endLine? cs = some rest) :
    rest.length ≤ cs.length := by
  cases cs with
  | nil =>
    cases h
    exact Nat.le_refl 0
  | cons c cs => exact Nat.le_of_lt (length_of_endLine?_cons h)

/-- A key behind blanks. -/
def readPath (cs : List Char) : Option (Shorter (List String) cs) :=
  (readKey (cs.dropWhile isLineBlank)).map .behind

/-- A header behind its first bracket. -/
def readHeader (cs : List Char) : Option (Shorter Line cs) :=
  match cs with
  | '[' :: rest => do
    let path ← readPath rest
    let path ← path.expect? ']'
    let path ← path.expect? ']'
    return (path.map (.header · true)).skip
  | cs => do
    let path ← readPath cs
    let path ← path.expect? ']'
    return path.map (.header · false)

/-- What a line says, if it does not start with a blank. -/
def readStatement (cs : List Char) : Option (Shorter Line cs) :=
  match cs with
  | '[' :: rest => (readHeader rest).map .skip
  | cs => do
    let key ← readKeyEquals cs
    let value ← readValue nestingLimit key.rest
    return (key.next value).map (.entry key.result)

/-- The first line of a text. -/
def readLine (c : Char) (cs : List Char) : Option (Shorter Line (c :: cs)) :=
  match h : endLine? (c :: cs) with
  | some rest => some ⟨.empty, rest, length_of_endLine?_cons h⟩
  | none => do
    let line ← readStatement ((c :: cs).dropWhile isLineBlank)
    match h' : endLine? line.rest with
    | some rest => return (line.within rest (length_of_endLine? h')).behind
    | none => none

/-- The lines of a text. -/
def readDocument (cs : List Char) : Option (List Line) :=
  match cs with
  | [] => some []
  | c :: rest => do
    let line ← readLine c rest
    let lines ← readDocument line.rest
    return line.result :: lines
termination_by cs.length
decreasing_by exact line.shorter

/-- The values before the first header of some lines, and their sections. -/
def sections : List Line → List (List String × Value) × List Section
  | [] => ([], [])
  | .empty :: lines => sections lines
  | .entry key value :: lines =>
    let (values, rest) := sections lines
    ((key, value) :: values, rest)
  | .header path listed :: lines =>
    let (values, rest) := sections lines
    ([], ⟨path, listed, values⟩ :: rest)

/-- The table of a text. -/
def parse? (text : String) : Option Entries := do
  let lines ← readDocument (dropByteOrderMark text.toList)
  let (values, rest) := sections lines
  document values rest

end SwiftDecls.Toml
