import SwiftDecls.Text.Pieces
import SwiftDecls.Toml.Quoted

/-!
# TOML scalars without quotes

Truth values, integers in four bases, floating-point numbers, dates and times. A scalar that
nothing asks for has to look like one: its start says which kind it is, and the kind says what
is looked at. Of a decimal integer with underscores only the characters around them are, so that
`1_a` and `1_2-3` pass, and `0x` passes without a digit.
-/

set_option autoImplicit false

namespace SwiftDecls.Toml

open Text

/-! ## Numbers -/

/-- A text without a sign at its start. -/
def dropSign : List Char → List Char
  | '+' :: rest => rest
  | '-' :: rest => rest
  | cs => cs

/-- A text starts with a sign. -/
def isSigned (cs : List Char) : Bool := cs.head? == some '+' || cs.head? == some '-'

/-- A hexadecimal digit. -/
def isHexDigit (c : Char) : Bool := (hexDigit? c).isSome

/-- A decimal digit or an underscore. -/
def isDigitPart (c : Char) : Bool := c.isDigit || c == '_'

/-- Every underscore is between two digits; `allowed` says whether one may be at the front. -/
def underscoresFit (isDigit : Char → Bool) (allowed : Bool) : List Char → Bool
  | [] => true
  | c :: rest =>
    if c = '_' then allowed && rest.head?.any isDigit && underscoresFit isDigit false rest
    else underscoresFit isDigit (isDigit c) rest

/-- A number starts with a zero that it does not need. -/
def hasSpareZero (cs : List Char) : Bool := cs.head? == some '0' && 1 < cs.length

/-- Digits in a base, perhaps none, with underscores between them. -/
def isDigitRun (isDigit : Char → Bool) (cs : List Char) : Bool :=
  cs.all (fun c => isDigit c || c == '_') && underscoresFit isDigit false cs

/-- Digits in a base that their prefix names. -/
def isPrefixed (cs : List Char) : Bool :=
  match cs with
  | '0' :: 'x' :: digits => isDigitRun isHexDigit digits
  | '0' :: 'o' :: digits => isDigitRun (fun c => '0' ≤ c && c ≤ '7') digits
  | '0' :: 'b' :: digits => isDigitRun (fun c => c == '0' || c == '1') digits
  | _ => false

/-- The rest behind decimal digits, of which there is one at least, and underscores. -/
def dropDigits? (cs : List Char) : Option (List Char) :=
  if (cs.takeWhile isDigitPart).any Char.isDigit then some (cs.dropWhile isDigitPart) else none

/-- The rest behind the fraction of a number, if there is one. -/
def dropDecimals? : List Char → Option (List Char)
  | '.' :: rest => dropDigits? rest
  | cs => some cs

/-- The rest behind the exponent of a number, if there is one. -/
def dropExponent? : List Char → Option (List Char)
  | c :: rest => if c = 'e' ∨ c = 'E' then dropDigits? (dropSign rest) else some (c :: rest)
  | [] => some []

/-- A floating-point number after its sign, if it has one. -/
def isFloat (signed : Bool) (cs : List Char) : Bool :=
  !hasSpareZero (cs.takeWhile isDigitPart) &&
    ((dropDigits? cs).bind dropDecimals?).bind dropExponent? == some [] &&
    underscoresFit Char.isDigit signed cs

/-- A decimal number after its sign, if it has one. A point or the mark of an exponent makes it
a floating-point number. -/
def isDecimal (signed : Bool) (cs : List Char) : Bool :=
  let rest := cs.dropWhile Char.isDigit
  if rest.any fun c => c == '.' || c == 'e' || c == 'E' then isFloat signed cs
  else if rest.isEmpty then !cs.isEmpty && !hasSpareZero cs
  else rest.head? == some '_' && !rest.contains ' ' && !hasSpareZero cs &&
    underscoresFit isHexDigit signed cs

/-- A number. -/
def isNumber (cs : List Char) : Bool :=
  isPrefixed cs || isDecimal (isSigned cs) (dropSign cs) || dropSign cs == "inf".toList ||
    dropSign cs == "nan".toList

/-! ## Dates and times -/

/-- The number that so many digits at the front of a text stand for, and the rest. -/
def takeDigits? (count : Nat) (cs : List Char) : Option (Nat × List Char) :=
  let digits := cs.take count
  if digits.length = count ∧ digits.all Char.isDigit then
    some (digits.foldl (fun n c => n * 10 + (c.toNat - '0'.toNat)) 0, cs.drop count)
  else none

/-- What follows a character. -/
def after? (c : Char) (cs : List Char) : Option (List Char) := dropPrefix? [c] cs

/-- A year with a day more. -/
def isLeapYear (year : Nat) : Bool := year % 4 == 0 && (year % 100 != 0 || year % 400 == 0)

/-- The number of days in a month. -/
def daysIn (year month : Nat) : Nat :=
  if month = 2 then if isLeapYear year then 29 else 28
  else if month ∈ [4, 6, 9, 11] then 30
  else 31

/-- The rest behind a date. -/
def dropDate? (cs : List Char) : Option (List Char) := do
  let (year, cs) ← takeDigits? 4 cs
  let (month, cs) ← takeDigits? 2 (← after? '-' cs)
  let (day, cs) ← takeDigits? 2 (← after? '-' cs)
  if 1 ≤ month ∧ month ≤ 12 ∧ 1 ≤ day ∧ day ≤ daysIn year month then return cs else none

/-- The rest behind hours and minutes. -/
def dropMinutes? (cs : List Char) : Option (List Char) := do
  let (hour, cs) ← takeDigits? 2 cs
  let (minute, cs) ← takeDigits? 2 (← after? ':' cs)
  if hour ≤ 23 ∧ minute ≤ 59 then return cs else none

/-- The rest behind a fraction of a second, if there is one. -/
def dropFraction? (cs : List Char) : Option (List Char) :=
  match cs with
  | '.' :: c :: rest => if c.isDigit then some (rest.dropWhile Char.isDigit) else none
  | ['.'] => none
  | cs => some cs

/-- The rest behind a time. Seconds may be missing. -/
def dropTime? (cs : List Char) : Option (List Char) := do
  let cs ← dropMinutes? cs
  match cs with
  | ':' :: rest =>
    let (second, rest) ← takeDigits? 2 rest
    if second ≤ 60 then dropFraction? rest else none
  | cs => return cs

/-- The distance of a time from Greenwich, or nothing. -/
def isOffset (cs : List Char) : Bool :=
  match cs with
  | [] | ['Z'] | ['z'] => true
  | '+' :: rest | '-' :: rest => dropMinutes? rest == some []
  | _ => false

/-- A time on its own. -/
def isTime (cs : List Char) : Bool := dropTime? cs == some []

/-- A time behind a date. -/
def isTimeOfDate (cs : List Char) : Bool :=
  match dropTime? cs with
  | some rest => isOffset rest
  | none => false

/-- A date, alone or with a time behind a `T` or a blank. -/
def isDateTime (cs : List Char) : Bool :=
  match dropDate? cs with
  | some [] => true
  | some (c :: rest) => (c == 'T' || c == 't' || c == ' ') && isTimeOfDate rest
  | none => false

/-! ## Reading scalars -/

/-- A character of a scalar. -/
def isScalarChar (c : Char) : Bool := !"=,[]\x7b\x7d# \t\r\n".toList.contains c

/-- Behind blanks another word comes that belongs to the same scalar. -/
def wordFollows (cs : List Char) : Bool :=
  (cs.dropWhile isLineBlank).head?.any fun c => isScalarChar c && !isQuote c

/-- The words of a scalar with the blanks between them, and the rest. -/
def cutScalar : List Char → List Char × List Char
  | [] => ([], [])
  | c :: rest =>
    if isScalarChar c || (isLineBlank c && wordFollows rest) then
      (c :: (cutScalar rest).1, (cutScalar rest).2)
    else ([], c :: rest)

/-- A well-formed scalar. -/
def isScalar (cs : List Char) : Bool :=
  cs == "true".toList || cs == "false".toList || isNumber cs || isDateTime cs || isTime cs

/-- The rest behind a scalar. -/
def dropScalar? (cs : List Char) : Option (List Char) :=
  if isScalar (cutScalar cs).1 then some (cutScalar cs).2 else none

theorem cutScalar_append (cs : List Char) : (cutScalar cs).1 ++ (cutScalar cs).2 = cs := by
  induction cs with
  | nil => rfl
  | cons c rest ih =>
    unfold cutScalar
    split
    · rw [List.cons_append, ih]
    · rfl

theorem length_of_dropScalar? {cs rest : List Char} (h : dropScalar? cs = some rest) :
    rest.length < cs.length := by
  unfold dropScalar? at h
  split at h
  · rename_i hs
    cases h
    conv => rhs; rw [← cutScalar_append cs]
    rw [List.length_append]
    cases hw : (cutScalar cs).1 with
    | nil =>
      rw [hw] at hs
      exact absurd hs (by decide)
    | cons c word => exact Nat.lt_add_of_pos_left (Nat.succ_pos word.length)
  · cases h

end SwiftDecls.Toml
