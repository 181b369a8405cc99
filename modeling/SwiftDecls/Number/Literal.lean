import SwiftDecls.Number.Shortest

/-!
# Number literals

A literal is a sign, digits, and optionally a fraction and an exponent. It stands for an
integer if it has neither and fits into 64 bits, and for a double otherwise. The double is
computed from the digits that fit into 64 bits, the rest counting as powers of ten, by one
rounded multiplication or division; a magnitude without a finite double is out of range.
-/

set_option autoImplicit false

namespace SwiftDecls.Number

/-- The exponent of a literal. -/
structure Exponent where
  negative : Bool
  digits : List Char
deriving DecidableEq, Repr

/-- A number as it is written. -/
structure Literal where
  negative : Bool
  whole : List Char
  fraction : Option (List Char) := none
  exponent : Option Exponent := none
deriving DecidableEq, Repr

/-- What a literal stands for; a double is kept as its text. -/
inductive Value where
  | natural (n : Nat)
  /-- The negative of a positive number. -/
  | negative (n : Nat)
  | double (text : String)
deriving DecidableEq, Repr

/-- The first number that takes more than 64 bits. -/
def wordLimit : Nat := 0x10000000000000000

/-- The value of a digit. -/
def digitValue (c : Char) : Nat := c.toNat - '0'.toNat

/-- Appends digits to a number while it fits into 64 bits; the digits left over with it. -/
def appendDigits (n : Nat) : List Char → Nat × List Char
  | [] => (n, [])
  | c :: rest =>
    let next := n * 10 + digitValue c
    if next < wordLimit then appendDigits next rest else (n, c :: rest)

/-- The exponent of the greatest power of ten that is a double. -/
def greatestPower : Nat := 308

theorem sub_greatestPower_lt {places : Nat} (h : ¬places ≤ greatestPower) :
    places - greatestPower < places :=
  Nat.sub_lt (Nat.zero_lt_of_lt (Nat.lt_of_not_le h)) (by decide)

/-- A double divided by a power of ten, in steps that are themselves doubles. -/
def scaleDown (x : Float) (places : Nat) : Float :=
  if _h : places ≤ greatestPower then x / Float.ofScientific 1 false places
  else if x == 0 then x
  else scaleDown (x / Float.ofScientific 1 false greatestPower) (places - greatestPower)
termination_by places
decreasing_by exact sub_greatestPower_lt _h

/-- The double of `significand * 10 ^ exponent`, if it is finite. -/
def scale? (significand : Nat) (exponent : Int) : Option Float :=
  let x := Float.ofNat significand
  if exponent < 0 then some (scaleDown x exponent.natAbs)
  else if exponent ≤ greatestPower then
    let y := x * Float.ofScientific 1 false exponent.toNat
    if y.isFinite then some y else none
  else if x == 0 then some x
  else none

/-- The greatest exponent that is computed with. -/
def exponentLimit : Nat := 0x80000000

/-- An exponent within 32 bits. -/
def clampExponent (e : Int) : Int := max (-(exponentLimit : Int)) (min (exponentLimit - 1) e)

namespace Literal

/-- The digits that count: their number, the power of ten that the others stand for, and
whether the literal is an integer within 64 bits. -/
def significand (l : Literal) : Nat × Int × Bool :=
  let (n, left) := appendDigits 0 l.whole
  match l.fraction with
  | none => (n, left.length, left.isEmpty)
  | some digits =>
    let (m, cut) := appendDigits n digits
    (m, (left.length : Int) - (digits.length - cut.length : Nat), false)

/-- The double of a literal without its sign, if it is finite. -/
def magnitude? (l : Literal) : Option Float :=
  let (n, shift, _) := l.significand
  match l.exponent with
  | none => scale? n shift
  | some e =>
    let value := e.digits.foldl (fun v c => v * 10 + digitValue c) 0
    if exponentLimit ≤ value then if n ≠ 0 ∧ !e.negative then none else some 0
    else scale? n (clampExponent (if e.negative then shift - value else shift + value))

/-- What a literal stands for; `none` if that is out of range. -/
def value? (l : Literal) : Option Value :=
  match l.significand, l.exponent with
  | (n, _, true), none =>
    if !l.negative then some (.natural n)
    else if 0 < n ∧ n ≤ wordLimit / 2 then some (.negative n)
    else some (.double (doubleText (-(Float.ofNat n))))
  | _, _ => l.magnitude?.map fun x => .double (doubleText (if l.negative then -x else x))

end Literal

end SwiftDecls.Number
