/-!
# The shortest decimal of a double

A double stands for all reals that round to it. `shortest` finds the fewest decimal digits that
name a real among them, and of these the nearest to the double itself. The search is in exact
arithmetic: a positive double is `mantissa * 2 ^ exponent`, the reals that round to it are an
interval with ends halfway to its neighbours, and a decimal of `n` digits in the interval
exists only if one of the two next to the double does.
-/

set_option autoImplicit false

namespace SwiftDecls.Number

/-- A decimal: `digits * 10 ^ exponent`. -/
structure Decimal where
  digits : Nat
  exponent : Int
deriving DecidableEq, Repr

/-- The number of decimal digits. -/
def digitCount (n : Nat) : Nat := (Nat.toDigits 10 n).length

/-- A positive fraction. -/
structure Fraction where
  num : Nat
  den : Nat

namespace Fraction

/-- `n * 2 ^ e`. -/
def ofBinary (n : Nat) (e : Int) : Fraction := ⟨n <<< e.toNat, 1 <<< (-e).toNat⟩

/-- The fraction in units of `10 ^ e`. -/
def inUnits (x : Fraction) (e : Int) : Fraction :=
  ⟨x.num * Nat.pow 10 (-e).toNat, x.den * Nat.pow 10 e.toNat⟩

/-- The exponent of the leading decimal digit. -/
def leading (x : Fraction) : Int :=
  if x.den ≤ x.num then digitCount (x.num / x.den) - 1
  else -(digitCount ((x.den + x.num - 1) / x.num - 1) : Int)

/-- Order of fractions. -/
def le (x y : Fraction) : Bool := x.num * y.den ≤ y.num * x.den

/-- Strict order of fractions. -/
def lt (x y : Fraction) : Bool := x.num * y.den < y.num * x.den

end Fraction

/-- The reals that round to a double. -/
structure Interval where
  low : Fraction
  value : Fraction
  high : Fraction
  /-- The ends round to the double as well. -/
  closed : Bool

namespace Interval

/-- The interval of `mantissa * 2 ^ exponent`. Below a power of two the neighbour is nearer. -/
def ofParts (mantissa : Nat) (exponent : Int) (powerOfTwo : Bool) : Interval where
  low := .ofBinary (4 * mantissa - if powerOfTwo then 1 else 2) (exponent - 2)
  value := .ofBinary (4 * mantissa) (exponent - 2)
  high := .ofBinary (4 * mantissa + 2) (exponent - 2)
  closed := mantissa % 2 == 0

/-- `n` units of `10 ^ e` round to the double. -/
def holds (i : Interval) (n : Nat) (e : Int) : Bool :=
  let low := i.low.inUnits e
  let high := i.high.inUnits e
  let x : Fraction := ⟨n, 1⟩
  if i.closed then low.le x && x.le high else low.lt x && x.lt high

/-- The nearest of the two multiples of `10 ^ e` around the value, if it rounds to the double;
halfway the even one. -/
def nearest? (i : Interval) (e : Int) : Option Nat :=
  let v := i.value.inUnits e
  let n := v.num / v.den
  let twice := 2 * (v.num % v.den)
  let (first, second) :=
    if twice < v.den ∨ (twice = v.den ∧ n % 2 = 0) then (n, n + 1) else (n + 1, n)
  if i.holds first e then some first else if i.holds second e then some second else none

/-- Searches the decimals of `count` digits and more, `fuel` counts in all. -/
def search (i : Interval) (leading : Int) (count : Nat) : Nat → Decimal
  | 0 => ⟨i.value.num / i.value.den, 0⟩
  | fuel + 1 =>
    let e := leading - count + 1
    match i.nearest? e with
    | some n => ⟨n, e⟩
    | none => search i leading (count + 1) fuel

end Interval

/-- A decimal without zeros at its end, of at most `fuel` of them. -/
def Decimal.stripZeros (d : Decimal) : Nat → Decimal
  | 0 => d
  | fuel + 1 =>
    if d.digits % 10 = 0 ∧ d.digits ≠ 0 then
      stripZeros ⟨d.digits / 10, d.exponent + 1⟩ fuel
    else d

/-- The bits of a double behind its fraction count in multiples of this. -/
def fractionLimit : Nat := 0x10000000000000

/-- The bit of a double's sign. -/
def signBit : Nat := 0x8000000000000000

/-- The shortest decimal of a positive finite double, from its bits. Seventeen digits always
suffice. -/
def shortest (bits : Nat) : Decimal :=
  let fraction := bits % fractionLimit
  let field := bits / fractionLimit
  let mantissa := if field = 0 then fraction else fraction + fractionLimit
  let exponent : Int := (if field = 0 then 1 else field : Nat) - 1075
  let i := Interval.ofParts mantissa exponent (fraction == 0 && decide (1 < field))
  (i.search i.value.leading 1 17).stripZeros 17

/-- How decimals are laid out. -/
structure DecimalLayout where
  /-- The least exponent of a leading digit that is written positionally. -/
  least : Int
  /-- The greatest exponent of a leading digit that is written positionally. -/
  greatest : Int
  /-- What comes before an exponent that is not negative. -/
  exponentSign : String

/-- A text of zeros. -/
def zeros (n : Nat) : String := String.ofList (List.replicate n '0')

/-- A decimal as text. Positional texts always have a point with a digit after it. -/
def DecimalLayout.text (layout : DecimalLayout) (d : Decimal) : String :=
  let digits := Nat.toDigits 10 d.digits
  let leading : Int := d.exponent + digits.length - 1
  let shown := String.ofList digits
  if layout.least ≤ leading ∧ leading ≤ layout.greatest then
    if 0 ≤ d.exponent then shown ++ zeros d.exponent.toNat ++ ".0"
    else if 0 ≤ leading then
      String.ofList (digits.take (leading + 1).toNat) ++ "." ++
        String.ofList (digits.drop (leading + 1).toNat)
    else "0." ++ zeros (-leading - 1).toNat ++ shown
  else
    let point := if digits.length = 1 then "" else "."
    String.ofList (digits.take 1) ++ point ++ String.ofList (digits.drop 1) ++ "e" ++
      (if leading < 0 then "" else layout.exponentSign) ++ toString leading

/-- Decimals are positional from a hundred-thousandth to sixteen digits before the point. -/
def messageLayout : DecimalLayout := ⟨-5, 15, "+"⟩

/-- The text of a finite double in messages. -/
def doubleText (x : Float) : String :=
  let bits := x.toBits.toNat
  let sign := if bits < signBit then "" else "-"
  let magnitude := bits % signBit
  sign ++ (if magnitude = 0 then "0.0" else messageLayout.text (shortest magnitude))

end SwiftDecls.Number
