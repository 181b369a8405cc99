import SwiftDecls.Text.Digits

/-!
# References

A reference stands for a character by name or by its number, in decimal digits after `#` and in
hexadecimal ones after `#x`. The number may have a plus sign. A reference that stands for no
character stands for itself.
-/

set_option autoImplicit false

namespace SwiftDecls.Xml

open Text

/-- The characters that have names. -/
def namedCharacters : List (String × Char) :=
  [("lt", '<'), ("gt", '>'), ("amp", '&'), ("quot", '"'), ("apos", '\'')]

/-- The number that digits with an optional plus sign stand for; there has to be a digit. -/
def numberIn? (base : Nat) (cs : List Char) : Option Nat :=
  match cs with
  | [] | ['+'] => none
  | '+' :: digits => digitsIn? base digits
  | digits => digitsIn? base digits

/-- The character that a reference stands for. -/
def referenced? (name : List Char) : Option Char :=
  match namedCharacters.lookup (String.ofList name) with
  | some c => some c
  | none =>
    match name with
    | '#' :: 'x' :: digits => (numberIn? 16 digits).bind charOf?
    | '#' :: digits => (numberIn? 10 digits).bind charOf?
    | _ => none

/-- The text of a reference. -/
def referenceText (name : List Char) : List Char :=
  match referenced? name with
  | some c => [c]
  | none => '&' :: name ++ [';']

end SwiftDecls.Xml
