import SwiftDecls.Text.PrintableTable
import SwiftDecls.Text.Ranges

/-!
# Quoted texts in messages

A message quotes a text between double quotes. Backslash, the quote and the controls with a
name are written with a backslash; a character with no visible form of its own, or one that
would combine with the character before it, is written by its code point.
-/

set_option autoImplicit false

namespace SwiftDecls.Text

/-- A character by its code point in lower-case hexadecimal. -/
def codeEscape (c : Char) : List Char :=
  "\\u\x7b".toList ++ Nat.toDigits 16 c.toNat ++ ['\x7d']

/-- How a character is written in a quoted text. -/
def quoteChar (c : Char) : List Char :=
  if c = '\x00' then ['\\', '0']
  else if c = '\t' then ['\\', 't']
  else if c = '\r' then ['\\', 'r']
  else if c = '\n' then ['\\', 'n']
  else if c = '\\' ∨ c = '"' then ['\\', c]
  else if inRanges extenderRanges c || inRanges invisibleRanges c then codeEscape c
  else [c]

/-- A text between double quotes. -/
def quoteText (text : String) : String :=
  String.ofList ('"' :: text.toList.flatMap quoteChar ++ ['"'])

end SwiftDecls.Text
