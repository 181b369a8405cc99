import SwiftDecls.Text.Ranges

/-!
# White space

`isBlank` is Unicode's `White_Space` property: the ASCII blanks with line tabulation and form
feed, the next-line control, and the spaces and separators beyond ASCII. `trim` removes blanks
from both ends of a text and nothing else. Formats that have their own idea of white space use
the four characters of `isSpace`.
-/

set_option autoImplicit false

namespace SwiftDecls.Text

/-- The white space characters. -/
def blankRanges : List (Nat × Nat) := [
  (9, 13), (32, 32), (133, 133), (160, 160), (5760, 5760), (8192, 8202), (8232, 8233),
  (8239, 8239), (8287, 8287), (12288, 12288)]

/-- A white space character. -/
def isBlank (c : Char) : Bool := inRanges blankRanges c

/-- The white space of JSON and of markup: blanks, tabs and both characters that end lines. -/
def isSpace (c : Char) : Bool := c == ' ' || c == '\t' || c == '\n' || c == '\r'

/-- A text without the blanks at its end. -/
def trimEnd (cs : List Char) : List Char := (cs.reverse.dropWhile isBlank).reverse

/-- A text without the blanks at its ends. -/
def trim (cs : List Char) : List Char := trimEnd (cs.dropWhile isBlank)

/-- A text of blanks only. -/
def isBlankText (cs : List Char) : Bool := cs.all isBlank

@[simp] theorem trim_nil : trim [] = [] := rfl

end SwiftDecls.Text
