/-!
# Writing indented source text

A `Writer` holds the text so far and the nesting depth. A line is indented by four blanks per
level unless it is empty; a text with line feeds is several lines. A block is a header with an
opening brace, a body one level deeper, a closing brace with a suffix, and an empty line.
-/

set_option autoImplicit false

namespace SwiftDecls.Source

/-- Source text under construction. -/
structure Writer where
  text : String := ""
  depth : Nat := 0

/-- What one level of nesting puts in front of a line. -/
def indentUnit : List Char := [' ', ' ', ' ', ' ']

/-- What `depth` levels of nesting put in front of a line. -/
def indentation (depth : Nat) : List Char := (List.replicate depth indentUnit).flatten

/-- A line as it stands in the text: indented unless empty, with its line feed. -/
def indentLine (depth : Nat) (line : List Char) : List Char :=
  (if line.isEmpty then [] else indentation depth ++ line) ++ ['\n']

/-- The lines of a text, each indented. -/
def indentLines (depth : Nat) (text : String) : String :=
  String.ofList ((text.toList.splitOn '\n').flatMap (indentLine depth))

namespace Writer

/-- Appends a text that is already laid out. -/
def append (w : Writer) (text : String) : Writer := { w with text := w.text ++ text }

/-- Appends the lines of a text at the current depth. -/
def line (w : Writer) (text : String) : Writer := w.append (indentLines w.depth text)

/-- Appends an empty line. -/
def blank (w : Writer) : Writer := w.append "\n"

/-- Goes one level deeper. -/
def deeper (w : Writer) : Writer := { w with depth := w.depth + 1 }

/-- Comes one level back. -/
def back (w : Writer) : Writer := { w with depth := w.depth - 1 }

/-- The first line of a block; what follows is its body. -/
def openBlock (w : Writer) (header : String) : Writer := (w.line (header ++ " \x7b")).deeper

/-- The end of a block: its closing brace one level back and the empty line after it. -/
def closeBlock (w : Writer) (suffix : String) : Writer := (w.back.line ("\x7d" ++ suffix)).blank

@[simp] theorem back_deeper (w : Writer) : w.deeper.back = w := rfl

@[simp] theorem depth_append (w : Writer) (text : String) : (w.append text).depth = w.depth := rfl

@[simp] theorem text_append (w : Writer) (text : String) :
    (w.append text).text = w.text ++ text := rfl

@[simp] theorem depth_line (w : Writer) (text : String) : (w.line text).depth = w.depth := rfl

@[simp] theorem text_line (w : Writer) (text : String) :
    (w.line text).text = w.text ++ indentLines w.depth text := rfl

@[simp] theorem depth_blank (w : Writer) : w.blank.depth = w.depth := rfl

@[simp] theorem text_blank (w : Writer) : w.blank.text = w.text ++ "\n" := rfl

@[simp] theorem depth_openBlock (w : Writer) (header : String) :
    (w.openBlock header).depth = w.depth + 1 := rfl

@[simp] theorem depth_closeBlock (w : Writer) (suffix : String) :
    (w.closeBlock suffix).depth = w.depth - 1 := rfl

end Writer

end SwiftDecls.Source
