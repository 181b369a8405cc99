import SwiftDecls.Docs.Markdown
import SwiftDecls.Source.Step
import SwiftDecls.Text.Blank

/-!
# Documentation comments

Manual text goes in front of a declaration as a block of `///` lines: the trimmed lines of its
Markdown, from the first that is not blank to the last. Each line of the text is one comment
line, so no text can leave its comment.
-/

set_option autoImplicit false

namespace SwiftDecls

open Text Source

/-- A list without the empty texts at its end. -/
def dropEmptyEnd (lines : List (List Char)) : List (List Char) :=
  (lines.reverse.dropWhile List.isEmpty).reverse

/-- The trimmed lines of a text from the first that is not blank to the last. -/
def commentLines (text : String) : List (List Char) :=
  dropEmptyEnd (((text.toList.splitOn '\n').map trim).dropWhile List.isEmpty)

/-- A line of a documentation comment. -/
def commentLine (line : List Char) : String :=
  if line.isEmpty then "///" else "/// " ++ String.ofList line

/-- The comment for manual text that documents `owner`. -/
def docComment (owner : Option String) (text : String) : List Step :=
  (commentLines (Markdown.toMarkdown owner text)).map fun line => .line (commentLine line)

end SwiftDecls
