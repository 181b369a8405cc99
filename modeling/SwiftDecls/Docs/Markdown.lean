import SwiftDecls.Naming
import SwiftDecls.TypeName

/-!
# From manual markup to Markdown

The manual is written with bracketed tags. `toMarkdown` copies text and replaces tags: a tag
with a fixed meaning by its Markdown, a link by a Markdown link, a reference to a symbol by a
symbol link between double backticks. A tag without a meaning stays as it is, and so does the
rest of the text from a bracket that is never closed.

The conversion is a fold over the characters (`Conversion.step`). Its state is what has been
written, the target of an open link, and the tag that is being read.
-/

set_option autoImplicit false

namespace SwiftDecls.Markdown

open Text Naming

/-- The tags that always turn into the same text. -/
def fixedTags : List (String × String) := [
  ("b", "**"), ("/b", "**"), ("i", "_"), ("/i", "_"), ("code", "`"), ("/code", "`"),
  ("kbd", "`"), ("/kbd", "`"), ("br", "\n"), ("codeblock", "\n```\n"), ("/codeblock", "\n```\n"),
  ("/gdscript", "\n```\n"), ("/csharp", "\n```\n"), ("gdscript", "\n```gdscript\n"),
  ("csharp", "\n```csharp\n"), ("codeblocks", ""), ("/codeblocks", "")]

/-- The kinds of reference that point at a member of a class. -/
def memberKinds : List String := ["method", "member", "signal", "theme_item"]

/-- The kinds of reference that are shown by name. -/
def nameKinds : List String := ["constant", "enum", "param", "annotation"]

/-- A link to a symbol. -/
def symbolLink (symbol : String) : String := "``" ++ symbol ++ "``"

/-- The symbol of a member: its owner, a slash and its Swift name. The owner is written before
the last dot of the target, or is the class that the text documents. -/
def memberSymbol (owner : Option String) (target : String) : String :=
  match cutAtLast? '.' target.toList, owner with
  | some (written, name), _ => String.ofList written ++ "/" ++ camel (String.ofList name)
  | none, some owner => owner ++ "/" ++ camel target
  | none, none => camel target

/-- A type is referred to by a capital and letters or digits, with an optional `@` in front. -/
def isTypeReference (tag : String) : Bool :=
  match (dropPrefix? ['@'] tag.toList).getD tag.toList with
  | c :: rest => c.isUpper && rest.all Char.isAlphanum
  | [] => false

/-- The text of a tag that refers to a symbol. -/
def referenceText? (owner : Option String) (tag : String) : Option String :=
  match cutAt? ' ' tag.toList with
  | some (kind, target) =>
    if memberKinds.contains (String.ofList kind) then
      some (symbolLink (memberSymbol owner (String.ofList target)))
    else if nameKinds.contains (String.ofList kind) then
      some (symbolLink (String.ofList target))
    else none
  | none => if isTypeReference tag then some (symbolLink (swiftTypeName tag)) else none

/-- How far a conversion has come: the characters written, last one first, the target of the
open link, and the characters of the open tag, last one first. -/
structure Conversion where
  written : List Char := []
  link : Option String := none
  tag : Option (List Char) := none

namespace Conversion

/-- Writes a text. -/
def write (s : Conversion) (text : String) : Conversion :=
  { s with written := text.toList.reverse ++ s.written }

/-- Replaces a tag. Only the tags of links read or change the target. -/
def closeTag (owner : Option String) (s : Conversion) (tag : String) : Conversion :=
  match fixedTags.lookup tag with
  | some text => s.write text
  | none =>
    if tag = "url" then { s.write "[" with link := none }
    else if tag = "/url" then
      match s.link with
      | some target => { s.write ("](" ++ target ++ ")") with link := none }
      | none => s.write "]"
    else
      match dropPrefix? "url=".toList tag.toList with
      | some target => { s.write "[" with link := some (String.ofList target) }
      | none => s.write ((referenceText? owner tag).getD ("[" ++ tag ++ "]"))

/-- Takes one character. -/
def step (owner : Option String) (s : Conversion) (c : Char) : Conversion :=
  match s.tag with
  | none => if c = '[' then { s with tag := some [] } else { s with written := c :: s.written }
  | some tag =>
    if c = ']' then closeTag owner { s with tag := none } (String.ofList tag.reverse)
    else { s with tag := some (c :: tag) }

/-- The text at the end of the conversion; an open tag stays as it is. -/
def finish (s : Conversion) : List Char :=
  match s.tag with
  | none => s.written.reverse
  | some tag => s.written.reverse ++ '[' :: tag.reverse

end Conversion

/-- Converts manual text that documents `owner`. -/
def toMarkdown (owner : Option String) (text : String) : String :=
  String.ofList (text.toList.foldl (Conversion.step owner) {}).finish

/-- Text without brackets is copied. -/
theorem foldl_step_of_no_bracket (owner : Option String) {cs : List Char} (h : '[' ∉ cs)
    (s : Conversion) (hs : s.tag = none) :
    cs.foldl (Conversion.step owner) s = { s with written := cs.reverse ++ s.written } := by
  induction cs generalizing s with
  | nil => simp
  | cons c rest ih =>
    simp only [List.mem_cons, not_or] at h
    have hstep : Conversion.step owner s c = { s with written := c :: s.written } := by
      simp [Conversion.step, hs, Ne.symm h.1]
    rw [List.foldl_cons, hstep, ih h.2 { s with written := c :: s.written } hs]
    simp

end SwiftDecls.Markdown
