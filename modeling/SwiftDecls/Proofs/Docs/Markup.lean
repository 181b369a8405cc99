import SwiftDecls.Proofs.Docs.Markdown

/-!
# Markup as trees

A manual is a tree of texts, tags in pairs, links, references and tags without a meaning. `print` is
the text in which the manual's authors write it down, and `render` its Markdown, put together from
the Markdown of its parts: a pair of tags is its two marks around its body, and a link ends with its
own target.

**Theorem (`toMarkdown_print`).** The conversion, which sees characters and one open link, gives the
Markdown of the tree.

Links do not stand in links. That is a matter of types: what links there are is a parameter of
trees, and there are none in the body of a link. So one induction over trees serves both levels
(`Markup.converts`): in a body the target of its link stays open, as no link is in the way, and
outside links no target is open at either end of a link.
-/

set_option autoImplicit false

namespace SwiftDecls.Markdown

/-! ## Trees -/

/-- The tags that come in pairs. -/
inductive PairedTag where
  | bold
  | italic
  | code
  | keyboard
  | codeBlock
  | codeBlocks
  | gdscript
  | csharp

namespace PairedTag

/-- The first tag of a pair; the second has a slash in front. -/
def name : PairedTag → String
  | bold => "b"
  | italic => "i"
  | code => "code"
  | keyboard => "kbd"
  | codeBlock => "codeblock"
  | codeBlocks => "codeblocks"
  | gdscript => "gdscript"
  | csharp => "csharp"

/-- What goes in front of the body. -/
def before : PairedTag → String
  | bold => "**"
  | italic => "_"
  | code => "`"
  | keyboard => "`"
  | codeBlock => "\n```\n"
  | codeBlocks => ""
  | gdscript => "\n```gdscript\n"
  | csharp => "\n```csharp\n"

/-- What goes behind the body. -/
def after : PairedTag → String
  | bold => "**"
  | italic => "_"
  | code => "`"
  | keyboard => "`"
  | codeBlock => "\n```\n"
  | codeBlocks => ""
  | gdscript => "\n```\n"
  | csharp => "\n```\n"

end PairedTag

/-- A tree of markup, with links as `Link` has them. -/
inductive Markup (Link : Type) where
  | text (words : String) (plain : '[' ∉ words.toList)
  | lineBreak
  | paired (tag : PairedTag) (body : List (Markup Link))
  | reference (r : Reference) (closed : ']' ∉ r.tag.toList)
  | unknown (tag : String) (closed : ']' ∉ tag.toList) (isUnknown : IsUnknown tag)
  | link (l : Link)

/-- A link, with a target or without one. There are no links in its body. -/
structure Link where
  target : Option String
  closed : ∀ t ∈ target, ']' ∉ t.toList
  body : List (Markup Empty)

namespace Markup

variable {Link : Type}

mutual

/-- The text of a tree, given the texts of links. -/
def print (printLink : Link → String) : Markup Link → String
  | .text words _ => words
  | .lineBreak => bracketed "br"
  | .paired tag body =>
    bracketed tag.name ++ printAll printLink body ++ bracketed ("/" ++ tag.name)
  | .reference r _ => bracketed r.tag
  | .unknown tag _ _ => bracketed tag
  | .link l => printLink l

/-- The text of trees one after the other. -/
def printAll (printLink : Link → String) : List (Markup Link) → String
  | [] => ""
  | m :: rest => m.print printLink ++ printAll printLink rest

end

mutual

/-- The Markdown of a tree that documents `owner`, given the Markdown of links. -/
def render (owner : Option String) (renderLink : Link → String) : Markup Link → String
  | .text words _ => words
  | .lineBreak => "\n"
  | .paired tag body => tag.before ++ renderAll owner renderLink body ++ tag.after
  | .reference r _ => "``" ++ r.symbol owner ++ "``"
  | .unknown tag _ _ => bracketed tag
  | .link l => renderLink l

/-- The Markdown of trees one after the other. -/
def renderAll (owner : Option String) (renderLink : Link → String) : List (Markup Link) → String
  | [] => ""
  | m :: rest => m.render owner renderLink ++ renderAll owner renderLink rest

end

end Markup

namespace Link

/-- The text of a link. -/
def print (l : Link) : String :=
  bracketed (linkTag l.target) ++ Markup.printAll Empty.elim l.body ++ bracketed "/url"

/-- The Markdown of a link. -/
def render (owner : Option String) (l : Link) : String :=
  "[" ++ Markup.renderAll owner Empty.elim l.body ++ linkEnd l.target

end Link

/-- The text of a manual. -/
def printManual (manual : List (Markup Link)) : String := Markup.printAll Link.print manual

/-- The Markdown of a manual. -/
def renderManual (owner : Option String) (manual : List (Markup Link)) : String :=
  Markup.renderAll owner (Link.render owner) manual

/-! ## Trees are converted part by part -/

namespace Markup

variable {Link : Type} {owner opened : Option String} {printLink renderLink : Link → String}

mutual

/-- A tree turns into its Markdown if its links do. -/
theorem converts (hlinks : ∀ l, Converts owner opened (printLink l) (renderLink l)) :
    (m : Markup Link) → Converts owner opened (m.print printLink) (m.render owner renderLink)
  | .text _ plain => by
    rw [print, render]
    exact .text plain
  | .lineBreak => by
    have hbreak : ("br", "\n") ∈ fixedTags := by decide
    rw [print, render]
    exact .fixed hbreak
  | .paired tag body => by
    have hbefore : (tag.name, tag.before) ∈ fixedTags := by cases tag <;> decide
    have hafter : ("/" ++ tag.name, tag.after) ∈ fixedTags := by cases tag <;> decide
    rw [print, render]
    exact ((Converts.fixed hbefore).append (convertsAll hlinks body)).append (.fixed hafter)
  | .reference r closed => by
    rw [print, render]
    exact .reference r closed
  | .unknown tag closed isUnknown => by
    rw [print, render]
    exact .unknown closed isUnknown
  | .link l => by
    rw [print, render]
    exact hlinks l

/-- Trees turn into their Markdown if their links do. -/
theorem convertsAll (hlinks : ∀ l, Converts owner opened (printLink l) (renderLink l)) :
    (ms : List (Markup Link)) →
      Converts owner opened (printAll printLink ms) (renderAll owner renderLink ms)
  | [] => by
    rw [printAll, renderAll]
    exact .nil
  | m :: rest => by
    rw [printAll, renderAll]
    exact (m.converts hlinks).append (convertsAll hlinks rest)

end

end Markup

/-- A link turns into its Markdown. -/
theorem Link.converts (owner : Option String) (l : Link) :
    Converts owner none l.print (l.render owner) := by
  have hbody : Converts owner l.target (Markup.printAll Empty.elim l.body)
      (Markup.renderAll owner Empty.elim l.body) := Markup.convertsAll nofun l.body
  refine .link ?_ hbody
  cases htarget : l.target with
  | none => decide
  | some target =>
    have hclosed := l.closed target htarget
    simp [linkTag, hclosed]

/-- **A manual turns into the Markdown of its tree.** -/
theorem toMarkdown_print (owner : Option String) (manual : List (Markup Link)) :
    toMarkdown owner (printManual manual) = renderManual owner manual :=
  (Markup.convertsAll (Link.converts owner) manual).toMarkdown_eq

example : toMarkdown (some "Node")
    "[b]see [url=u][i]x[/i][/url], [url]y[/url][/b][br][method get_name] of [String] [x_y]" =
    "**see [_x_](u), [y]**\n``Node/getName`` of ``GString`` [x_y]" := by decide +kernel

end SwiftDecls.Markdown
