import Mathlib.Data.List.Forall2
import SwiftDecls.Proofs.Docs.Erasure
import SwiftDecls.Proofs.Text.Ends
import SwiftDecls.Proofs.Text.Pieces

/-!
# What a comment writes

A manual's text may hold anything, and its conversion adds line feeds of its own. It is written line
by line nevertheless, each line behind three slashes (`IsCommentLine`), and which lines are written
is said by taking ends off twice: the blanks off every line, and then the empty lines off the whole
(`CommentOf`).

**Theorem (`writesComment`).** Whatever text is written as a comment stays in the comment.
-/

set_option autoImplicit false

namespace SwiftDecls

open Source Text

/-- The line of a comment that shows an empty line. -/
def bareLine (depth : Nat) : List Char := List.replicate (4 * depth) ' ' ++ "///".toList

/-- How a line of a comment is written at a depth. -/
inductive IsCommentLine (depth : Nat) : List Char → List Char → Prop where
  | bare : IsCommentLine depth [] (bareLine depth)
  | words {words : List Char} (ne_nil : words ≠ []) (lineFeed : '\n' ∉ words)
      (first : ∀ c ∈ words.head?, isBlank c = false)
      (last : ∀ c ∈ words.getLast?, isBlank c = false) :
      IsCommentLine depth words (List.replicate (4 * depth) ' ' ++ "/// ".toList ++ words)

/-- The trimmed lines of a text, and those of them from the first that is not empty to the last. -/
structure CommentOf (text : String) (lines comment : List (List Char)) : Prop where
  trimmed : List.Forall₂ (StripsTo isBlank) (textLines text) lines
  fromFirstToLast : StripsTo List.isEmpty lines comment

/-- Between `w` and `after` a comment is written, with `added` for the lines of `markdown`. -/
structure WritesComment (w after : Writer) (markdown : String) (added : List (List Char)) :
    Prop where
  depth : after.depth = w.depth
  text : after.text = w.text ++ unlines added
  lines : ∃ lines comment, CommentOf markdown lines comment ∧
    List.Forall₂ (IsCommentLine w.depth) comment added
  first : ∀ line ∈ added.head?, line ≠ bareLine w.depth
  last : ∀ line ∈ added.getLast?, line ≠ bareLine w.depth
  unchanged_iff : after.text = w.text ↔ ∀ c ∈ markdown.toList, isBlank c = true

/-! ## The lines of a text that a comment takes -/

theorem commentOf (text : String) :
    CommentOf text ((textLines text).map trim) (commentLines text) where
  trimmed := by
    rw [List.forall₂_map_right_iff, List.forall₂_same]
    exact fun line _ => stripsTo_trim line
  fromFirstToLast := stripsTo_rdropWhile List.isEmpty _

/-- Nothing is left of a text of blanks, and of no other text. -/
theorem commentLines_eq_nil_iff {text : String} :
    commentLines text = [] ↔ ∀ c ∈ text.toList, isBlank c = true := by
  rw [(commentOf text).fromFirstToLast.eq_nil_iff, List.forall_mem_map]
  have hline : ∀ line, (trim line).isEmpty = true ↔ ∀ c ∈ line, isBlank c = true := fun line => by
    rw [List.isEmpty_iff, (stripsTo_trim line).eq_nil_iff]
  constructor
  · intro h c hc
    rcases mem_textLines_of_mem hc with rfl | ⟨line, hmem, hc⟩
    · decide
    · exact (hline line).1 (h line hmem) c hc
  · intro h line hmem
    exact (hline line).2 fun c hc => h c ((of_mem_splitOn hmem).2 c hc)

/-! ## How they are written -/

theorem indented_of_ne_nil {depth : Nat} {line : List Char} (h : line ≠ []) :
    indented depth line = List.replicate (4 * depth) ' ' ++ line := by
  rw [indented, if_neg (by simpa using h), indentation_eq_replicate]

theorem isCommentLine_commentLine (depth : Nat) {text : String} {line : List Char}
    (h : line ∈ commentLines text) :
    IsCommentLine depth line (indented depth (commentLine line).toList) := by
  have hfree := areLines_commentLines text line h
  obtain ⟨source, -, rfl⟩ := exists_of_mem_commentLines h
  have htrim := stripsTo_trim source
  unfold commentLine
  split
  · rename_i hempty
    rw [indented_of_ne_nil (by simp), List.isEmpty_iff.1 hempty]
    exact .bare
  · rename_i hwords
    have hne : trim source ≠ [] := fun heq => hwords (List.isEmpty_iff.2 heq)
    have hchars : ("/// " ++ String.ofList (trim source)).toList =
        "/// ".toList ++ trim source := by simp
    rw [indented_of_ne_nil (by simp), hchars, ← List.append_assoc]
    exact .words hne hfree htrim.first htrim.last

/-- Only an empty line is written bare. -/
theorem IsCommentLine.ne_bareLine {depth : Nat} {words line : List Char}
    (h : IsCommentLine depth words line) (hwords : words.isEmpty = false) :
    line ≠ bareLine depth := by
  cases h with
  | bare => cases hwords
  | words =>
    intro heq
    have hlength := congrArg List.length heq
    simp [bareLine] at hlength

/-- **Documentation does not leave its comment.** -/
theorem writesComment (w : Writer) (owner : Option String) (text : String) :
    ∃ added, WritesComment w (w.run (docComment owner text)) (Markdown.toMarkdown owner text)
      added := by
  let markdown := Markdown.toMarkdown owner text
  let written := fun line => indented w.depth (commentLine line).toList
  have htext : (w.run (docComment owner text)).text =
      w.text ++ unlines ((commentLines markdown).map written) := by
    rw [Writer.text_run, stepLines_docComment]
  have hline : ∀ line ∈ commentLines markdown, IsCommentLine w.depth line (written line) :=
    fun line hmem => isCommentLine_commentLine w.depth hmem
  have hcomment := commentOf markdown
  refine ⟨(commentLines markdown).map written, Writer.depth_run w _, htext,
    ⟨_, _, hcomment, ?_⟩, ?_, ?_, ?_⟩
  · rwa [List.forall₂_map_right_iff, List.forall₂_same]
  · -- The first line of a comment is not empty, and only empty lines are written bare.
    intro line hfirst
    rw [List.head?_map] at hfirst
    obtain ⟨words, hwords, rfl⟩ := Option.map_eq_some_iff.1 hfirst
    exact (hline words (List.mem_of_mem_head? hwords)).ne_bareLine
      (hcomment.fromFirstToLast.first words hwords)
  · intro line hlast
    rw [List.getLast?_map] at hlast
    obtain ⟨words, hwords, rfl⟩ := Option.map_eq_some_iff.1 hlast
    exact (hline words (List.mem_of_mem_getLast? hwords)).ne_bareLine
      (hcomment.fromFirstToLast.last words hwords)
  · rw [htext, String.append_eq_left_iff, unlines_eq_empty_iff, List.map_eq_nil_iff,
      commentLines_eq_nil_iff]

example : (Writer.run ⟨"", 1⟩ (docComment none " a[br] \n[b]c[/b]\n")).text =
    "    /// a\n    ///\n    /// **c**\n" := by decide +kernel

end SwiftDecls
