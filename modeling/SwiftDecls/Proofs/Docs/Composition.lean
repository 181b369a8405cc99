import SwiftDecls.Proofs.Docs.Markdown

/-!
# Conversion of a text in two parts

The conversion scans a text for brackets. It stops at the first one, reads a tag up to the next
closing bracket and goes on behind it (`StopsAt`), so no bracket inside a tag counts, and no closing
one outside tags. Where none closes the tag the scan is over.

Two things of what has been read show later: a tag that is open (`closesTags_iff`) and the target of
the open link (`pendingTarget`). What has been written does not (`finish_foldl_withFront`).

**Theorem (`toMarkdown_in_parts`).** A first part is converted alike alone and in front of every
rest exactly if all its tags are closed and no target is pending. A text is copied from a bracket on
that is not closed.
-/

set_option autoImplicit false

namespace SwiftDecls.Markdown

open Text

/-! ## The scan -/

/-- The scan of a text stops at the bracket between `before` and `after`. -/
inductive StopsAt : String → String → String → Prop
  /-- At the first bracket. -/
  | first {plain after : String} : '[' ∉ plain.toList → StopsAt (plain ++ "[" ++ after) plain after
  /-- Where the scan of what is behind the first tag stops. -/
  | behind {plain tag rest before after : String} : '[' ∉ plain.toList → ']' ∉ tag.toList →
      StopsAt rest before after →
      StopsAt (plain ++ bracketed tag ++ rest) (plain ++ bracketed tag ++ before) after

theorem StopsAt.eq_append {text before after : String} (h : StopsAt text before after) :
    text = before ++ "[" ++ after := by
  induction h with
  | first => rfl
  | behind _ _ _ ih =>
    rw [ih]
    simp only [String.append_assoc]

/-- Each bracket at which the scan of a text stops has a closing one behind it. -/
def ClosesTags (text : String) : Prop :=
  ∀ before after : String, StopsAt text before after → ']' ∈ after.toList

/-- A text up to its first tag, the tag and the rest. -/
theorem eq_of_cuts {text : String} {plain behind tag rest : List Char}
    (hopen : cutAt? '[' text.toList = some (plain, behind))
    (hclose : cutAt? ']' behind = some (tag, rest)) :
    text = String.ofList plain ++ bracketed (String.ofList tag) ++ String.ofList rest := by
  rw [← String.toList_inj, eq_append_of_cutAt? hopen, eq_append_of_cutAt? hclose]
  simp [bracketed]

theorem length_of_cuts {text : String} {plain behind tag rest : List Char}
    (hopen : cutAt? '[' text.toList = some (plain, behind))
    (hclose : cutAt? ']' behind = some (tag, rest)) :
    (String.ofList rest).toList.length < text.toList.length := by
  rw [eq_of_cuts hopen hclose]
  simp only [bracketed, String.toList_append, List.length_append, String.toList_ofList]
  have hbracket : "[".toList.length = 1 := rfl
  omega

/-- The tags that the scan of a text reads. -/
def tagsOf (text : String) : List String :=
  match _ : cutAt? '[' text.toList with
  | none => []
  | some (_, behind) =>
    match _ : cutAt? ']' behind with
    | none => []
    | some (tag, rest) => String.ofList tag :: tagsOf (String.ofList rest)
termination_by text.toList.length
decreasing_by exact length_of_cuts ‹_› ‹_›

/-- The target of the open link behind a tag. Only the tags of links change it. -/
def targetBehind (target : Option String) (tag : String) : Option String :=
  if tag = "url" ∨ tag = "/url" then none
  else
    match dropPrefix? "url=".toList tag.toList with
    | some opened => some (String.ofList opened)
    | none => target

/-- The target that is pending at the end of the scan of a text. -/
def pendingTarget (text : String) : Option String := (tagsOf text).foldl targetBehind none

/-! ## What a text leaves -/

theorem linkTag_ofList {tag : String} {opened : List Char}
    (h : tag.toList = "url=".toList ++ opened) : linkTag (some (String.ofList opened)) = tag := by
  rw [← String.toList_inj, h]
  simp [linkTag]

theorem ClosesTags.rest {plain tag rest : String} (hplain : '[' ∉ plain.toList)
    (htag : ']' ∉ tag.toList) (h : ClosesTags (plain ++ bracketed tag ++ rest)) : ClosesTags rest :=
  fun _ after hstops => h _ after (.behind hplain htag hstops)

namespace Conversion

variable (owner : Option String)

theorem foldl_step_plain {plain : String} (h : '[' ∉ plain.toList) {s : Conversion}
    (hs : s.tag = none) : plain.toList.foldl (step owner) s = s.write plain :=
  foldl_step_of_no_bracket owner h s hs

theorem foldl_step_tag {plain tag : String} (hplain : '[' ∉ plain.toList) (htag : ']' ∉ tag.toList)
    (rest : String) {s : Conversion} (hs : s.tag = none) :
    (plain ++ bracketed tag ++ rest).toList.foldl (step owner) s =
      rest.toList.foldl (step owner) (closeTag owner (s.write plain) tag) := by
  have hwritten : (s.write plain).tag = none := hs
  rw [String.toList_append, String.toList_append, List.foldl_append, List.foldl_append,
    foldl_step_plain owner hplain hs, foldl_step_bracketed owner htag hwritten]

theorem tag_closeTag (s : Conversion) (tag : String) : (closeTag owner s tag).tag = s.tag := by
  unfold closeTag
  repeat' split
  all_goals rfl

theorem link_closeTag (s : Conversion) (tag : String) :
    (closeTag owner s tag).link = targetBehind s.link tag := by
  unfold targetBehind
  split
  · rename_i hurl
    rcases hurl with rfl | rfl
    · rfl
    · rw [closeTag_closing]
      rfl
  · rename_i hurl
    rw [not_or] at hurl
    split
    · rename_i opened htarget
      obtain rfl := linkTag_ofList (dropPrefix?_eq_some_iff.1 htarget)
      rw [closeTag_linkTag]
      rfl
    · rename_i htarget
      simp only [closeTag, hurl, htarget, if_false]
      split <;> rfl

/-- Behind a text whose tags are closed no tag is open, and the open link has the target that is
pending. -/
theorem foldl_step_of_closesTags {text : String} (h : ClosesTags text) {s : Conversion}
    (hs : s.tag = none) :
    (text.toList.foldl (step owner) s).tag = none ∧
      (text.toList.foldl (step owner) s).link = (tagsOf text).foldl targetBehind s.link := by
  fun_induction tagsOf text generalizing s with
  | case1 text hnone =>
    rw [foldl_step_plain owner (cutAt?_eq_none_iff.1 hnone) hs]
    exact ⟨hs, rfl⟩
  | case2 text plain behind hopen hnone =>
    have htext : text = String.ofList plain ++ "[" ++ String.ofList behind := by
      rw [← String.toList_inj, eq_append_of_cutAt? hopen]
      simp
    have hplain : '[' ∉ (String.ofList plain).toList := by simpa using not_mem_of_cutAt? hopen
    have hstops : StopsAt text (String.ofList plain) (String.ofList behind) := by
      rw [htext]
      exact .first hplain
    have hclosed := h _ _ hstops
    rw [String.toList_ofList] at hclosed
    exact absurd hclosed (cutAt?_eq_none_iff.1 hnone)
  | case3 text plain behind hopen tag rest hclose ih =>
    have hplain : '[' ∉ (String.ofList plain).toList := by simpa using not_mem_of_cutAt? hopen
    have htag : ']' ∉ (String.ofList tag).toList := by simpa using not_mem_of_cutAt? hclose
    rw [eq_of_cuts hopen hclose] at h ⊢
    have hread := ih (h.rest hplain htag)
      ((tag_closeTag owner (s.write (String.ofList plain)) (String.ofList tag)).trans hs)
    rw [link_closeTag] at hread
    rwa [foldl_step_tag owner hplain htag _ hs, List.foldl_cons]

/-- From a bracket on that is not closed all characters belong to an open tag. -/
theorem foldl_step_of_stopsAt {text before after : String} (h : StopsAt text before after)
    (hopen : ']' ∉ after.toList) {s : Conversion} (hs : s.tag = none) :
    (before.toList.foldl (step owner) s).tag = none ∧
      text.toList.foldl (step owner) s =
        { before.toList.foldl (step owner) s with tag := some after.toList.reverse } := by
  induction h generalizing s with
  | @first plain after hplain =>
    have hbefore := foldl_step_plain owner hplain hs
    have hbegun : step owner (s.write plain) '[' = { s.write plain with tag := some [] } := by
      simp [step, write, hs]
    refine ⟨hbefore ▸ hs, ?_⟩
    rw [String.toList_append, String.toList_append, List.foldl_append, List.foldl_append, hbefore]
    show after.toList.foldl (step owner) (step owner (s.write plain) '[') = _
    rw [hbegun, foldl_step_open owner hopen _ rfl, List.append_nil]
  | behind hplain htag _ ih =>
    rw [foldl_step_tag owner hplain htag _ hs, foldl_step_tag owner hplain htag _ hs]
    exact ih hopen ((tag_closeTag owner _ _).trans hs)

/-- A tag is open behind a text exactly if its tags are not all closed. -/
theorem closesTags_iff {text : String} :
    ClosesTags text ↔ (text.toList.foldl (step owner) {}).tag = none := by
  constructor
  · intro h
    exact (foldl_step_of_closesTags owner h rfl).1
  · intro h before after hstops
    by_contra hopen
    rw [(foldl_step_of_stopsAt owner hstops hopen rfl).2] at h
    cases h

/-! ## What has been written -/

/-- The state with a text in front of what has been written. -/
def withFront (s : Conversion) (front : List Char) : Conversion :=
  { s with written := s.written ++ front.reverse }

variable (s : Conversion) (front : List Char)

theorem write_withFront (text : String) :
    (s.withFront front).write text = (s.write text).withFront front := by
  simp [write, withFront]

theorem closeTag_withFront (tag : String) :
    closeTag owner (s.withFront front) tag = (closeTag owner s tag).withFront front := by
  have hlink : (s.withFront front).link = s.link := rfl
  simp only [closeTag, hlink, write_withFront]
  repeat' split
  all_goals rfl

theorem step_withFront (c : Char) :
    step owner (s.withFront front) c = (step owner s c).withFront front := by
  obtain ⟨written, link, tag⟩ := s
  cases tag with
  | none =>
    simp only [step, withFront]
    split <;> rfl
  | some tag =>
    simp only [step, withFront]
    split
    · exact closeTag_withFront owner ⟨written, link, none⟩ front _
    · rfl

/-- **What has been written is not looked at.** -/
theorem finish_foldl_withFront (cs : List Char) :
    (cs.foldl (step owner) (s.withFront front)).finish =
      front ++ (cs.foldl (step owner) s).finish := by
  induction cs generalizing s with
  | nil =>
    obtain ⟨written, link, tag⟩ := s
    cases tag <;> simp [finish, withFront]
  | cons c cs ih => rw [List.foldl_cons, List.foldl_cons, step_withFront, ih]

end Conversion

/-! ## Texts in two parts -/

/-- The Markdown of a text behind which `target` is the target of the open link. -/
def toMarkdownBehind (owner target : Option String) (text : String) : String :=
  String.ofList (text.toList.foldl (Conversion.step owner) { link := target }).finish

variable (owner : Option String)

/-- Of a part whose tags are closed the rest needs to know the pending target only. -/
theorem toMarkdown_append_of_closesTags {text : String} (h : ClosesTags text) (rest : String) :
    toMarkdown owner (text ++ rest) =
      toMarkdown owner text ++ toMarkdownBehind owner (pendingTarget text) rest := by
  obtain ⟨htag, hlink⟩ := Conversion.foldl_step_of_closesTags owner h (s := {}) rfl
  rw [toMarkdown, toMarkdown, toMarkdownBehind, String.toList_append, List.foldl_append,
    ← String.ofList_append]
  generalize text.toList.foldl (Conversion.step owner) {} = s at htag hlink ⊢
  obtain ⟨written, link, tag⟩ := s
  obtain rfl : tag = none := htag
  obtain rfl : link = pendingTarget text := hlink
  have hfront := Conversion.finish_foldl_withFront owner { link := pendingTarget text }
    written.reverse rest.toList
  rw [Conversion.withFront, List.reverse_reverse, List.nil_append] at hfront
  exact congrArg String.ofList hfront

/-- A text is copied from a bracket on that is not closed. -/
theorem toMarkdown_of_stopsAt {text before after : String} (h : StopsAt text before after)
    (hopen : ']' ∉ after.toList) :
    toMarkdown owner text = toMarkdown owner before ++ "[" ++ after := by
  obtain ⟨htag, htext⟩ := Conversion.foldl_step_of_stopsAt owner h hopen (s := {}) rfl
  rw [toMarkdown, toMarkdown, htext, ← String.toList_inj]
  generalize before.toList.foldl (Conversion.step owner) {} = s at htag ⊢
  simp [Conversion.finish, htag]

theorem toMarkdownBehind_bracketed {target left : Option String} {tag text : String}
    (hclosed : ']' ∉ tag.toList)
    (h : Conversion.closeTag owner { link := target } tag =
      Conversion.write { link := left } text) :
    toMarkdownBehind owner target (bracketed tag) = text := by
  rw [toMarkdownBehind, Conversion.foldl_step_bracketed owner hclosed rfl, h]
  simp [Conversion.finish, Conversion.write]

theorem toMarkdownBehind_linkEnd (target : Option String) :
    toMarkdownBehind owner target (bracketed "/url") = linkEnd target := by
  have hclosed : ']' ∉ "/url".toList := by decide
  exact toMarkdownBehind_bracketed owner hclosed (Conversion.closeTag_closing owner _)

/-- What a tag with a bracket inside turns into depends on what is behind the bracket. -/
theorem toMarkdownBehind_ne_bold (target : Option String) {front : String}
    (hclosed : ']' ∉ front.toList) :
    toMarkdownBehind owner target (bracketed (front ++ "[b")) ≠ "[" ++ (front ++ "**") := by
  have hclosed' : ']' ∉ (front ++ "[b").toList := by simp [hclosed]
  intro hbold
  by_cases hlink : "url=".toList <+: (front ++ "[b").toList
  · obtain ⟨opened, hopened⟩ := hlink
    rw [← linkTag_ofList hopened.symm] at hbold hclosed'
    rw [toMarkdownBehind_bracketed owner hclosed' (Conversion.closeTag_linkTag owner _ _)] at hbold
    have hlength := congrArg (·.toList.length) hbold
    simp at hlength
  · have hwhole : front ++ "[b" ∉ wholeTags := by
      have htable : ∀ tag ∈ wholeTags, '[' ∉ tag.toList := by decide
      exact fun hmem => htable _ hmem (by simp)
    rw [toMarkdownBehind_bracketed owner hclosed'
      (Conversion.closeTag_of_isOther owner _ ⟨hwhole, hlink⟩)] at hbold
    cases htext : referenceText? owner (front ++ "[b") with
    | none =>
      rw [htext] at hbold
      simp [bracketed, ← String.toList_inj] at hbold
    | some text =>
      obtain ⟨r, hr⟩ := exists_reference htext
      rw [← hr, referenceText?_tag] at hbold
      have hhead := congrArg (·.toList.head?) hbold
      simp [symbolLink] at hhead

/-- A tag that is cut in two is another one than its first part and a bold mark. -/
theorem closesTags_of_append {text : String}
    (h : ∀ rest, toMarkdown owner (text ++ rest) = toMarkdown owner text ++ toMarkdown owner rest) :
    ClosesTags text := by
  intro before after hstops
  by_contra hopen
  have hclosed : ClosesTags before := (Conversion.closesTags_iff owner).2
    (Conversion.foldl_step_of_stopsAt owner hstops hopen rfl).1
  have hbold := h (bracketed "b")
  have hcut : text ++ bracketed "b" = before ++ bracketed (after ++ "[b") := by
    rw [hstops.eq_append, ← String.toList_inj]
    simp [bracketed]
  rw [hcut, toMarkdown_append_of_closesTags owner hclosed, toMarkdown_of_stopsAt owner hstops hopen,
    (Converts.fixed (by decide : ("b", "**") ∈ fixedTags)).toMarkdown_eq, String.append_assoc,
    String.append_assoc] at hbold
  exact toMarkdownBehind_ne_bold owner _ hopen ((String.append_right_inj _).1 hbold)

/-- A pending target shows at the end of the next link. -/
theorem pendingTarget_of_append {text : String} (hclosed : ClosesTags text)
    (h : ∀ rest, toMarkdown owner (text ++ rest) = toMarkdown owner text ++ toMarkdown owner rest) :
    pendingTarget text = none := by
  have hend := h (bracketed "/url")
  rw [toMarkdown_append_of_closesTags owner hclosed, String.append_right_inj,
    toMarkdownBehind_linkEnd] at hend
  have hnone : linkEnd (pendingTarget text) = linkEnd none :=
    hend.trans (toMarkdownBehind_linkEnd owner none)
  cases htarget : pendingTarget text with
  | none => rfl
  | some target =>
    rw [htarget] at hnone
    have hlength := congrArg (·.toList.length) hnone
    simp [linkEnd] at hlength

/-- **A text is converted in two parts** exactly where no tag is open and no target is pending,
and it is copied from a bracket on that is not closed. -/
theorem toMarkdown_in_parts (text : String) :
    (ClosesTags text ∧ pendingTarget text = none ↔
      ∀ rest, toMarkdown owner (text ++ rest) = toMarkdown owner text ++ toMarkdown owner rest) ∧
    ∀ before after, StopsAt text before after → ']' ∉ after.toList →
      toMarkdown owner text = toMarkdown owner before ++ "[" ++ after := by
  refine ⟨⟨fun ⟨hclosed, htarget⟩ rest => ?_, fun h => ?_⟩, fun before after hstops hopen => ?_⟩
  · rw [toMarkdown_append_of_closesTags owner hclosed, htarget]
    rfl
  · have hclosed := closesTags_of_append owner h
    exact ⟨hclosed, pendingTarget_of_append owner hclosed h⟩
  · exact toMarkdown_of_stopsAt owner hstops hopen

/-- A text with brackets inside and outside its tags, and one that ends inside a tag. -/
theorem toMarkdown_in_parts_of_brackets :
    ClosesTags "x] [u[[v] [url=t]y[/url]" ∧ pendingTarget "x] [u[[v] [url=t]y[/url]" = none ∧
      toMarkdown none ("x] [u[[v] [url=t]y[/url]" ++ "z[/url] [i") =
        toMarkdown none "x] [u[[v] [url=t]y[/url]" ++ toMarkdown none "z[/url] [i" ∧
      StopsAt "z[/url] [i" "z[/url] " "i" ∧ ']' ∉ "i".toList ∧
      toMarkdown none "z[/url] [i" = toMarkdown none "z[/url] " ++ "[" ++ "i" := by
  have hclosed : ClosesTags "x] [u[[v] [url=t]y[/url]" :=
    (Conversion.closesTags_iff none).2 (by decide +kernel)
  have htarget : pendingTarget "x] [u[[v] [url=t]y[/url]" = none :=
    (Conversion.foldl_step_of_closesTags none hclosed (s := {}) rfl).2.symm.trans
      (by decide +kernel)
  have hstops : StopsAt ("z" ++ bracketed "/url" ++ (" " ++ "[" ++ "i"))
      ("z" ++ bracketed "/url" ++ " ") "i" := .behind (by decide) (by decide) (.first (by decide))
  have hopen : ']' ∉ "i".toList := by decide
  have hparts := (toMarkdown_in_parts none "x] [u[[v] [url=t]y[/url]").1.1 ⟨hclosed, htarget⟩
  have hcopied := (toMarkdown_in_parts none "z[/url] [i").2 "z[/url] " "i" hstops hopen
  exact ⟨hclosed, htarget, hparts "z[/url] [i", hstops, hopen, hcopied⟩

end SwiftDecls.Markdown
