import Mathlib.Data.List.TakeWhile
import SwiftDecls.Xml.Event

/-!
# Tags

A tag has a name, and behind white space characters and values between either quote
(`IsTagContent`). It opens an element, is one, or closes one. Well-formed tags are tags in this
sense; so are others, since it is not asked how values are given names.

Read at the front of a text, a tag is one event with its name, and the reading goes on behind it
(`eventsFrom_isOpeningTag`, `eventsFrom_isEmptyTag`, `eventsFrom_isClosingTag`).
-/

set_option autoImplicit false

namespace SwiftDecls.Xml

open Text

/-! ## Names -/

/-- The characters that mean something in a tag, white space apart. -/
def tagMarks : List Char := ['=', '"', '\'', '<', '>', '/', '!', '?']

/-- A name that a tag can hold. -/
def IsName (name : List Char) : Prop :=
  name ≠ [] ∧ ∀ c ∈ name, isSpace c = false ∧ c ∉ tagMarks

instance (name : List Char) : Decidable (IsName name) :=
  @instDecidableAnd _ _ _ (List.decidableBAll _ name)

namespace IsName

variable {name : List Char} {c : Char}

theorem isSpace_eq_false (h : IsName name) (hc : c ∈ name) : isSpace c = false := (h.2 c hc).1

theorem ne_of_mem (h : IsName name) (hc : c ∈ name) {mark : Char} (hm : mark ∈ tagMarks) :
    c ≠ mark := by
  rintro rfl
  exact (h.2 c hc).2 hm

theorem isQuote_eq_false (h : IsName name) (hc : c ∈ name) : isQuote c = false := by
  have hdouble : c ≠ '"' := h.ne_of_mem hc (by decide)
  have hsingle : c ≠ '\'' := h.ne_of_mem hc (by decide)
  simp [isQuote, hdouble, hsingle]

theorem isNameRest_of_mem (h : IsName name) (hc : c ∈ name) : isNameRest c = true := by
  have hequals : c ≠ '=' := h.ne_of_mem hc (by decide)
  simp [isNameRest, hequals, h.isSpace_eq_false hc]

end IsName

/-! ## Where a tag ends -/

/-- A tag goes on behind this part of it. -/
def StaysInTag (cs : List Char) : Prop :=
  ∀ before rest : List Char,
    cutTag none before (cs ++ rest) = cutTag none (cs.reverse ++ before) rest

namespace StaysInTag

theorem nil : StaysInTag [] := fun _ _ => rfl

theorem append {a b : List Char} (ha : StaysInTag a) (hb : StaysInTag b) : StaysInTag (a ++ b) := by
  intro before rest
  rw [List.append_assoc, ha, hb, List.reverse_append, List.append_assoc]

theorem cons {c : Char} {cs : List Char} (hquote : isQuote c = false) (hend : c ≠ '>')
    (h : StaysInTag cs) : StaysInTag (c :: cs) := by
  intro before rest
  rw [List.cons_append, cutTag]
  simp [hend, quoteAfter, hquote, h (c :: before) rest]

theorem of_isName {name : List Char} (h : IsName name) : StaysInTag name := by
  have hall : ∀ c ∈ name, isQuote c = false ∧ c ≠ '>' := fun c hc =>
    ⟨h.isQuote_eq_false hc, h.ne_of_mem hc (by decide)⟩
  clear h
  induction name with
  | nil => exact nil
  | cons c rest ih =>
    obtain ⟨hquote, hend⟩ := hall c List.mem_cons_self
    exact (ih fun d hd => hall d (List.mem_cons_of_mem c hd)).cons hquote hend

/-- Between quotes a `>` is no end. -/
theorem cutTag_value {q : Char} {value : List Char} (h : q ∉ value) (before rest : List Char) :
    cutTag (some q) before (value ++ q :: rest) =
      cutTag none (q :: value.reverse ++ before) rest := by
  induction value generalizing before with
  | nil => simp [cutTag, quoteAfter]
  | cons c cs ih =>
    have hc : c ≠ q := fun hc => h (hc ▸ List.mem_cons_self)
    have hcs : q ∉ cs := fun hmem => h (List.mem_cons_of_mem c hmem)
    rw [List.cons_append, cutTag]
    simp [quoteAfter, hc, ih hcs (c :: before)]

theorem quoted {q : Char} {value : List Char} (hq : isQuote q = true) (h : q ∉ value) :
    StaysInTag (q :: value ++ [q]) := by
  intro before rest
  have htext : (q :: value ++ [q]) ++ rest = q :: (value ++ q :: rest) := by simp
  have hend : q ≠ '>' := fun heq => absurd (heq ▸ hq) (by decide)
  rw [htext, cutTag]
  simp [quoteAfter, hq, hend, cutTag_value h]

theorem of_isSpace {gap : List Char} (h : ∀ c ∈ gap, isSpace c = true) : StaysInTag gap := by
  induction gap with
  | nil => exact nil
  | cons c rest ih =>
    have hc : isSpace c = true := h c List.mem_cons_self
    have hquote : isQuote c = false := by
      by_contra hnot
      simp only [isQuote, Bool.not_eq_false, Bool.or_eq_true, beq_iff_eq] at hnot
      rcases hnot with rfl | rfl <;> exact absurd hc (by decide)
    have hend : c ≠ '>' := fun heq => absurd (heq ▸ hc) (by decide)
    exact (ih fun d hd => h d (List.mem_cons_of_mem c hd)).cons hquote hend

theorem cutTag_eq {cs : List Char} (h : StaysInTag cs) (rest : List Char) :
    cutTag none [] (cs ++ '>' :: rest) = .ok (cs, rest) := by
  rw [h [] ('>' :: rest), List.append_nil, cutTag]
  simp

end StaysInTag

/-! ## What a tag is -/

/-- Characters and values between quotes, without the characters in `ends` outside quotes. -/
inductive Quoting (ends : List Char) : List Char → Prop
  | nil : Quoting ends []
  | char {c : Char} {cs : List Char} :
      isQuote c = false → c ∉ ends → Quoting ends cs → Quoting ends (c :: cs)
  | quoted {q : Char} {value cs : List Char} :
      isQuote q = true → q ∉ value → Quoting ends cs → Quoting ends (q :: value ++ q :: cs)

/-- A name, and behind white space the attributes if there are some. -/
inductive IsTagContent (name : List Char) : List Char → Prop
  | mk {behind : List Char} : (∀ c ∈ behind.head?, isSpace c = true) → Quoting ['>'] behind →
      IsTagContent name (name ++ behind)

/-- A tag that opens an element. -/
inductive IsOpeningTag (name : List Char) : List Char → Prop
  | mk {content : List Char} : IsName name → IsTagContent name content →
      content.getLast? ≠ some '/' → IsOpeningTag name ('<' :: content ++ ['>'])

/-- A tag that is an element. -/
inductive IsEmptyTag (name : List Char) : List Char → Prop
  | mk {content : List Char} : IsName name → IsTagContent name content →
      IsEmptyTag name ('<' :: content ++ ['/', '>'])

/-- A tag that closes an element. -/
inductive IsClosingTag (name : List Char) : List Char → Prop
  | mk {gap : List Char} : (∀ c ∈ gap, isSpace c = true) →
      IsClosingTag name ('<' :: '/' :: name ++ gap ++ ['>'])

namespace Quoting

variable {ends a b : List Char}

theorem append (ha : Quoting ends a) (hb : Quoting ends b) : Quoting ends (a ++ b) := by
  induction ha with
  | nil => exact hb
  | char hquote hc _ ih => exact .char hquote hc ih
  | @quoted q value cs hq hvalue _ ih =>
    rw [List.append_assoc, List.cons_append]
    exact .quoted hq hvalue ih

theorem of_chars (h : a.all (fun c => !isQuote c && !ends.contains c) = true) : Quoting ends a := by
  induction a with
  | nil => exact .nil
  | cons c rest ih =>
    rw [List.all_cons, Bool.and_eq_true] at h
    obtain ⟨hc, hrest⟩ := h
    simp only [Bool.and_eq_true, Bool.not_eq_true', List.contains_eq_mem, decide_eq_false_iff_not]
      at hc
    exact .char hc.1 hc.2 (ih hrest)

theorem staysInTag (h : Quoting ['>'] a) : StaysInTag a := by
  induction h with
  | nil => exact .nil
  | char hquote hend _ ih =>
    apply ih.cons hquote
    simpa using hend
  | @quoted q value cs hq hvalue _ ih =>
    have htext : q :: value ++ q :: cs = (q :: value ++ [q]) ++ cs := by simp
    rw [htext]
    exact (StaysInTag.quoted hq hvalue).append ih

end Quoting

namespace IsTagContent

variable {name content : List Char}

theorem staysInTag (h : IsTagContent name content) (hname : IsName name) : StaysInTag content := by
  obtain @⟨behind, -, hbehind⟩ := h
  exact (StaysInTag.of_isName hname).append hbehind.staysInTag

theorem exists_start (h : IsTagContent name content) (hname : IsName name) :
    ∃ c cs, content = c :: cs ∧ ∀ mark ∈ tagMarks, c ≠ mark := by
  obtain @⟨behind, -, -⟩ := h
  cases name with
  | nil => exact absurd rfl hname.1
  | cons c cs =>
    exact ⟨c, cs ++ behind, rfl, fun mark hm => hname.ne_of_mem List.mem_cons_self hm⟩

theorem tagName_eq (h : IsTagContent name content) (hname : IsName name) :
    tagName content = name := by
  obtain @⟨behind, hspace, -⟩ := h
  have hchars : ∀ c ∈ name, (!isSpace c) = true := fun c hc => by
    rw [hname.isSpace_eq_false hc]
    rfl
  have hbehind : behind.takeWhile (fun c => !isSpace c) = [] := by
    cases behind with
    | nil => rfl
    | cons c rest =>
      apply List.takeWhile_cons_of_neg
      rw [hspace c rfl]
      exact Bool.false_ne_true
  rw [tagName, List.takeWhile_append_of_pos hchars, hbehind, List.append_nil]

end IsTagContent

theorem closingName_append_gap {name gap : List Char} (hname : IsName name)
    (hgap : ∀ c ∈ gap, isSpace c = true) : closingName (name ++ gap) = name := by
  have hreverse : (name ++ gap).reverse.dropWhile isSpace = name.reverse := by
    rw [List.reverse_append,
      List.dropWhile_append_of_pos fun c hc => hgap c (List.mem_reverse.1 hc)]
    apply List.dropWhile_eq_self_iff.2
    intro hpos
    rw [hname.isSpace_eq_false (List.mem_reverse.1 (List.getElem_mem hpos))]
    exact Bool.false_ne_true
  rw [closingName, hreverse]
  split
  · rename_i hnil
    exact absurd (List.reverse_eq_nil_iff.1 hnil) hname.1
  · exact List.reverse_reverse name

/-! ## Reading on behind a tag -/

/-- The events of a text inside elements with the names in `path`. -/
def eventsFrom (path : List (List Char)) (cs : List Char) : Events :=
  eventsOf path (readPieces cs).fault (readPieces cs).pieces

theorem readPieces_cons {c : Char} {rest : List Char} {s : Shorter Piece (c :: rest)}
    (h : readPiece c rest = .ok s) : readPieces (c :: rest) =
      ⟨s.result :: (readPieces s.rest).pieces, (readPieces s.rest).fault⟩ := by
  rw [readPieces]
  split
  · rename_i f hf
    rw [h] at hf
    cases hf
  · rename_i s' hs
    rw [h] at hs
    cases hs
    rfl

theorem readTag_eq (make : List Char → Piece) {cs content rest : List Char}
    (h : cutTag none [] cs = .ok (content, rest)) :
    readTag make cs = .ok ⟨make content, rest, length_of_cutTag h⟩ := by
  unfold readTag
  split
  · rename_i f hf
    rw [h] at hf
    cases hf
  · rename_i content' rest' hcut
    rw [h] at hcut
    cases hcut
    rfl

/-- The kinds of markup differ in their first characters. -/
theorem readMarkup_of_not_mark {c : Char} (h : ∀ mark ∈ tagMarks, c ≠ mark) (cs : List Char) :
    readMarkup (c :: cs) = readTag .tag (c :: cs) := by
  apply readMarkup.eq_4
  · rintro rest heq
    exact h '!' (by decide) (List.cons.inj heq).1
  · rintro rest heq
    exact h '?' (by decide) (List.cons.inj heq).1
  · rintro rest heq
    exact h '/' (by decide) (List.cons.inj heq).1

section tags

variable {path : List (List Char)} {name tag : List Char}

/-- A tag is one piece. What follows `<` is no mark of another kind of markup. -/
theorem eventsFrom_tag {content : List Char} (h : StaysInTag content)
    (hstart : ∃ c cs, content = c :: cs ∧ ∀ mark ∈ tagMarks, c ≠ mark) (rest : List Char) :
    eventsFrom path ('<' :: content ++ '>' :: rest) =
      eventsOf path (readPieces rest).fault (.tag content :: (readPieces rest).pieces) := by
  obtain ⟨c, cs, rfl, hmarks⟩ := hstart
  have hmarkup : readMarkup (c :: cs ++ '>' :: rest) = readTag .tag (c :: cs ++ '>' :: rest) :=
    readMarkup_of_not_mark hmarks (cs ++ '>' :: rest)
  have hpiece := readTag_eq .tag (h.cutTag_eq rest)
  rw [← hmarkup] at hpiece
  have hread : readPiece '<' (c :: cs ++ '>' :: rest) =
      (readMarkup (c :: cs ++ '>' :: rest)).map .skip := rfl
  rw [hpiece] at hread
  rw [List.cons_append, eventsFrom, readPieces_cons hread]
  rfl

theorem eventsFrom_closing {content : List Char} (h : StaysInTag content) (rest : List Char) :
    eventsFrom path ('<' :: '/' :: content ++ '>' :: rest) =
      eventsOf path (readPieces rest).fault (.closing content :: (readPieces rest).pieces) := by
  have hpiece := readTag_eq .closing (h.cutTag_eq rest)
  have hread : readPiece '<' ('/' :: (content ++ '>' :: rest)) =
      ((readTag .closing (content ++ '>' :: rest)).map .skip).map .skip := rfl
  rw [hpiece] at hread
  rw [List.cons_append, List.cons_append, eventsFrom, readPieces_cons hread]
  rfl

theorem IsOpeningTag.isName (h : IsOpeningTag name tag) : IsName name := by
  cases h with
  | mk hname => exact hname

theorem eventsFrom_isOpeningTag (h : IsOpeningTag name tag) : ∃ attributes,
    ∀ (path : List (List Char)) (rest : List Char), eventsFrom path (tag ++ rest) =
      (eventsFrom (name :: path) rest).cons (.opened name attributes) := by
  obtain @⟨content, hname, hcontent, hopen⟩ := h
  refine ⟨tagAttributes content, fun path rest => ?_⟩
  have hevent : openingEvent content = .opened name (tagAttributes content) := by
    rw [openingEvent, if_neg hopen, hcontent.tagName_eq hname]
  rw [List.append_assoc, List.singleton_append,
    eventsFrom_tag (hcontent.staysInTag hname) (hcontent.exists_start hname), eventsOf, hevent]
  rfl

theorem eventsFrom_isEmptyTag (h : IsEmptyTag name tag) : ∃ attributes,
    ∀ (path : List (List Char)) (rest : List Char), eventsFrom path (tag ++ rest) =
      (eventsFrom path rest).cons (.empty name attributes) := by
  obtain @⟨content, hname, hcontent⟩ := h
  refine ⟨tagAttributes content, fun path rest => ?_⟩
  have htext : '<' :: content ++ ['/', '>'] ++ rest = '<' :: (content ++ ['/']) ++ '>' :: rest := by
    simp
  have hslash : StaysInTag ['/'] := StaysInTag.nil.cons rfl (by decide)
  have hstart : ∃ c cs, content ++ ['/'] = c :: cs ∧ ∀ mark ∈ tagMarks, c ≠ mark := by
    obtain ⟨c, cs, hcs, hmarks⟩ := hcontent.exists_start hname
    exact ⟨c, cs ++ ['/'], by rw [hcs, List.cons_append], hmarks⟩
  have hevent : openingEvent (content ++ ['/']) = .empty name (tagAttributes content) := by
    rw [openingEvent, if_pos List.getLast?_concat, List.dropLast_concat, hcontent.tagName_eq hname]
  rw [htext, eventsFrom_tag ((hcontent.staysInTag hname).append hslash) hstart, eventsOf, hevent]
  rfl

theorem eventsFrom_isClosingTag (hname : IsName name) (h : IsClosingTag name tag)
    (rest : List Char) :
    eventsFrom (name :: path) (tag ++ rest) = (eventsFrom path rest).cons .closed := by
  obtain @⟨gap, hgap⟩ := h
  have htext : '<' :: '/' :: name ++ gap ++ ['>'] ++ rest =
      '<' :: '/' :: (name ++ gap) ++ '>' :: rest := by simp
  rw [htext, eventsFrom_closing ((StaysInTag.of_isName hname).append (.of_isSpace hgap)), eventsOf]
  simp only [closingName_append_gap hname hgap, if_true]
  rfl

end tags

end SwiftDecls.Xml
