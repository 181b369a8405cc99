import SwiftDecls.Proofs.Docs.Pieces
import SwiftDecls.Proofs.Docs.ReadBack

/-!
# Elements with nothing in them

An element with nothing in it can be written with one tag or with two. They are not read alike
everywhere. With one tag a class is not found (`read_selfClosed`), a brief description or a
description is not there, where with two it is the empty text, and a constant inside an element
with a text leaves that text alone, where with two tags it ends it.

**Theorem (`read_emptied_iff`).** Everywhere else, and only there, the two ways mean the same: the
same documentation or the same error, whatever is around the element.

In these places the two ways lead to readings that differ at most in a text that nothing takes
any more. `Agrees` says what a reading still depends on, and is kept by every event
(`stepsAgree_event`).
-/

set_option autoImplicit false

namespace SwiftDecls

open Xml Text

/-! ## Where there are texts -/

/-- One of the open elements has a text. -/
def InText (path : List (List Char)) : Prop :=
  ∃ inner name outer, path = inner ++ name :: outer ∧ docText? name outer ≠ none

/-- One of the open elements documents a constant. -/
def InConstant (path : List (List Char)) : Prop :=
  ∃ inner name outer, path = inner ++ name :: outer ∧ docText? name outer = some .constant

/-- Where an element of some name means the same with one tag as with two. -/
structure SameWhenEmpty (name : List Char) (path : List (List Char)) : Prop where
  /-- It does not start the documentation. -/
  other : ¬(path = [] ∧ name = "class".toList)
  /-- It has no text, if it does not document a constant. -/
  silent : ∀ text, docText? name path = some text → text = .constant
  /-- If it documents a constant, it does so outside other texts. -/
  apart : docText? name path = some .constant → ¬InText path

section path

variable {name : List Char} {path : List (List Char)}

theorem not_inText_nil : ¬InText [] := by
  rintro ⟨inner, name, outer, heq, -⟩
  exact absurd heq (by simp)

/-- Of open elements something is true of the innermost one or of one around it. -/
theorem exists_open_cons_iff {P : List Char → List (List Char) → Prop} :
    (∃ inner name' outer, name :: path = inner ++ name' :: outer ∧ P name' outer) ↔
      P name path ∨ ∃ inner name' outer, path = inner ++ name' :: outer ∧ P name' outer := by
  constructor
  · rintro ⟨inner, name', outer, heq, h⟩
    cases inner with
    | nil =>
      cases heq
      exact .inl h
    | cons first inner =>
      cases heq
      exact .inr ⟨inner, name', outer, rfl, h⟩
  · rintro (h | ⟨inner, name', outer, rfl, h⟩)
    · exact ⟨[], name, path, rfl, h⟩
    · exact ⟨name :: inner, name', outer, rfl, h⟩

theorem inText_cons_iff : InText (name :: path) ↔ docText? name path ≠ none ∨ InText path :=
  exists_open_cons_iff

theorem inConstant_cons_iff :
    InConstant (name :: path) ↔ docText? name path = some .constant ∨ InConstant path :=
  exists_open_cons_iff

theorem InText.of_silent (h : InText (name :: path)) (htext : docText? name path = none) :
    InText path :=
  (inText_cons_iff.1 h).resolve_left fun hne => hne htext

theorem InConstant.of_ne (h : InConstant (name :: path))
    (htext : docText? name path ≠ some .constant) : InConstant path :=
  (inConstant_cons_iff.1 h).resolve_left htext

theorem InConstant.inText (h : InConstant path) : InText path := by
  obtain ⟨inner, name, outer, heq, htext⟩ := h
  exact ⟨inner, name, outer, heq, by rw [htext]; nofun⟩

end path

namespace DocReading

variable {r r' : DocReading} {name : List Char} {attributes : List Attribute}

/-! ## What the rest of a reading depends on -/

/-- Two readings that the rest of a text cannot tell apart. What is gathered counts only inside an
element that has a text, and a constant only inside the element that documents it. -/
structure Agrees (r r' : DocReading) : Prop where
  path : r'.path = r.path
  doc : r'.doc = r.doc
  gathered : InText r.path → r'.gathered = r.gathered
  constant : InConstant r.path → r'.constant = r.constant

/-- Two steps that end alike. -/
inductive StepsAgree : Except DocError DocReading → Except DocError DocReading → Prop
  | error (e : DocError) : StepsAgree (.error e) (.error e)
  | ok {r r' : DocReading} : Agrees r r' → StepsAgree (.ok r) (.ok r')

theorem Agrees.refl (r : DocReading) : Agrees r r := ⟨rfl, rfl, fun _ => rfl, fun _ => rfl⟩

theorem stepsAgree_opened (h : Agrees r r') (name : List Char) (attributes : List Attribute) :
    StepsAgree (r.opened name attributes) (r'.opened name attributes) := by
  obtain ⟨doc, path, gathered, constant⟩ := r
  obtain ⟨_, _, gathered', constant'⟩ := r'
  obtain ⟨hpath, hdoc, hgathered, hconstant⟩ := h
  cases hpath
  cases hdoc
  unfold opened
  dsimp only at hgathered hconstant ⊢
  cases htext : docText? name path with
  | none =>
    have hin (h : InText (name :: path)) : InText path := h.of_silent htext
    have hcon (h : InConstant (name :: path)) : InConstant path := h.of_ne (by rw [htext]; nofun)
    dsimp only
    split
    · cases classOf attributes with
      | error e => exact .error e
      | ok doc => exact .ok ⟨rfl, rfl, hgathered ∘ hin, hconstant ∘ hcon⟩
    · exact .ok ⟨rfl, rfl, hgathered ∘ hin, hconstant ∘ hcon⟩
  | some text =>
    cases text with
    | constant => exact .ok ⟨rfl, rfl, fun _ => rfl, fun _ => rfl⟩
    | brief | description =>
      have hcon (h : InConstant (name :: path)) : InConstant path := h.of_ne (by rw [htext]; nofun)
      exact .ok ⟨rfl, rfl, fun _ => rfl, hconstant ∘ hcon⟩

theorem agree_closed (h : Agrees r r') : Agrees r.closed r'.closed := by
  obtain ⟨doc, path, gathered, constant⟩ := r
  obtain ⟨_, _, gathered', constant'⟩ := r'
  obtain ⟨hpath, hdoc, hgathered, hconstant⟩ := h
  cases hpath
  cases hdoc
  dsimp only at hgathered hconstant
  cases path with
  | nil => exact ⟨rfl, rfl, hgathered, hconstant⟩
  | cons name outer =>
    have hin : InText outer → gathered' = gathered := fun h =>
      hgathered (inText_cons_iff.2 (.inr h))
    have hcon : InConstant outer → constant' = constant := fun h =>
      hconstant (inConstant_cons_iff.2 (.inr h))
    cases doc with
    | none => exact ⟨rfl, rfl, hin, hcon⟩
    | some doc =>
      cases htext : docText? name outer with
      | none =>
        rw [closed_other rfl htext, closed_other rfl htext]
        exact ⟨rfl, rfl, hin, hcon⟩
      | some text =>
        -- The element that closes has a text, so the two have gathered the same.
        have hsame : gathered' = gathered :=
          hgathered (inText_cons_iff.2 (.inl (by rw [htext]; nofun)))
        subst hsame
        cases text with
        | constant =>
          have hpending : constant' = constant := hconstant (inConstant_cons_iff.2 (.inl htext))
          subst hpending
          exact .refl _
        | brief | description =>
          simp only [closed, htext]
          exact ⟨rfl, rfl, fun _ => rfl, hcon⟩

/-- An event keeps readings that agree in agreement, or stops both. -/
theorem stepsAgree_event (h : Agrees r r') (e : Event) : StepsAgree (r.event e) (r'.event e) := by
  cases e with
  | opened name attributes => exact stepsAgree_opened h name attributes
  | closed => exact .ok (agree_closed h)
  | text cs =>
    refine .ok ⟨h.path, h.doc, fun hin => ?_, h.constant⟩
    show r'.gathered.map _ = r.gathered.map _
    rw [h.gathered hin]
  | empty name attributes =>
    rw [event_empty, event_empty, h.path]
    split
    · refine .ok ⟨h.path, ?_, h.gathered, h.constant⟩
      show r'.doc.map _ = r.doc.map _
      rw [h.doc]
    · exact .ok h

theorem finish_agrees (h : Agrees r r') (es : Events) : r.finish es = r'.finish es := by
  obtain ⟨events, fault⟩ := es
  induction events generalizing r r' with
  | nil =>
    simp only [finish, List.foldlM_nil, pure_bind, h.doc]
  | cons e events ih =>
    show r.finish (Events.cons e ⟨events, fault⟩) = r'.finish (Events.cons e ⟨events, fault⟩)
    rw [finish_cons, finish_cons]
    have hstep := stepsAgree_event h e
    generalize r.event e = x at hstep
    generalize r'.event e = y at hstep
    cases hstep with
    | error e => rfl
    | ok hagrees => exact ih hagrees

/-- Readings that agree read the rest of any text alike. -/
theorem readOn_agrees (h : Agrees r r') (rest : List Char) : r.readOn rest = r'.readOn rest := by
  rw [readOn, readOn, h.path]
  exact finish_agrees h _

/-! ## One tag and two tags -/

/-- An element with nothing in it, written with two tags. -/
def emptied (r : DocReading) (name : List Char) (attributes : List Attribute) :
    Except DocError DocReading := (r.opened name attributes).map closed

/-- A constant with nothing in it ends the text around it. -/
theorem emptied_constant {doc : ClassDoc} (htext : docText? name r.path = some .constant)
    (hdoc : r.doc = some doc) : r.emptied name attributes = .ok
      { r with
        doc := some { doc with constants := doc.constants ++ [constantOf attributes] }
        gathered := none
        constant := none } := by
  rw [emptied, opened_constant htext]
  obtain ⟨_, path, gathered, constant⟩ := r
  cases hdoc
  dsimp only at htext
  simp only [Except.map, closed, htext]
  rfl

/-- A text with nothing in it is there. -/
theorem emptied_text {doc : ClassDoc} {text : DocText} (attributes : List Attribute)
    (htext : docText? name r.path = some text) (hne : text ≠ .constant) (hdoc : r.doc = some doc) :
    ∃ after, r.emptied name attributes = .ok after ∧ ∃ doc', after.doc = some doc' ∧
      (doc'.brief = some "" ∨ doc'.description = some "") := by
  rw [emptied, opened_text htext hne]
  obtain ⟨_, path, gathered, constant⟩ := r
  cases hdoc
  dsimp only at htext
  cases text with
  | constant => exact absurd rfl hne
  | brief =>
    simp only [Except.map, closed, htext]
    exact ⟨_, rfl, _, rfl, .inl rfl⟩
  | description =>
    simp only [Except.map, closed, htext]
    exact ⟨_, rfl, _, rfl, .inr rfl⟩

/-- One tag and two tags lead to readings that agree. -/
theorem stepsAgree_emptied (h : SameWhenEmpty name r.path) (attributes : List Attribute) :
    StepsAgree (r.event (.empty name attributes)) (r.emptied name attributes) := by
  rw [event_empty]
  cases htext : docText? name r.path with
  | none =>
    rw [if_neg nofun]
    have hclosed : ({ r with path := name :: r.path } : DocReading).closed = r :=
      closed_other rfl htext
    rw [emptied, opened_silent htext h.other]
    show StepsAgree (.ok r) (.ok ({ r with path := name :: r.path } : DocReading).closed)
    rw [hclosed]
    exact .ok (.refl r)
  | some text =>
    have hconstant := h.silent text htext
    subst hconstant
    have hout : ¬InText r.path := h.apart htext
    rw [if_pos rfl]
    cases hdoc : r.doc with
    | none =>
      rw [emptied, opened_constant htext]
      obtain ⟨_, path, gathered, constant⟩ := r
      cases hdoc
      exact .ok ⟨rfl, rfl, fun hin => absurd hin hout, fun hin => absurd hin.inText hout⟩
    | some doc =>
      rw [emptied_constant htext hdoc]
      refine .ok ⟨rfl, ?_, fun hin => absurd hin hout, fun hin => absurd hin.inText hout⟩
      rw [addConstant, hdoc]
      rfl

end DocReading

/-! ## In a text -/

/-- An element with nothing in it as one tag. Its name and attributes are `content`. -/
def selfClosed (content : List Char) : List Char := '<' :: content ++ ['/', '>']

/-- The same element as two tags. -/
def emptyPair (name content : List Char) : List Char :=
  '<' :: content ++ ['>'] ++ closingTag name

section texts

open DocReading

variable {name content : List Char}

/-- The two ways to write an element are read as its two kinds of events. -/
theorem readOn_emptyElement (h : IsOpeningTag name ('<' :: content ++ ['>'])) : ∃ attributes,
    ∀ (r : DocReading) (rest : List Char),
      r.readOn (selfClosed content ++ rest) =
        (r.event (.empty name attributes) >>= fun r' => r'.readOn rest) ∧
      r.readOn (emptyPair name content ++ rest) =
        (r.emptied name attributes >>= fun r' => r'.readOn rest) := by
  have hcontent : IsName name ∧ IsTagContent name content ∧ content.getLast? ≠ some '/' := by
    generalize htag : '<' :: content ++ ['>'] = tag at h
    obtain @⟨content', hname, hcontent, hopen⟩ := h
    rw [List.cons_append, List.cons_append, List.cons.injEq, List.append_cancel_right_eq] at htag
    cases htag.2
    exact ⟨hname, hcontent, hopen⟩
  obtain ⟨hname, hcontent, hopen⟩ := hcontent
  refine ⟨tagAttributes content, fun r rest => ⟨?_, ?_⟩⟩
  · have hslash : StaysInTag ['/'] := StaysInTag.nil.cons rfl (by decide)
    have hstart : ∃ c cs, content ++ ['/'] = c :: cs ∧ ∀ mark ∈ tagMarks, c ≠ mark := by
      obtain ⟨c, cs, hcs, hmarks⟩ := hcontent.exists_start hname
      exact ⟨c, cs ++ ['/'], by rw [hcs, List.cons_append], hmarks⟩
    have hevent : openingEvent (content ++ ['/']) = .empty name (tagAttributes content) := by
      rw [openingEvent, if_pos List.getLast?_concat, List.dropLast_concat,
        hcontent.tagName_eq hname]
    have htag := isMarkup_tag ((hcontent.staysInTag hname).append hslash) hstart
    have htext : selfClosed content = '<' :: (content ++ ['/']) ++ ['>'] := by simp [selfClosed]
    rw [htext, readOn_isMarkup htag, piece, hevent]
  · have hevent : openingEvent content = .opened name (tagAttributes content) := by
      rw [openingEvent, if_neg hopen, hcontent.tagName_eq hname]
    have htag := isMarkup_tag (hcontent.staysInTag hname) (hcontent.exists_start hname)
    rw [emptyPair, List.append_assoc, readOn_isMarkup htag, piece, hevent]
    show (r.opened name (tagAttributes content) >>= _) = _
    rw [emptied]
    cases hopened : r.opened name (tagAttributes content) with
    | error e => rfl
    | ok r' => exact readOn_closingTag hname (path_of_opened hopened) rest

/-! ## Where the two ways differ -/

/-- Tags that open elements with the names in `path`. -/
def openingTags : List (List Char) → List Char
  | [] => []
  | name :: outer => openingTags outer ++ openingTag name [("name".toList, "A".toList)]

/-- A class without anything in it, and behind it open elements. -/
def openedBehindClass (path : List (List Char)) : List Char :=
  element "class".toList [("name".toList, "A".toList)] [] ++ openingTags path

theorem isTag_named {name : List Char} (h : IsName name) :
    IsTag name [("name".toList, "A".toList)] := by
  refine ⟨h, ?_, by simp⟩
  simpa using isAttribute_of_isPlainValue "name".toList (by decide) (by decide : IsPlainValue "A")

/-- A reading inside open elements, of which those with a text have gathered nothing yet. -/
structure InsideElements (names : List (List Char)) (r : DocReading) : Prop where
  path : r.path = names
  doc : ∃ doc, r.doc = some doc ∧ doc.brief = none ∧ doc.description = none
  gathered : InText names → r.gathered ≠ none
  constant : InConstant names → r.constant ≠ none

theorem InsideElements.opened {path : List (List Char)} {r : DocReading}
    (h : InsideElements path r) (name : List Char) :
    ∃ r', r.opened name [("name".toList, "A".toList)] = .ok r' ∧
      InsideElements (name :: path) r' := by
  obtain ⟨doc, hdoc, hbrief, hdescription⟩ := h.doc
  have hpath := h.path
  subst hpath
  cases htext : docText? name r.path with
  | none =>
    have hin (hin : InText (name :: r.path)) : InText r.path := hin.of_silent htext
    have hcon (hin : InConstant (name :: r.path)) : InConstant r.path :=
      hin.of_ne (by rw [htext]; exact (Option.some_ne_none _).symm)
    by_cases hroot : r.path = [] ∧ name = "class".toList
    · obtain ⟨hroot, rfl⟩ := hroot
      have hclass : classOf [("name".toList, "A".toList)] = .ok { name := "A" } :=
        classOf_name (by decide : "A" ≠ "")
      refine ⟨{ r with path := "class".toList :: r.path, doc := some { name := "A" } }, ?_, rfl,
        ⟨_, rfl, rfl, rfl⟩, h.gathered ∘ hin, h.constant ∘ hcon⟩
      simp only [DocReading.opened, hroot, hclass]
      rfl
    · exact ⟨_, opened_silent htext hroot, rfl, ⟨doc, hdoc, hbrief, hdescription⟩,
        h.gathered ∘ hin, h.constant ∘ hcon⟩
  | some text =>
    by_cases hconstant : text = .constant
    · subst hconstant
      exact ⟨_, opened_constant htext, rfl, ⟨doc, hdoc, hbrief, hdescription⟩,
        fun _ => Option.some_ne_none _, fun _ => Option.some_ne_none _⟩
    · refine ⟨_, opened_text htext hconstant, rfl, ⟨doc, hdoc, hbrief, hdescription⟩,
        fun _ => Option.some_ne_none _, fun hin => h.constant (hin.of_ne fun heq => ?_)⟩
      exact hconstant (Option.some.inj (htext.symm.trans heq))

theorem isMarkup_openingTag {name : List Char} {attributes : List Attribute}
    (h : IsTag name attributes) :
    IsMarkup (openingTag name attributes) (.tag (tagContent name attributes)) :=
  isMarkup_tag (h.isTagContent.staysInTag h.name) (h.isTagContent.exists_start h.name)

theorem openElements_append_opened {ps : List Piece} {name : List Char}
    {attributes : List Attribute} (h : IsTag name attributes) :
    openElements (ps ++ [.tag (tagContent name attributes)]) = name :: openElements ps := by
  rw [openElements, List.foldl_append, List.foldl_cons, List.foldl_nil, openBehind,
    openingEvent_tagContent h]
  rfl

/-- There are texts with any elements open behind a class. -/
theorem exists_insideElements {path : List (List Char)} (h : ∀ name ∈ path, IsName name) :
    ∃ ps r, ReadsAs (openedBehindClass path) ps ∧ openElements ps = path ∧
      InsideElements path r ∧
      ∀ rest, ({} : DocReading).readOn (openedBehindClass path ++ rest) = r.readOn rest := by
  induction path with
  | nil =>
    have htag : IsTag "class".toList [("name".toList, "A".toList)] := isTag_named (by decide)
    have hclosing : IsMarkup (closingTag "class".toList) (.closing "class".toList) :=
      isMarkup_closing (.of_isName htag.name)
    have htext : openedBehindClass [] = openingTag "class".toList [("name".toList, "A".toList)] ++
        closingTag "class".toList := rfl
    have hclass : classOf [("name".toList, "A".toList)] = .ok { name := "A" } :=
      classOf_name (by decide : "A" ≠ "")
    rw [htext]
    refine ⟨_, { doc := some { name := "A" } },
      (isMarkup_openingTag htag).readsAs.append hclosing.readsAs, ?_, ?_, fun rest => ?_⟩
    · rw [← List.nil_append [_], openElements, List.foldl_append, ← openElements,
        openElements_append_opened htag]
      rfl
    · exact ⟨rfl, ⟨_, rfl, rfl, rfl⟩, fun hin => absurd hin not_inText_nil,
        fun hin => absurd hin.inText not_inText_nil⟩
    · rw [List.append_assoc, readOn_openingTag htag (opened_class hclass),
        readOn_closingTag htag.name rfl]
      rfl
  | cons name outer ih =>
    obtain ⟨ps, r, hreads, hopen, hinside, hread⟩ :=
      ih fun n hn => h n (List.mem_cons_of_mem name hn)
    have htag := isTag_named (h name List.mem_cons_self)
    obtain ⟨r', hopened, hinside'⟩ := hinside.opened name
    have htext : openedBehindClass (name :: outer) =
        openedBehindClass outer ++ openingTag name [("name".toList, "A".toList)] :=
      (List.append_assoc _ _ _).symm
    rw [htext]
    refine ⟨_, r', hreads.append (isMarkup_openingTag htag).readsAs, ?_, hinside', fun rest => ?_⟩
    · rw [openElements_append_opened htag, hopen]
    · rw [List.append_assoc, hread, readOn_openingTag htag hopened]

/-- Inside an element with a text, what is gathered is told by what follows: the closing tags up
to that of the element. -/
theorem exists_readOn_ne (r r' : DocReading) {doc : ClassDoc} (hnames : ∀ n ∈ r.path, IsName n)
    (hin : InText r.path) (hpath : r'.path = r.path) (hdoc : r.doc = some doc)
    (hdoc' : r'.doc = some doc) (hgathered : r.gathered ≠ none) (hnone : r'.gathered = none)
    (hconstant : InConstant r.path → r.constant ≠ none) (hnoConstant : r'.constant = none) :
    ∃ rest, r.readOn rest ≠ r'.readOn rest := by
  obtain ⟨_, path, gathered, constant⟩ := r
  obtain ⟨_, _, _, _⟩ := r'
  obtain ⟨cs, hcs⟩ := Option.ne_none_iff_exists'.1 hgathered
  cases hpath
  cases hdoc
  cases hdoc'
  cases hcs
  cases hnone
  cases hnoConstant
  dsimp only at hnames hin hconstant
  clear hgathered
  induction path with
  | nil => exact absurd hin not_inText_nil
  | cons name outer ih =>
    have hclosing : ∀ {r : DocReading}, r.path = name :: outer → ∀ rest,
        r.readOn (closingTag name ++ rest) = r.closed.readOn rest := fun hpath rest =>
      readOn_closingTag (hnames name List.mem_cons_self) hpath rest
    cases htext : docText? name outer with
    | none =>
      obtain ⟨rest, hrest⟩ := ih (fun n hn => hnames n (List.mem_cons_of_mem name hn))
        (hin.of_silent htext)
        fun hcon => hconstant (inConstant_cons_iff.2 (.inr hcon))
      refine ⟨closingTag name ++ rest, ?_⟩
      rw [hclosing rfl, hclosing rfl, closed_other rfl htext, closed_other rfl htext]
      exact hrest
    | some text =>
      refine ⟨closingTag name ++ [], ?_⟩
      rw [hclosing rfl, hclosing rfl, readOn_nil, readOn_nil]
      cases text with
      | brief | description => simp [closed, htext, DocReading.text]
      | constant =>
        obtain ⟨c, rfl⟩ :=
          Option.ne_none_iff_exists'.1 (hconstant (inConstant_cons_iff.2 (.inl htext)))
        intro heq
        simp only [closed, htext, addConstant, Option.map_some, Except.ok.injEq] at heq
        exact absurd (congrArg (·.constants.length) heq) (by simp)

/-! ## In a whole text -/

/-- Wherever the elements in `path` are open, an element means the same with one tag as with
two. -/
def EmptiedAlike (name content : List Char) (path : List (List Char)) : Prop :=
  ∀ (front rest : String) (ps : List Piece), ReadsAs front.toList ps → openElements ps = path →
    ClassDoc.read (front ++ String.ofList (selfClosed content) ++ rest) =
      ClassDoc.read (front ++ String.ofList (emptyPair name content) ++ rest)

theorem emptiedAlike_of_sameWhenEmpty {path : List (List Char)}
    (htag : IsOpeningTag name ('<' :: content ++ ['>'])) (h : SameWhenEmpty name path) :
    EmptiedAlike name content path := by
  intro front rest ps hreads hopen
  obtain ⟨attributes, hread⟩ := readOn_emptyElement htag
  rw [read_eq_readOn_toList, read_eq_readOn_toList, String.toList_append, String.toList_append,
    String.toList_append, String.toList_append, String.toList_ofList, String.toList_ofList,
    List.append_assoc, List.append_assoc, readOn_readsAs hreads, readOn_readsAs hreads]
  cases hpieces : ps.foldlM piece {} with
  | error e => rfl
  | ok r =>
    have hpath : r.path = path := (path_of_pieces hpieces).trans hopen
    obtain ⟨hone, htwo⟩ := hread r rest.toList
    show r.readOn (selfClosed content ++ rest.toList) =
      r.readOn (emptyPair name content ++ rest.toList)
    rw [hone, htwo]
    have hsteps : StepsAgree (r.event (.empty name attributes)) (r.emptied name attributes) :=
      stepsAgree_emptied (hpath ▸ h) attributes
    generalize r.event (.empty name attributes) = x at hsteps
    generalize r.emptied name attributes = y at hsteps
    cases hsteps with
    | error e => rfl
    | ok hagrees => exact readOn_agrees hagrees rest.toList

/-- With one tag a class is not found, with two it is, if only as a class without a name. -/
theorem not_emptiedAlike_class (htag : IsOpeningTag "class".toList ('<' :: content ++ ['>'])) :
    ¬EmptiedAlike "class".toList content [] := by
  intro h
  obtain ⟨attributes, hread⟩ := readOn_emptyElement htag
  obtain ⟨hone, htwo⟩ := hread {} []
  have hsame := h "" "" [] .nil rfl
  rw [read_eq_readOn_toList, read_eq_readOn_toList] at hsame
  simp only [String.empty_append, String.append_empty, String.toList_ofList] at hsame
  rw [List.append_nil] at hone htwo
  rw [hone, htwo, event_empty, emptied] at hsame
  have hnothing : (Except.ok ({} : DocReading) >>= fun r' => r'.readOn []) =
      .error .noClass := readOn_nil {}
  have htext : docText? "class".toList [] = none := rfl
  rw [if_neg nofun, hnothing] at hsame
  cases hclass : classOf attributes with
  | error e =>
    have hunnamed : e = .unnamedClass := by
      unfold classOf at hclass
      dsimp only at hclass
      split at hclass
      · cases hclass
        rfl
      · cases hclass
    have hopened : ({} : DocReading).opened "class".toList attributes = .error e := by
      simp only [opened, htext, hclass]
      rfl
    rw [hopened, hunnamed] at hsame
    cases hsame
  | ok doc =>
    rw [opened_class hclass] at hsame
    have hdoc : (inClass doc).closed.readOn [] = .ok doc := readOn_nil _
    cases hsame.trans hdoc

theorem sameWhenEmpty_of_emptiedAlike {path : List (List Char)}
    (htag : IsOpeningTag name ('<' :: content ++ ['>'])) (hnames : ∀ n ∈ path, IsName n)
    (h : EmptiedAlike name content path) : SameWhenEmpty name path := by
  obtain ⟨ps, r, hreads, hopen, hinside, hfront⟩ := exists_insideElements hnames
  obtain ⟨doc, hdoc, hbrief, hdescription⟩ := hinside.doc
  obtain ⟨attributes, hread⟩ := readOn_emptyElement htag
  have hsame : ∀ rest, (r.event (.empty name attributes) >>= fun r' => r'.readOn rest) =
      (r.emptied name attributes >>= fun r' => r'.readOn rest) := by
    intro rest
    have hall := h (String.ofList (openedBehindClass path)) (String.ofList rest) ps
      (by rwa [String.toList_ofList]) hopen
    rw [read_eq_readOn_toList, read_eq_readOn_toList] at hall
    simp only [String.toList_append, String.toList_ofList, List.append_assoc] at hall
    obtain ⟨hone, htwo⟩ := hread r rest
    rwa [hfront, hfront, hone, htwo] at hall
  rw [← hinside.path] at hnames ⊢
  refine ⟨?_, fun text htext => ?_, fun htext hin => ?_⟩
  · rintro ⟨hroot, rfl⟩
    rw [hinside.path] at hroot
    subst hroot
    exact not_emptiedAlike_class htag h
  · by_contra hne
    obtain ⟨after, hafter, doc', hdoc', htexts⟩ := emptied_text attributes htext hne hdoc
    have hend := hsame []
    rw [event_empty, htext, if_neg (fun heq => hne (Option.some.inj heq)), hafter] at hend
    have hone : r.readOn [] = .ok doc := readOn_nil_eq_ok_iff.2 hdoc
    have htwo : after.readOn [] = .ok doc' := readOn_nil_eq_ok_iff.2 hdoc'
    have heq : doc = doc' := Except.ok.inj ((hone.symm.trans hend).trans htwo)
    subst heq
    rcases htexts with hbrief' | hdescription'
    · cases hbrief.symm.trans hbrief'
    · cases hdescription.symm.trans hdescription'
  · rw [event_empty, if_pos htext, emptied_constant htext hdoc] at hsame
    have hadded : (r.addConstant (constantOf attributes)).doc =
        some { doc with constants := doc.constants ++ [constantOf attributes] } := by
      rw [addConstant, hdoc]
      rfl
    obtain ⟨rest, hrest⟩ := exists_readOn_ne (r.addConstant (constantOf attributes))
      { r with
        doc := some { doc with constants := doc.constants ++ [constantOf attributes] }
        gathered := none
        constant := none }
      hnames hin rfl hadded rfl (hinside.gathered (hinside.path ▸ hin)) rfl
      (fun hcon => hinside.constant (hinside.path ▸ hcon)) rfl
    exact hrest (hsame rest)

end texts

/-- **One tag means what two tags mean, except where a class or a text starts.** The converse is
about elements that can be written as open. -/
theorem read_emptied_iff {name content : List Char} (path : List (List Char))
    (htag : IsOpeningTag name ('<' :: content ++ ['>'])) :
    (SameWhenEmpty name path → EmptiedAlike name content path) ∧
      ((∀ n ∈ path, IsName n) → EmptiedAlike name content path → SameWhenEmpty name path) :=
  ⟨emptiedAlike_of_sameWhenEmpty htag, sameWhenEmpty_of_emptiedAlike htag⟩

/-- A line break in a description can be one tag or two. A brief description cannot. -/
theorem read_emptied_iff_of_tags :
    IsOpeningTag "br".toList ('<' :: "br".toList ++ ['>']) ∧
      EmptiedAlike "br".toList "br".toList ["description".toList, "class".toList] ∧
      IsOpeningTag "brief_description".toList ('<' :: "brief_description".toList ++ ['>']) ∧
      ¬EmptiedAlike "brief_description".toList "brief_description".toList ["class".toList] := by
  have hopening (name : List Char) (hname : IsName name) :
      IsOpeningTag name ('<' :: name ++ ['>']) := by
    have htag : IsTag name [] := ⟨hname, fun _ ha => absurd ha List.not_mem_nil, List.nodup_nil⟩
    simpa [openingTag, tagContent] using htag.isOpeningTag
  have hbreak := hopening "br".toList (by decide)
  have hbrief := hopening "brief_description".toList (by decide)
  have hsilent : docText? "br".toList ["description".toList, "class".toList] = none := rfl
  refine ⟨hbreak, (read_emptied_iff _ hbreak).1 ⟨?_, ?_, ?_⟩, hbrief, fun halike => ?_⟩
  · exact fun hclass => absurd hclass.1 (by decide)
  · exact fun text htext => absurd (htext.symm.trans hsilent) (Option.some_ne_none _)
  · exact fun htext => absurd (htext.symm.trans hsilent) (Option.some_ne_none _)
  · have hsame := (read_emptied_iff _ hbrief).2 (by decide) halike
    exact absurd (hsame.silent .brief rfl) (by decide)

/-- A class, a text, and a constant inside a text, each with one tag and with two. -/
theorem read_selfClosed :
    ClassDoc.read "<class name='A'/>" = .error .noClass ∧
    ClassDoc.read "<class name='A'></class>" = .ok { name := "A" } ∧
    ClassDoc.read "<class name='A'><description/></class>" = .ok { name := "A" } ∧
    ClassDoc.read "<class name='A'><description></description></class>" =
      .ok { name := "A", description := some "" } ∧
    ClassDoc.read ("<class name='A'><description>D<constants><constant/></constants>" ++
      "</description></class>") =
        .ok { name := "A", description := some "D", constants := [{ name := "" }] } ∧
    ClassDoc.read ("<class name='A'><description>D<constants><constant></constant></constants>" ++
      "</description></class>") = .ok { name := "A", constants := [{ name := "" }] } := by
  decide +kernel

end SwiftDecls
