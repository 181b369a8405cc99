import SwiftDecls.Proofs.Text.Pieces
import SwiftDecls.Proofs.Xml.Tags

/-!
# Elements written out

A tag is written as a name and attributes, each behind one blank and with its value between
double quotes. Read at the front of a text, it gives one event with that name and those
attributes, and the reading goes on behind it (`eventsFrom_openingTag`). The same holds of a
reference (`eventsFrom_reference`) and of character data, which comes in one event up to the next
mark (`eventsFrom_data`).
-/

set_option autoImplicit false

namespace SwiftDecls.Xml

open Text

/-! ## What is written -/

/-- An attribute behind a blank. -/
def attributeChars (a : Attribute) : List Char := ' ' :: a.1 ++ '=' :: '"' :: a.2 ++ ['"']

/-- What is between `<` and `>` in an opening tag. -/
def tagContent (name : List Char) (attributes : List Attribute) : List Char :=
  name ++ attributes.flatMap attributeChars

/-- The tag that opens an element. -/
def openingTag (name : List Char) (attributes : List Attribute) : List Char :=
  '<' :: tagContent name attributes ++ ['>']

/-- The tag that closes an element. -/
def closingTag (name : List Char) : List Char := '<' :: '/' :: name ++ ['>']

/-- An element: its tags and what is between them. -/
def element (name : List Char) (attributes : List Attribute) (body : List Char) : List Char :=
  openingTag name attributes ++ body ++ closingTag name

/-- An attribute that a tag can hold. -/
structure IsAttribute (a : Attribute) : Prop where
  name : IsName a.1
  value : '"' ∉ a.2

/-- A name and attributes that make a tag. -/
structure IsTag (name : List Char) (attributes : List Attribute) : Prop where
  name : IsName name
  each : ∀ a ∈ attributes, IsAttribute a
  /-- No two attributes have one name. -/
  distinct : (attributes.map Prod.fst).Nodup

theorem IsAttribute.quoting {a : Attribute} (h : IsAttribute a) :
    Quoting ['>'] (attributeChars a) := by
  have htext : attributeChars a = [' '] ++ a.1 ++ ['='] ++ ('"' :: a.2 ++ ['"']) := by
    simp [attributeChars]
  have hname : Quoting ['>'] a.1 := by
    apply Quoting.of_chars
    rw [List.all_eq_true]
    intro c hc
    have hend : c ≠ '>' := h.name.ne_of_mem hc (by decide)
    simp [h.name.isQuote_eq_false hc, hend]
  have hvalue : Quoting ['>'] ('"' :: a.2 ++ ['"']) := .quoted rfl h.value .nil
  rw [htext]
  exact (((Quoting.of_chars rfl).append hname).append (.of_chars rfl)).append hvalue

/-- What is written between `<` and `>` is what can stand there. -/
theorem IsTag.isTagContent {name : List Char} {attributes : List Attribute}
    (h : IsTag name attributes) : IsTagContent name (tagContent name attributes) := by
  refine ⟨?_, ?_⟩
  · cases attributes with
    | nil => nofun
    | cons a rest =>
      rintro c ⟨⟩
      rfl
  · have heach := h.each
    clear h
    induction attributes with
    | nil => exact .nil
    | cons a rest ih =>
      rw [List.flatMap_cons]
      exact (heach a List.mem_cons_self).quoting.append
        (ih fun b hb => heach b (List.mem_cons_of_mem a hb))

/-! ## What a tag holds -/

section tags

variable {name : List Char} {attributes : List Attribute}

theorem dropWhile_attributes (p : Char → Bool) (hp : p ' ' = false) (as : List Attribute) :
    (as.flatMap attributeChars).dropWhile p = as.flatMap attributeChars := by
  cases as with
  | nil => rfl
  | cons a rest => simp [attributeChars, hp]

theorem fromSpace_tagContent (h : IsName name) :
    fromSpace (tagContent name attributes) = attributes.flatMap attributeChars := by
  have hname : ∀ c ∈ name, (!isSpace c) = true := fun c hc => by simp [h.isSpace_eq_false hc]
  rw [fromSpace, tagContent, List.dropWhile_append_of_pos hname,
    dropWhile_attributes _ (by decide)]

theorem readValue_quoted {value : List Char} (h : '"' ∉ value) (rest : List Char) :
    readValue ('"' :: value ++ '"' :: rest) = (some value, rest) := by
  have hcut := cutAt?_append h rest
  have hstart : ('"' :: value ++ '"' :: rest).dropWhile isSpace =
      '"' :: (value ++ '"' :: rest) := rfl
  rw [readValue, hstart]
  simp [isQuote, hcut]

/-- One attribute is read off, whatever follows it. -/
theorem attributesAfter_attributeChars {a : Attribute} (h : IsAttribute a)
    {seen : List (List Char)} (hseen : a.1 ∉ seen) (rest : List Char) :
    attributesAfter seen (attributeChars a ++ rest) =
      a :: attributesAfter (a.1 :: seen) rest := by
  obtain ⟨⟨name, value⟩, hname, hvalue⟩ := a, h
  cases name with
  | nil => exact absurd rfl hname.1
  | cons c cs =>
    have hcs : ∀ d ∈ cs, isNameRest d = true := fun d hd =>
      hname.isNameRest_of_mem (List.mem_cons_of_mem c hd)
    have hstart : (attributeChars (c :: cs, value) ++ rest).dropWhile isSpace =
        c :: (cs ++ '=' :: ('"' :: value ++ '"' :: rest)) := by
      have hc : isSpace c = false := hname.isSpace_eq_false List.mem_cons_self
      have hblank : isSpace ' ' = true := rfl
      simp [attributeChars, hblank, hc]
    have htake : (cs ++ '=' :: ('"' :: value ++ '"' :: rest)).takeWhile isNameRest = cs := by
      have hequals : isNameRest '=' = false := rfl
      rw [List.takeWhile_append_of_pos hcs]
      simp [hequals]
    have hbehind : behindName (cs ++ '=' :: ('"' :: value ++ '"' :: rest)) =
        '=' :: ('"' :: value ++ '"' :: rest) := by
      rw [behindName, List.dropWhile_append_of_pos hcs]
      rfl
    have hread := readValue_quoted hvalue rest
    rw [attributesAfter]
    split
    · rename_i hnil
      rw [hstart] at hnil
      cases hnil
    · rename_i c' rest' hcons
      rw [hstart] at hcons
      cases hcons
      rw [htake]
      split
      · rename_i value' hv
        rw [hbehind] at hv
        cases hv
        rw [if_neg hseen, hread]
      · rename_i hno
        exact absurd hbehind (hno _)

theorem attributesAfter_attributes {as : List Attribute} {seen : List (List Char)}
    (h : ∀ a ∈ as, IsAttribute a) (hnodup : (as.map Prod.fst).Nodup)
    (hseen : ∀ a ∈ as, a.1 ∉ seen) :
    attributesAfter seen (as.flatMap attributeChars) = as := by
  induction as generalizing seen with
  | nil =>
    rw [List.flatMap_nil, attributesAfter]
    rfl
  | cons a rest ih =>
    rw [List.map_cons, List.nodup_cons] at hnodup
    have hrest : ∀ b ∈ rest, b.1 ∉ a.1 :: seen := by
      intro b hb hmem
      rcases List.mem_cons.1 hmem with heq | hold
      · exact hnodup.1 (heq ▸ List.mem_map_of_mem hb)
      · exact hseen b (List.mem_cons_of_mem a hb) hold
    rw [List.flatMap_cons, attributesAfter_attributeChars (h a List.mem_cons_self)
      (hseen a List.mem_cons_self), ih (fun b hb => h b (List.mem_cons_of_mem a hb)) hnodup.2 hrest]

theorem tagAttributes_tagContent (h : IsTag name attributes) :
    tagAttributes (tagContent name attributes) = attributes := by
  rw [tagAttributes, fromSpace_tagContent h.name]
  exact attributesAfter_attributes h.each h.distinct fun _ _ => List.not_mem_nil

/-- Nothing closes an element where it opens: a tag ends with its name or with a quote. -/
theorem getLast?_tagContent (h : IsName name) :
    (tagContent name attributes).getLast? ≠ some '/' := by
  intro hlast
  rcases List.eq_nil_or_concat attributes with rfl | ⟨front, a, rfl⟩
  · rw [tagContent, List.flatMap_nil, List.append_nil] at hlast
    exact h.ne_of_mem (List.mem_of_getLast? hlast) (show '/' ∈ tagMarks by decide) rfl
  · have hquote : tagContent name (front.concat a) =
        (name ++ front.flatMap attributeChars ++ (' ' :: a.1 ++ '=' :: '"' :: a.2)) ++ ['"'] := by
      simp [tagContent, attributeChars]
    rw [hquote, List.getLast?_concat] at hlast
    exact absurd hlast (by decide)

theorem openingEvent_tagContent (h : IsTag name attributes) :
    openingEvent (tagContent name attributes) = .opened name attributes := by
  rw [openingEvent, if_neg (getLast?_tagContent h.name), h.isTagContent.tagName_eq h.name,
    tagAttributes_tagContent h]

theorem IsTag.isOpeningTag (h : IsTag name attributes) :
    IsOpeningTag name (openingTag name attributes) :=
  .mk h.name h.isTagContent (getLast?_tagContent h.name)

theorem isClosingTag_closingTag (name : List Char) : IsClosingTag name (closingTag name) := by
  have hgap : IsClosingTag name ('<' :: '/' :: name ++ [] ++ ['>']) := .mk nofun
  rwa [List.append_nil] at hgap

end tags

/-! ## Reading on behind what is written -/

variable {path : List (List Char)} {name : List Char}

@[simp] theorem eventsFrom_nil : eventsFrom path [] = ⟨[], none⟩ := by
  rw [eventsFrom, readPieces]
  rfl

/-- Character data is one event up to the next mark. -/
theorem eventsFrom_data {c : Char} (hc : isData c = true) (cs : List Char) :
    eventsFrom path (c :: cs) =
      (eventsFrom path (cs.dropWhile isData)).cons (.text (c :: cs.takeWhile isData)) := by
  have hpiece : readPiece c cs = .ok ((Shorter.span isData c cs).map .text) := by
    simp only [isData, Bool.and_eq_true, bne_iff_ne] at hc
    rw [readPiece, if_neg hc.1, if_neg hc.2]
  rw [eventsFrom, readPieces_cons hpiece]
  rfl

theorem eventsFrom_openingTag {attributes : List Attribute} (h : IsTag name attributes)
    (rest : List Char) : eventsFrom path (openingTag name attributes ++ rest) =
      (eventsFrom (name :: path) rest).cons (.opened name attributes) := by
  have htext : openingTag name attributes ++ rest =
      '<' :: tagContent name attributes ++ '>' :: rest := by simp [openingTag]
  rw [htext, eventsFrom_tag (h.isTagContent.staysInTag h.name) (h.isTagContent.exists_start h.name),
    eventsOf, openingEvent_tagContent h]
  rfl

/-- A reference is text of its own. -/
theorem eventsFrom_reference
    (h : name.all (fun c => c != ';' && c != '&' && c != '<') = true) (rest : List Char) :
    eventsFrom path ('&' :: name ++ ';' :: rest) =
      (eventsFrom path rest).cons (.text (referenceText name)) := by
  obtain ⟨shorter, hcut⟩ := exists_cutUntil? (d := ';') (List.all_eq_true.1 h) rfl rest
  have hreference : readReference (name ++ ';' :: rest) =
      .ok ⟨.reference name, rest, shorter⟩ := by
    rw [readReference, hcut]
    rfl
  have hread : readPiece '&' (name ++ ';' :: rest) =
      (readReference (name ++ ';' :: rest)).map .skip := rfl
  rw [hreference] at hread
  rw [List.cons_append, eventsFrom, readPieces_cons hread]
  rfl

end SwiftDecls.Xml
