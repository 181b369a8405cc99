import SwiftDecls.Proofs.Docs.Reading
import SwiftDecls.Proofs.Text.Pieces

/-!
# Documentation reads back

The documentation of a class is written as an element for the class, in it an element for the
brief text and one for the description where there are such texts, and one for the constants
with an element for each (`WritesDoc`). Between elements and around texts there can be any
white space. Any documentation can be written so (`exists_writesDoc`).

**Theorem (`read_of_writesDoc`).** Every such text is read as the documentation that it was
written for.

The reading between two elements is in one of two states, inside the class or inside its
constants, and what has been read is all that such a state holds. So each element takes one
state of its kind to the next (`readOn_part`, `readOn_constant`), and a run over several elements
is a fold (`readOn_spaced`).
-/

set_option autoImplicit false

namespace SwiftDecls

open Xml Text

/-! ## How documentation is written -/

/-- White space. -/
def IsGap (cs : List Char) : Prop := ∀ c ∈ cs, isBlank c = true

instance (cs : List Char) : Decidable (IsGap cs) := List.decidableBAll _ cs

/-- A text between white space. -/
inductive WritesText (text : String) : List Char → Prop
  | mk (before after : List Char) : IsGap before → IsGap after →
      WritesText text (before ++ escapeText text.toList ++ after)

/-- Items with white space before, between and behind them. -/
inductive WritesSpaced {α : Type} (Writes : α → List Char → Prop) : List α → List Char → Prop
  | nil (gap : List Char) : IsGap gap → WritesSpaced Writes [] gap
  | cons {a : α} {as : List α} (gap : List Char) {cs rest : List Char} : IsGap gap → Writes a cs →
      WritesSpaced Writes as rest → WritesSpaced Writes (a :: as) (gap ++ cs ++ rest)

/-- The attributes of a constant's element. -/
def DocConstant.attributes (c : DocConstant) : List Attribute :=
  ("name".toList, c.name.toList) :: ("value".toList, c.value.toList) ::
    (c.enumName.map fun e => ("enum".toList, e.toList)).toList

/-- The element of a constant. -/
inductive WritesConstant (c : DocConstant) : List Char → Prop
  | mk {body : List Char} : WritesText c.text body →
      WritesConstant c (element "constant".toList c.attributes body)

/-- What is written into the element of a class. -/
inductive DocPart where
  | brief (text : String)
  | description (text : String)
  | constants (constants : List DocConstant)

/-- The parts of documentation. -/
def ClassDoc.parts (doc : ClassDoc) : List DocPart :=
  (doc.brief.map .brief).toList ++ (doc.description.map .description).toList ++
    [.constants doc.constants]

/-- The element of a part. -/
inductive WritesPart : DocPart → List Char → Prop
  | brief {text : String} {body : List Char} : WritesText text body →
      WritesPart (.brief text) (element "brief_description".toList [] body)
  | description {text : String} {body : List Char} : WritesText text body →
      WritesPart (.description text) (element "description".toList [] body)
  | constants {constants : List DocConstant} {body : List Char} :
      WritesSpaced WritesConstant constants body →
      WritesPart (.constants constants) (element "constants".toList [] body)

/-- The text of documentation, with its parts in any order. -/
inductive WritesDoc (doc : ClassDoc) : List Char → Prop
  | mk {parts : List DocPart} (before : List Char) {body : List Char} (after : List Char) :
      parts.Perm doc.parts →
      IsGap before → WritesSpaced WritesPart parts body → IsGap after →
      WritesDoc doc (before ++
        element "class".toList [("name".toList, doc.name.toList)] body ++ after)

/-- A value that stands between quotes as it is. -/
def IsPlainValue (s : String) : Prop := ∀ c ∈ s.toList, c ∉ ['"', '<', '>', '&']

instance (s : String) : Decidable (IsPlainValue s) := List.decidableBAll _ s.toList

/-- A text without white space at its ends. -/
def IsTrimmed (s : String) : Prop := trim s.toList = s.toList

instance (s : String) : Decidable (IsTrimmed s) :=
  inferInstanceAs (Decidable (trim s.toList = s.toList))

/-- A constant that can be written. -/
structure DocConstant.Writable (c : DocConstant) : Prop where
  name : IsPlainValue c.name
  value : IsPlainValue c.value
  enumName : ∀ e ∈ c.enumName, IsPlainValue e
  text : IsTrimmed c.text

/-- Documentation that can be written. -/
structure ClassDoc.Writable (doc : ClassDoc) : Prop where
  named : doc.name ≠ ""
  name : IsPlainValue doc.name
  brief : ∀ text ∈ doc.brief, IsTrimmed text
  description : ∀ text ∈ doc.description, IsTrimmed text
  constants : ∀ c ∈ doc.constants, c.Writable

/-- A part that can be written. -/
def DocPart.Writable : DocPart → Prop
  | .brief text => IsTrimmed text
  | .description text => IsTrimmed text
  | .constants all => ∀ c ∈ all, c.Writable

theorem exists_writesSpaced {α : Type} {Writes : α → List Char → Prop} {as : List α}
    (h : ∀ a ∈ as, ∃ cs, Writes a cs) : ∃ cs, WritesSpaced Writes as cs := by
  induction as with
  | nil => exact ⟨[], .nil [] nofun⟩
  | cons a rest ih =>
    obtain ⟨cs, hcs⟩ := h a List.mem_cons_self
    obtain ⟨cs', hcs'⟩ := ih fun b hb => h b (List.mem_cons_of_mem a hb)
    exact ⟨_, .cons [] nofun hcs hcs'⟩

theorem exists_writesText (text : String) : ∃ cs, WritesText text cs :=
  ⟨_, .mk [] [] nofun nofun⟩

theorem exists_writesPart (part : DocPart) : ∃ cs, WritesPart part cs := by
  cases part with
  | brief text =>
    obtain ⟨body, h⟩ := exists_writesText text
    exact ⟨_, .brief h⟩
  | description text =>
    obtain ⟨body, h⟩ := exists_writesText text
    exact ⟨_, .description h⟩
  | constants all =>
    have hconstants : ∀ c ∈ all, ∃ cs, WritesConstant c cs := fun c _ => by
      obtain ⟨body, h⟩ := exists_writesText c.text
      exact ⟨_, .mk h⟩
    obtain ⟨body, h⟩ := exists_writesSpaced hconstants
    exact ⟨_, .constants h⟩

/-- Any documentation can be written. -/
theorem exists_writesDoc (doc : ClassDoc) : ∃ text : String, WritesDoc doc text.toList := by
  have hparts : ∀ part ∈ doc.parts, ∃ cs, WritesPart part cs := fun part _ =>
    exists_writesPart part
  obtain ⟨body, h⟩ := exists_writesSpaced hparts
  obtain ⟨cs, hdoc⟩ : ∃ cs, WritesDoc doc cs := ⟨_, .mk [] [] (.refl doc.parts) nofun h nofun⟩
  refine ⟨String.ofList cs, ?_⟩
  rwa [String.toList_ofList]

/-! ## White space -/

theorem isData_of_isBlank {c : Char} (h : isBlank c = true) : isData c = true := by
  have hopen : c ≠ '<' := fun hc => absurd (hc ▸ h) (by decide)
  have hamp : c ≠ '&' := fun hc => absurd (hc ▸ h) (by decide)
  simp [isData, hopen, hamp]

theorem trimEnd_append_gap {gap : List Char} (h : IsGap gap) (cs : List Char) :
    trimEnd (cs ++ gap) = trimEnd cs := by
  have hreverse : ∀ c ∈ gap.reverse, isBlank c = true := fun c hc => h c (List.mem_reverse.1 hc)
  rw [trimEnd, List.reverse_append, List.dropWhile_append_of_pos hreverse]
  rfl

theorem trim_append_gap {gap : List Char} (h : IsGap gap) (cs : List Char) :
    trim (cs ++ gap) = trim cs := by
  rw [trim, trim, List.dropWhile_append]
  split
  · rename_i hblank
    have hgap : gap.dropWhile isBlank = [] := List.dropWhile_eq_nil_iff.2 h
    rw [hgap, List.isEmpty_iff.1 hblank]
  · exact trimEnd_append_gap h (cs.dropWhile isBlank)

/-- White space around a text is trimmed off. -/
theorem trim_gaps {before after : List Char} (hbefore : IsGap before) (hafter : IsGap after)
    (cs : List Char) : trim (before ++ cs ++ after) = trim cs := by
  rw [trim_append_gap hafter, trim, List.dropWhile_append_of_pos hbefore]
  rfl

namespace DocReading

/-- Between elements white space counts for nothing. -/
theorem readOn_gap {gap : List Char} (h : IsGap gap) {r : DocReading} (hr : r.gathered = none)
    (cs : List Char) : r.readOn (gap ++ cs) = r.readOn cs := by
  rw [readOn_data_append (fun c hc => isData_of_isBlank (h c hc)), gather_of_none hr]

/-- What is gathered from a written text, once it is trimmed, is the text. -/
theorem readOn_text {text : String} {body : List Char} (htext : IsTrimmed text)
    (h : WritesText text body) (r : DocReading) (hr : r.gathered = some []) :
    ∃ gathered, String.ofList (trim gathered) = text ∧
      ∀ cs, r.readOn (body ++ cs) = DocReading.readOn { r with gathered := some gathered } cs := by
  obtain ⟨before, after, hbefore, hafter⟩ := h
  -- The three pieces are gathered in a row; only the trimming tells them apart.
  refine ⟨before ++ text.toList ++ after, ?_, fun cs => ?_⟩
  · rw [trim_gaps hbefore hafter, htext, String.ofList_toList]
  · rw [List.append_assoc, List.append_assoc,
      readOn_data_append (fun c hc => isData_of_isBlank (hbefore c hc)), readOn_escapeText,
      readOn_data_append (fun c hc => isData_of_isBlank (hafter c hc)), gather_gather,
      gather_gather, gather, hr, Option.map_some, List.nil_append, List.append_assoc]

/-! ## One element after the other -/

/-- Items are read one after the other if each takes one state of a kind to the next. -/
theorem readOn_spaced {α β : Type} {Writes : α → List Char → Prop} (state : β → DocReading)
    (put : β → α → β) (hstate : ∀ b, (state b).gathered = none) {as : List α}
    (hstep : ∀ a ∈ as, ∀ (b : β) (cs rest : List Char), Writes a cs →
      (state b).readOn (cs ++ rest) = (state (put b a)).readOn rest)
    {cs : List Char} (h : WritesSpaced Writes as cs) (b : β) (rest : List Char) :
    (state b).readOn (cs ++ rest) = (state (as.foldl put b)).readOn rest := by
  induction h generalizing b with
  | nil gap hgap => exact readOn_gap hgap (hstate b) rest
  | @cons a as gap cs cs' hgap ha _ ih =>
    have hrest : ∀ a' ∈ as, ∀ (b : β) (cs rest : List Char), Writes a' cs →
        (state b).readOn (cs ++ rest) = (state (put b a')).readOn rest :=
      fun a' ha' => hstep a' (List.mem_cons_of_mem a ha')
    calc (state b).readOn (gap ++ cs ++ cs' ++ rest)
      _ = (state b).readOn (cs ++ (cs' ++ rest)) := by
        rw [List.append_assoc, List.append_assoc, readOn_gap hgap (hstate b)]
      _ = (state (put b a)).readOn (cs' ++ rest) := hstep a List.mem_cons_self b cs _ ha
      _ = (state (as.foldl put (put b a))).readOn rest := ih hrest (put b a)

/-- Between the parts of a class. -/
def inClass (doc : ClassDoc) : DocReading := { doc := some doc, path := ["class".toList] }

/-- Between constants. -/
def inConstants (doc : ClassDoc) : DocReading :=
  { doc := some doc, path := ["constants".toList, "class".toList] }

end DocReading

/-- Documentation with one more constant at its end. -/
def ClassDoc.putConstant (doc : ClassDoc) (c : DocConstant) : ClassDoc :=
  { doc with constants := doc.constants ++ [c] }

/-- Documentation with one more part. -/
def ClassDoc.putPart (doc : ClassDoc) : DocPart → ClassDoc
  | .brief text => { doc with brief := some text }
  | .description text => { doc with description := some text }
  | .constants all => all.foldl ClassDoc.putConstant doc

theorem foldl_putConstant (constants : List DocConstant) (doc : ClassDoc) :
    constants.foldl ClassDoc.putConstant doc =
      { doc with constants := doc.constants ++ constants } := by
  induction constants generalizing doc with
  | nil => rw [List.append_nil]; rfl
  | cons c rest ih =>
    rw [List.foldl_cons, ih, ClassDoc.putConstant, List.append_assoc, List.singleton_append]

/-! ## Constants -/

theorem isAttribute_of_isPlainValue (name : List Char) (hname : IsName name) {value : String}
    (hvalue : IsPlainValue value) : IsAttribute (name, value.toList) where
  name := hname
  value := fun hquote => hvalue '"' hquote (by decide)

theorem isTag_attributes {c : DocConstant} (h : c.Writable) :
    IsTag "constant".toList c.attributes := by
  have hname := isAttribute_of_isPlainValue "name".toList (by decide) h.name
  have hvalue := isAttribute_of_isPlainValue "value".toList (by decide) h.value
  refine ⟨by decide, List.forall_mem_cons.2 ⟨hname, List.forall_mem_cons.2 ⟨hvalue, ?_⟩⟩, ?_⟩
  · intro a ha
    obtain ⟨e, he, rfl⟩ := Option.map_eq_some_iff.1 (Option.mem_toList.1 ha)
    exact isAttribute_of_isPlainValue "enum".toList (by decide) (h.enumName e he)
  · unfold DocConstant.attributes
    cases c.enumName with
    | none => exact (by decide : ["name".toList, "value".toList].Nodup)
    | some e => exact (by decide : ["name".toList, "value".toList, "enum".toList].Nodup)

/-- The attributes say all about a constant but its text. -/
theorem constantOf_attributes (c : DocConstant) :
    { constantOf c.attributes with text := c.text } = c := by
  obtain ⟨name, value, enumName, text⟩ := c
  cases enumName with
  | none => simp [DocConstant.attributes, constantOf, attributeText, List.lookup_cons]
  | some e => simp [DocConstant.attributes, constantOf, attributeText, List.lookup_cons]

namespace DocReading

theorem readOn_constant {c : DocConstant} (hc : c.Writable) {cs : List Char}
    (h : WritesConstant c cs) (doc : ClassDoc) (rest : List Char) :
    (inConstants doc).readOn (cs ++ rest) = (inConstants (doc.putConstant c)).readOn rest := by
  obtain ⟨htext⟩ := h
  let opened : DocReading := { inConstants doc with
    path := "constant".toList :: (inConstants doc).path
    gathered := some []
    constant := constantOf c.attributes }
  have hopen : (inConstants doc).opened "constant".toList c.attributes = .ok opened := rfl
  obtain ⟨gathered, htrim, hbody⟩ := readOn_text hc.text htext opened rfl
  have hclosed : DocReading.closed { opened with gathered := some gathered } =
      inConstants (doc.putConstant { constantOf c.attributes with
        text := String.ofList (trim gathered) }) := rfl
  rw [readOn_element (isTag_attributes hc) hopen hbody rfl, hclosed, htrim,
    constantOf_attributes]

end DocReading

/-! ## Parts of a class -/

section parts

variable {doc : ClassDoc}

theorem brief_mem_parts {text : String} : .brief text ∈ doc.parts ↔ doc.brief = some text := by
  simp [ClassDoc.parts]

theorem description_mem_parts {text : String} :
    .description text ∈ doc.parts ↔ doc.description = some text := by
  simp [ClassDoc.parts]

theorem constants_mem_parts {constants : List DocConstant} :
    .constants constants ∈ doc.parts ↔ constants = doc.constants := by
  simp [ClassDoc.parts]

theorem writable_of_mem_parts (h : doc.Writable) {part : DocPart} (hpart : part ∈ doc.parts) :
    part.Writable := by
  cases part with
  | brief text => exact h.brief text (brief_mem_parts.1 hpart)
  | description text => exact h.description text (description_mem_parts.1 hpart)
  | constants constants =>
    rw [constants_mem_parts.1 hpart]
    exact h.constants

/-- The parts of one class say different things about it. -/
theorem putPart_comm {x y : DocPart} (hx : x ∈ doc.parts) (hy : y ∈ doc.parts) (d : ClassDoc) :
    (d.putPart x).putPart y = (d.putPart y).putPart x := by
  -- Parts of one kind are the same part, and parts of two kinds set different fields.
  cases x with
  | brief text =>
    cases y with
    | brief text' =>
      cases (brief_mem_parts.1 hx).symm.trans (brief_mem_parts.1 hy)
      rfl
    | description text' => rfl
    | constants constants' => simp only [ClassDoc.putPart, foldl_putConstant]
  | description text =>
    cases y with
    | brief text' => rfl
    | description text' =>
      cases (description_mem_parts.1 hx).symm.trans (description_mem_parts.1 hy)
      rfl
    | constants constants' => simp only [ClassDoc.putPart, foldl_putConstant]
  | constants constants =>
    cases y with
    | brief text' => simp only [ClassDoc.putPart, foldl_putConstant]
    | description text' => simp only [ClassDoc.putPart, foldl_putConstant]
    | constants constants' => rw [constants_mem_parts.1 hx, constants_mem_parts.1 hy]

/-- The parts in any order make the documentation. -/
theorem foldl_putPart {parts : List DocPart} (h : parts.Perm doc.parts) :
    parts.foldl ClassDoc.putPart { name := doc.name } = doc := by
  have hcomm : ∀ x ∈ parts, ∀ y ∈ parts, ∀ d : ClassDoc,
      (d.putPart x).putPart y = (d.putPart y).putPart x := fun x hx y hy d =>
    putPart_comm (h.mem_iff.1 hx) (h.mem_iff.1 hy) d
  rw [h.foldl_eq' hcomm]
  obtain ⟨name, brief, description, constants⟩ := doc
  cases brief <;> cases description <;>
    simp [ClassDoc.parts, ClassDoc.putPart, foldl_putConstant]

end parts

namespace DocReading

/-- An element whose text is one part of the documentation. -/
theorem readOn_textElement {name : List Char} (hname : IsName name) {doc : ClassDoc}
    (put : String → ClassDoc)
    (hopen : (inClass doc).opened name [] =
      .ok { inClass doc with path := name :: (inClass doc).path, gathered := some [] })
    (hclosed : ∀ gathered, DocReading.closed { inClass doc with
      path := name :: (inClass doc).path, gathered := some gathered } =
        inClass (put (String.ofList (trim gathered))))
    {text : String} {body : List Char} (htext : IsTrimmed text) (h : WritesText text body)
    (rest : List Char) :
    (inClass doc).readOn (element name [] body ++ rest) = (inClass (put text)).readOn rest := by
  obtain ⟨gathered, htrim, hbody⟩ := readOn_text htext h
    { inClass doc with path := name :: (inClass doc).path, gathered := some [] } rfl
  rw [readOn_element ⟨hname, by simp, by simp⟩ hopen hbody rfl, hclosed, htrim]

theorem readOn_part {part : DocPart} (hpart : part.Writable) {cs : List Char}
    (h : WritesPart part cs) (doc : ClassDoc) (rest : List Char) :
    (inClass doc).readOn (cs ++ rest) = (inClass (doc.putPart part)).readOn rest := by
  cases h with
  | @brief text body htext =>
    exact readOn_textElement (by decide) (fun text => doc.putPart (.brief text)) rfl
      (fun _ => rfl) hpart htext rest
  | @description text body htext =>
    exact readOn_textElement (by decide) (fun text => doc.putPart (.description text)) rfl
      (fun _ => rfl) hpart htext rest
  | @constants constants body hbody =>
    have hread : ∀ cs, (inConstants doc).readOn (body ++ cs) =
        (inConstants (constants.foldl ClassDoc.putConstant doc)).readOn cs :=
      readOn_spaced inConstants ClassDoc.putConstant (fun _ => rfl)
        (fun c hc d cs rest h => readOn_constant (hpart c hc) h d rest) hbody doc
    rw [readOn_element ⟨by decide, by simp, by simp⟩ rfl hread rfl]
    rfl

end DocReading

/-! ## The whole text -/

theorem dropByteOrderMark_gap_append {gap : List Char} (h : IsGap gap) (cs : List Char) :
    dropByteOrderMark (gap ++ '<' :: cs) = gap ++ '<' :: cs := by
  apply dropByteOrderMark_of_head?
  intro c hc
  cases gap with
  | nil =>
    cases hc
    decide
  | cons d rest =>
    cases hc
    rintro rfl
    exact absurd (h byteOrderMark List.mem_cons_self) (by decide)

theorem classOf_name {name : String} (h : name ≠ "") :
    classOf [("name".toList, name.toList)] = .ok { name } := by
  have hname : attributeText [("name".toList, name.toList)] "name" = name := by
    simp [attributeText]
  unfold classOf
  rw [hname, if_neg (by simpa using h)]

theorem DocReading.opened_class {attributes : List Attribute} {doc : ClassDoc}
    (h : classOf attributes = .ok doc) :
    ({} : DocReading).opened "class".toList attributes = .ok (DocReading.inClass doc) := by
  have htext : docText? "class".toList [] = none := rfl
  simp only [opened, htext, h]
  rfl

/-- **Documentation reads back.** -/
theorem read_of_writesDoc {doc : ClassDoc} {text : String} (hdoc : doc.Writable)
    (h : WritesDoc doc text.toList) : ClassDoc.read text = .ok doc := by
  rw [DocReading.read_eq_readOn]
  generalize text.toList = cs at h
  obtain @⟨parts, before, body, after, hparts, hbefore, hbody, hafter⟩ := h
  have htag : IsTag "class".toList [("name".toList, doc.name.toList)] := by
    refine ⟨by decide, ?_, by simp⟩
    simpa using isAttribute_of_isPlainValue "name".toList (by decide) hdoc.name
  have hopen : ({} : DocReading).opened "class".toList [("name".toList, doc.name.toList)] =
      .ok (DocReading.inClass { name := doc.name }) :=
    DocReading.opened_class (classOf_name hdoc.named)
  have hread : ∀ cs, (DocReading.inClass { name := doc.name }).readOn (body ++ cs) =
      (DocReading.inClass doc).readOn cs := by
    intro cs
    rw [DocReading.readOn_spaced DocReading.inClass ClassDoc.putPart (fun _ => rfl)
      (fun part hpart d cs rest h => DocReading.readOn_part
        (writable_of_mem_parts hdoc (hparts.mem_iff.1 hpart)) h d rest) hbody,
      foldl_putPart hparts]
  have hdrop : dropByteOrderMark (before ++
      element "class".toList [("name".toList, doc.name.toList)] body ++ after) = before ++
        (element "class".toList [("name".toList, doc.name.toList)] body ++ after) := by
    rw [List.append_assoc]
    exact dropByteOrderMark_gap_append hbefore _
  have hend : ({ doc := some doc } : DocReading).readOn after = .ok doc := by
    rw [← List.append_nil after, DocReading.readOn_gap hafter rfl, DocReading.readOn]
    rw [eventsFrom_nil]
    rfl
  rw [hdrop, DocReading.readOn_gap hbefore rfl, DocReading.readOn_element htag hopen hread rfl]
  exact hend

/-- Documentation with all marks in a text, and with a constant that belongs to no enum. -/
def sideDoc : ClassDoc where
  name := "@Side"
  description := some "a < b & b > c"
  constants := [⟨"LEFT", "0", some "Side", "Left."⟩, ⟨"HALF", "it's 1/2", none, ""⟩]

/-- A text of this documentation, with the constants in front. -/
def sideText : String :=
  "\n<class name=\"@Side\">\n\t<constants>\n" ++
    "\t\t<constant name=\"LEFT\" value=\"0\" enum=\"Side\">\n\t\t\tLeft.\n\t\t</constant>\n" ++
    "\t\t<constant name=\"HALF\" value=\"it's 1/2\"> </constant></constants>\n" ++
    "<description>a &lt; b &amp; b &gt; c </description></class>\n"

theorem read_of_writesDoc_of_side : sideDoc.Writable ∧ WritesDoc sideDoc sideText.toList ∧
    ClassDoc.read sideText = .ok sideDoc := by
  have hdoc : sideDoc.Writable := by
    constructor
    case constants =>
      intro c hc
      have hconstants : c = ⟨"LEFT", "0", some "Side", "Left."⟩ ∨
          c = ⟨"HALF", "it's 1/2", none, ""⟩ := by simpa [sideDoc] using hc
      rcases hconstants with rfl | rfl
      · constructor <;> decide
      · constructor <;> decide
    all_goals decide
  have hleft : WritesConstant ⟨"LEFT", "0", some "Side", "Left."⟩ _ :=
    .mk (.mk "\n\t\t\t".toList "\n\t\t".toList (by decide) (by decide))
  have hhalf : WritesConstant ⟨"HALF", "it's 1/2", none, ""⟩ _ :=
    .mk (.mk " ".toList [] (by decide) (by decide))
  have hconstants : WritesPart (.constants sideDoc.constants) _ :=
    .constants (.cons "\n\t\t".toList (by decide) hleft
      (.cons "\n\t\t".toList (by decide) hhalf (.nil [] (by decide))))
  have hdescription : WritesPart (.description "a < b & b > c") _ :=
    .description (.mk [] " ".toList (by decide) (by decide))
  have hwritten : WritesDoc sideDoc _ :=
    .mk "\n".toList "\n".toList (.swap _ _ []) (by decide)
      (.cons "\n\t".toList (by decide) hconstants
        (.cons "\n".toList (by decide) hdescription (.nil [] (by decide)))) (by decide)
  have hchars : sideText = String.ofList _ :=
    append_eq_ofList (append_eq_ofList (append_eq_ofList rfl rfl) rfl) rfl
  have htext : WritesDoc sideDoc sideText.toList := by
    rw [hchars, String.toList_ofList]
    apply Eq.mp (congrArg (WritesDoc sideDoc) _) hwritten
    decide +kernel
  exact ⟨hdoc, htext, read_of_writesDoc hdoc htext⟩

end SwiftDecls
