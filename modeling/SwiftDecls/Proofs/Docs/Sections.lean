import SwiftDecls.Proofs.Docs.ReadBack
import SwiftDecls.Proofs.Xml.Prolog

/-!
# Sections that documentation is not read from

The file of a class has sections for methods, signals and more, and the elements in them have
names like `description` too. A text counts only in the element that it documents, so a section
of another name changes nothing, whatever is in it.

**Theorem (`read_ignores_section`).** Take a text up to a place between the children of its class,
and an element of another name than the sections that are read, without a class or constants in
it. With the element at that place the text is read as it is without it.

A section that is itself named `class` must not have descriptions directly in it, for these would
be read as those of the class (`read_nested_class`).

Two facts about content carry the proof. Behind any content of an element the reading is in that
element again, and nothing is gathered if nothing was before (`exists_later`). Content in which
nothing is read leaves such a reading as it is (`readOn_silent`).
-/

set_option autoImplicit false

namespace SwiftDecls

open Xml Text

/-! ## What can stand where -/

/-- The sections of a class that its documentation is read from. -/
def ownSections : List (List Char) :=
  ["brief_description".toList, "description".toList, "constants".toList]

/-- The sections with a text of the class. -/
def textSections : List (List Char) := ["brief_description".toList, "description".toList]

/-- The elements that texts are read in. -/
def textHolders : List (List Char) := ["class".toList, "constants".toList]

/-- An element that texts are read in stands nowhere, and nothing that is read stands in a class. -/
def IsOther (parent name : List Char) : Prop :=
  name ∉ textHolders ∧ (parent = "class".toList → name ∉ textSections)

/-- A text up to a place between the children of its class. -/
inductive OpensClass : List Char → Prop
  | mk {prolog tag children : List Char} : IsProlog prolog → IsOpeningTag "class".toList tag →
      IsContent (fun _ _ => True) "class".toList children → OpensClass (prolog ++ tag ++ children)

/-- Nothing is read from an element that stands directly in another. -/
def IsSilent (parent name : List Char) : Prop :=
  ∀ path : List (List Char), docText? name (parent :: path) = none

theorem isSilent_of_ne {parent name : List Char} (hconstants : parent ≠ "constants".toList)
    (hclass : parent = "class".toList → name ∉ textSections) : IsSilent parent name := by
  intro path
  show (if parent = "class".toList then _ else _) = none
  split
  · rename_i hparent
    have hname := hclass hparent
    simp only [textSections, List.mem_cons, List.not_mem_nil, or_false, not_or] at hname
    rw [if_neg hname.1, if_neg hname.2]
  · exact if_neg fun h => hconstants h.1

/-- A section of another name, seen from the class that it stands in. -/
theorem isSilent_section {name text : List Char} (hname : name ∉ ownSections)
    (h : IsElement IsOther name text) : IsContent IsSilent "class".toList text := by
  simp only [ownSections, List.mem_cons, List.not_mem_nil, or_false, not_or] at hname
  have hsilent : IsElement IsSilent name text := by
    apply h.mono (P := (· ≠ "constants".toList)) _ hname.2.2
    rintro parent name hparent hother
    refine ⟨isSilent_of_ne hparent hother.2, ?_⟩
    rintro rfl
    exact hother.1 (by decide)
  apply hsilent.content
  apply isSilent_of_ne (by decide)
  intro _
  simp only [textSections, List.mem_cons, List.not_mem_nil, or_false, not_or]
  exact ⟨hname.1, hname.2.1⟩

/-- What stands in a class matters only in a section that is itself a class. -/
theorem isOther_section {name text : List Char} (hname : name ≠ "class".toList)
    (h : IsElement (fun _ inner => inner ∉ textHolders) name text) :
    IsElement IsOther name text := by
  apply h.mono (P := (· ≠ "class".toList)) _ hname
  rintro parent name hparent hother
  refine ⟨⟨hother, fun heq => absurd heq hparent⟩, ?_⟩
  rintro rfl
  exact hother (by decide)

namespace DocReading

variable {r r' : DocReading} {name parent : List Char} {attributes : List Attribute}

/-! ## Reading on behind a piece -/

theorem readOn_isPassed {markup : List Char} (h : IsPassed markup) (r : DocReading)
    (rest : List Char) : r.readOn (markup ++ rest) = r.readOn rest := by
  rw [readOn, eventsFrom_isPassed h, readOn]

/-- Nothing is read before the first element. -/
theorem readOn_isProlog {prolog : List Char} (h : IsProlog prolog) (hr : r.gathered = none)
    (rest : List Char) : r.readOn (prolog ++ rest) = r.readOn rest := by
  induction h with
  | nil => rfl
  | data hc _ ih => rw [List.cons_append, readOn_data hc, gather_of_none hr, ih]
  | passed hmarkup _ ih => rw [List.append_assoc, readOn_isPassed hmarkup, ih]
  | doctype hdoctype _ ih =>
    rw [List.append_assoc, readOn, eventsFrom_isDoctype hdoctype]
    exact ih

/-! ## Opening and closing inside an element -/

/-- An element without a text only opens, unless it is the class. -/
theorem opened_silent (htext : docText? name r.path = none)
    (hroot : ¬(r.path = [] ∧ name = "class".toList)) :
    r.opened name attributes = .ok { r with path := name :: r.path } := by
  have hother : ¬(r.path.isEmpty = true ∧ name = "class".toList) := by rwa [List.isEmpty_iff]
  simp only [opened, htext, hother, if_false]
  rfl

theorem opened_other (h : docText? name r.path = none) (hpath : r.path ≠ []) :
    r.opened name attributes = .ok { r with path := name :: r.path } :=
  opened_silent h fun hroot => hpath hroot.1

theorem opened_constant (h : docText? name r.path = some .constant) :
    r.opened name attributes = .ok { r with
      path := name :: r.path, gathered := some [], constant := constantOf attributes } := by
  simp only [opened, h]
  rfl

theorem opened_text {t : DocText} (h : docText? name r.path = some t) (ht : t ≠ .constant) :
    r.opened name attributes = .ok { r with path := name :: r.path, gathered := some [] } := by
  cases t with
  | constant => exact absurd rfl ht
  | brief | description =>
    simp only [opened, h]
    rfl

theorem closed_other {outer : List (List Char)} (hpath : r.path = name :: outer)
    (h : docText? name outer = none) : r.closed = { r with path := outer } := by
  obtain ⟨doc, path, gathered, constant⟩ := r
  cases hpath
  cases doc with
  | none => rfl
  | some doc => simp only [closed, h]

/-- An element with a text takes what is gathered, except a constant that is complete already. -/
theorem closed_text {outer : List (List Char)} (hpath : r.path = name :: outer)
    (hdoc : r.doc.isSome = true) {t : DocText} (h : docText? name outer = some t)
    (hpending : t = .constant → r.gathered = none ∨ r.constant ≠ none) :
    r.closed.gathered = none ∧ r.closed.doc.isSome = true := by
  obtain ⟨doc, path, gathered, constant⟩ := r
  cases hpath
  obtain ⟨doc, rfl⟩ := Option.isSome_iff_exists.1 hdoc
  cases t with
  | brief | description => simp [closed, h]
  | constant =>
    cases constant with
    | none =>
      have hgathered : gathered = none := (hpending rfl).resolve_right fun hne => hne rfl
      simp [closed, h, hgathered]
    | some c => simp [closed, h, addConstant]

/-! ## Behind any content -/

/-- How the reading may have changed behind content of an element. -/
structure Later (r r' : DocReading) : Prop where
  path : r'.path = r.path
  doc : r.doc.isSome = true → r'.doc.isSome = true
  gathered : r.gathered = none → r'.gathered = none
  /-- In a constant something is gathered at most until the constant is complete. -/
  pending : r.gathered = none ∨ r.constant ≠ none → r'.gathered = none ∨ r'.constant ≠ none

namespace Later

theorem refl (r : DocReading) : Later r r := ⟨rfl, id, id, id⟩

theorem trans {r'' : DocReading} (h : Later r r') (h' : Later r' r'') : Later r r'' where
  path := h'.path.trans h.path
  doc := h'.doc ∘ h.doc
  gathered := h'.gathered ∘ h.gathered
  pending := h'.pending ∘ h.pending

theorem gather (r : DocReading) (cs : List Char) : Later r (r.gather cs) := by
  have hgathered : r.gathered = none → (r.gather cs).gathered = none := fun hr => by
    rw [gather_of_none hr, hr]
  exact ⟨rfl, id, hgathered, Or.imp_left hgathered⟩

theorem addConstant (r : DocReading) (c : DocConstant) : Later r (r.addConstant c) := by
  refine ⟨rfl, fun hdoc => ?_, id, id⟩
  rw [DocReading.addConstant, Option.isSome_map, hdoc]

/-- An element opens in another, and behind content of its own it closes. -/
theorem element (hpath : r.path ≠ []) (hdoc : r.doc.isSome = true) (name : List Char)
    (attributes : List Attribute) : ∃ opened, r.opened name attributes = .ok opened ∧
      opened.doc.isSome = true ∧ ∀ after, Later opened after → Later r after.closed := by
  cases htext : docText? name r.path with
  | none =>
    refine ⟨_, opened_other htext hpath, hdoc, fun after h => ?_⟩
    rw [closed_other h.path htext]
    exact ⟨rfl, h.doc, h.gathered, h.pending⟩
  | some t =>
    by_cases ht : t = .constant
    · subst ht
      refine ⟨_, opened_constant htext, hdoc, fun after h => ?_⟩
      have hpending := h.pending (.inr nofun)
      obtain ⟨hgathered, hclosed⟩ := closed_text h.path (h.doc hdoc) htext fun _ => hpending
      exact ⟨path_closed h.path, fun _ => hclosed, fun _ => hgathered, fun _ => .inl hgathered⟩
    · refine ⟨_, opened_text htext ht, hdoc, fun after h => ?_⟩
      obtain ⟨hgathered, hclosed⟩ :=
        closed_text h.path (h.doc hdoc) htext fun heq => absurd heq ht
      exact ⟨path_closed h.path, fun _ => hclosed, fun _ => hgathered, fun _ => .inl hgathered⟩

end Later

/-- Content of an element is read from one reading in the element to another. -/
theorem exists_later {Fits : List Char → List Char → Prop} {cs : List Char}
    (h : IsContent Fits parent cs) (hpath : r.path ≠ []) (hdoc : r.doc.isSome = true) :
    ∃ r', Later r r' ∧ ∀ rest, r.readOn (cs ++ rest) = r'.readOn rest := by
  induction h generalizing r with
  | nil => exact ⟨r, .refl r, fun _ => rfl⟩
  | @data _ cs c hc _ ih =>
    obtain ⟨r', hlater, hread⟩ := ih (r := r.gather [c]) hpath hdoc
    refine ⟨r', (Later.gather r [c]).trans hlater, fun rest => ?_⟩
    rw [List.cons_append, readOn_data hc, hread]
  | @reference _ name cs hname _ ih =>
    obtain ⟨r', hlater, hread⟩ := ih (r := r.gather (referenceText name)) hpath hdoc
    refine ⟨r', (Later.gather r _).trans hlater, fun rest => ?_⟩
    rw [List.append_assoc]
    show r.readOn ('&' :: name ++ ';' :: (cs ++ rest)) = r'.readOn rest
    rw [readOn_reference name hname, hread]
  | passed hmarkup _ ih =>
    obtain ⟨r', hlater, hread⟩ := ih hpath hdoc
    refine ⟨r', hlater, fun rest => ?_⟩
    rw [List.append_assoc, readOn_isPassed hmarkup, hread]
  | @empty _ name tag cs _ htag _ ih =>
    obtain ⟨attributes, htagRead⟩ := readOn_isEmptyTag htag
    by_cases htext : docText? name r.path = some .constant
    · have hadded := Later.addConstant r (constantOf attributes)
      obtain ⟨r', hlater, hread⟩ := ih (r := r.addConstant (constantOf attributes)) hpath
        (hadded.doc hdoc)
      refine ⟨r', hadded.trans hlater, fun rest => ?_⟩
      rw [List.append_assoc, htagRead, if_pos htext, hread]
    · obtain ⟨r', hlater, hread⟩ := ih hpath hdoc
      refine ⟨r', hlater, fun rest => ?_⟩
      rw [List.append_assoc, htagRead, if_neg htext, hread]
  | @element _ name opening body closing cs _ hopening _ hclosing _ ihbody ih =>
    obtain ⟨attributes, htagRead⟩ := readOn_isOpeningTag hopening
    obtain ⟨inside, hopen, hinside, hclose⟩ := Later.element hpath hdoc name attributes
    have hname : inside.path = name :: r.path := path_of_opened hopen
    have hne : inside.path ≠ [] := by
      rw [hname]
      exact List.cons_ne_nil name r.path
    obtain ⟨after, hafter, hbody⟩ := ihbody hne hinside
    have hclosed := hclose after hafter
    have hpath' : after.closed.path ≠ [] := by rwa [hclosed.path]
    obtain ⟨r', hlater, hread⟩ := ih hpath' (hclosed.doc hdoc)
    refine ⟨r', hclosed.trans hlater, fun rest => ?_⟩
    rw [List.append_assoc, List.append_assoc, List.append_assoc, htagRead, hopen]
    show inside.readOn (body ++ (closing ++ (cs ++ rest))) = r'.readOn rest
    rw [hbody, readOn_isClosingTag hopening.isName hclosing (hafter.path.trans hname), hread]

/-! ## Content in which nothing is read -/

/-- No text and no constant is read from content that is not gathered. -/
theorem readOn_silent {cs : List Char} (h : IsContent IsSilent parent cs)
    {outer : List (List Char)} (hpath : r.path = parent :: outer) (hr : r.gathered = none)
    (rest : List Char) : r.readOn (cs ++ rest) = r.readOn rest := by
  induction h generalizing r outer rest with
  | nil => rfl
  | data hc _ ih =>
    rw [List.cons_append, readOn_data hc, gather_of_none hr]
    exact ih hpath hr rest
  | @reference _ name cs hname _ ih =>
    rw [List.append_assoc]
    show r.readOn ('&' :: name ++ ';' :: (cs ++ rest)) = r.readOn rest
    rw [readOn_reference name hname, gather_of_none hr]
    exact ih hpath hr rest
  | passed hmarkup _ ih =>
    rw [List.append_assoc, readOn_isPassed hmarkup]
    exact ih hpath hr rest
  | @empty _ name _ _ hfits htag _ ih =>
    obtain ⟨attributes, htagRead⟩ := readOn_isEmptyTag htag
    have htext : docText? name r.path = none := by rw [hpath, hfits]
    rw [List.append_assoc, htagRead, htext, if_neg nofun]
    exact ih hpath hr rest
  | @element _ name opening body closing cs hfits hopening _ hclosing _ ihbody ih =>
    obtain ⟨attributes, htagRead⟩ := readOn_isOpeningTag hopening
    have htext : docText? name r.path = none := by rw [hpath, hfits]
    have hne : r.path ≠ [] := by
      rw [hpath]
      exact List.cons_ne_nil _ outer
    let inside : DocReading := { r with path := name :: r.path }
    have hclosed : inside.closed = r := closed_other rfl htext
    rw [List.append_assoc, List.append_assoc, List.append_assoc, htagRead,
      opened_other htext hne]
    show inside.readOn (body ++ (closing ++ (cs ++ rest))) = r.readOn rest
    rw [ihbody (r := inside) rfl hr, readOn_isClosingTag hopening.isName hclosing rfl, hclosed]
    exact ih hpath hr rest

/-- Between the children of its class a text is read from one reading in the class. -/
theorem exists_inClass {front : List Char} (h : OpensClass front) :
    (∃ e, ∀ rest, ({} : DocReading).readOn (front ++ rest) = .error e) ∨
      ∃ r : DocReading, r.path = ["class".toList] ∧ r.gathered = none ∧
        ∀ rest, ({} : DocReading).readOn (front ++ rest) = r.readOn rest := by
  obtain @⟨prolog, tag, children, hprolog, htag, hchildren⟩ := h
  obtain ⟨attributes, htagRead⟩ := readOn_isOpeningTag htag
  have hread : ∀ rest, ({} : DocReading).readOn (prolog ++ tag ++ children ++ rest) =
      ({} : DocReading).opened "class".toList attributes >>= fun r' =>
        r'.readOn (children ++ rest) := by
    intro rest
    rw [List.append_assoc, List.append_assoc, readOn_isProlog hprolog rfl, htagRead]
  cases hclass : classOf attributes with
  | error e =>
    have hopen : ({} : DocReading).opened "class".toList attributes = .error e := by
      have htext : docText? "class".toList [] = none := rfl
      simp only [opened, htext, hclass]
      rfl
    refine .inl ⟨e, fun rest => ?_⟩
    rw [hread, hopen]
    rfl
  | ok doc =>
    obtain ⟨r', hlater, hchildrenRead⟩ :=
      exists_later (r := inClass doc) hchildren (List.cons_ne_nil _ []) rfl
    refine .inr ⟨r', hlater.path, hlater.gathered rfl, fun rest => ?_⟩
    rw [hread, opened_class hclass]
    exact hchildrenRead rest

end DocReading

/-! ## Sections of other names -/

theorem read_eq_readOn_toList (text : String) :
    ClassDoc.read text = ({} : DocReading).readOn text.toList := by
  rw [DocReading.read_eq_readOn]
  cases text.toList with
  | nil => rfl
  | cons c rest =>
    by_cases hc : c = byteOrderMark
    · subst hc
      exact (DocReading.readOn_data (by decide) {} rest).symm
    · have hstart : ∀ d ∈ (c :: rest).head?, d ≠ byteOrderMark := by
        rintro d ⟨⟩
        exact hc
      rw [dropByteOrderMark_of_head? hstart]

/-- **Documentation is not read from a section of another name.** -/
theorem read_ignores_section {front inserted rest : String} {name : List Char}
    (hfront : OpensClass front.toList) (hname : name ∉ ownSections)
    (hinserted : IsElement IsOther name inserted.toList) :
    ClassDoc.read (front ++ inserted ++ rest) = ClassDoc.read (front ++ rest) := by
  have hsilent := isSilent_section hname hinserted
  rw [read_eq_readOn_toList, read_eq_readOn_toList, String.toList_append, String.toList_append,
    String.toList_append, List.append_assoc]
  rcases DocReading.exists_inClass hfront with ⟨e, hread⟩ | ⟨r, hpath, hgathered, hread⟩
  · rw [hread, hread]
  · rw [hread, hread, DocReading.readOn_silent hsilent hpath hgathered]

/-- A text up to behind the description of its class. -/
def describedClass : String :=
  "<?xml version=\"1.0\"?>\n<class name=\"A\"><description>D</description>"

theorem opensClass_describedClass : OpensClass describedClass.toList := by
  have hinstruction :
      IsPassed ("<?".toList ++ ('x' :: "ml version=\"1.0\"".toList) ++ "?>".toList) :=
    .instruction (by decide) (by decide)
  have hclass : IsTag "class".toList [("name".toList, "A".toList)] := by
    refine ⟨by decide, ?_, by decide⟩
    simpa using isAttribute_of_isPlainValue "name".toList (by decide) (by decide : IsPlainValue "A")
  have hdescription : IsTag "description".toList [] := ⟨by decide, nofun, by decide⟩
  have htext : IsContent (fun _ _ => True) "description".toList "D".toList := .data rfl .nil
  have hopens : OpensClass _ := .mk (.passed hinstruction (.data (c := '\n') rfl .nil))
    hclass.isOpeningTag
      (.element trivial hdescription.isOpeningTag htext (isClosingTag_closingTag _) .nil)
  apply Eq.mp (congrArg OpensClass _) hopens
  decide +kernel

/-- A section of methods, with a description, a constant and marks of markup in it. -/
def methodsText : String :=
  "<methods ><method name='>'>&lt;<description>M</description><constant/></method></methods>"

theorem isElement_methodsText : IsElement (fun _ inner => inner ∉ textHolders) "methods".toList
    methodsText.toList := by
  have hmethods : IsTagContent "methods".toList "methods ".toList := by
    refine @IsTagContent.mk _ [' '] ?_ (.of_chars rfl)
    rintro c ⟨⟩
    rfl
  have hmethod : IsTagContent "method".toList "method name='>'".toList := by
    have hname : Quoting ['>'] " name=".toList := .of_chars rfl
    have hvalue : Quoting ['>'] ('\'' :: ['>'] ++ '\'' :: []) := .quoted rfl (by decide) .nil
    refine @IsTagContent.mk _ (' ' :: "name='>'".toList) ?_ (hname.append hvalue)
    rintro c ⟨⟩
    rfl
  have hconstant : IsTagContent "constant".toList "constant".toList :=
    @IsTagContent.mk _ [] nofun .nil
  have hdescription : IsTag "description".toList [] := ⟨by decide, nofun, by decide⟩
  have htext : IsContent (fun _ inner => inner ∉ textHolders) "description".toList "M".toList :=
    .data rfl .nil
  have hinside : IsContent (fun _ inner => inner ∉ textHolders) "method".toList _ :=
    .reference (show "lt".toList.all _ = true by decide)
      (.element (by decide) hdescription.isOpeningTag htext (isClosingTag_closingTag _)
        (.empty (by decide) (.mk (by decide) hconstant) .nil))
  have helement : IsElement (fun _ inner => inner ∉ textHolders) "methods".toList _ :=
    .whole (.mk (by decide) hmethods (by decide))
      (.element (by decide) (.mk (by decide) hmethod (by decide)) hinside
        (isClosingTag_closingTag _) .nil)
      (isClosingTag_closingTag _)
  apply Eq.mp (congrArg (IsElement _ _) _) helement
  decide +kernel

theorem read_ignores_section_of_methods :
    OpensClass describedClass.toList ∧ "methods".toList ∉ ownSections ∧
      IsElement IsOther "methods".toList methodsText.toList ∧
      ClassDoc.read (describedClass ++ methodsText ++ "<constants></constants></class>") =
        .ok { name := "A", description := some "D" } := by
  have hmethods := isOther_section (by decide) isElement_methodsText
  have hread : ClassDoc.read (describedClass ++ "<constants></constants></class>") =
      .ok { name := "A", description := some "D" } := by decide +kernel
  refine ⟨opensClass_describedClass, by decide, hmethods, ?_⟩
  rw [read_ignores_section opensClass_describedClass (by decide) hmethods, hread]

/-- A section that is itself a class, with a description directly in it. -/
def nestedClass : String := "<class><description>N</description></class>"

/-- The description of a section that is itself a class is taken for that of the class. -/
theorem read_nested_class :
    OpensClass describedClass.toList ∧ "class".toList ∉ ownSections ∧
      IsElement (fun _ inner => inner ∉ textHolders) "class".toList nestedClass.toList ∧
      ClassDoc.read (describedClass ++ "<constants></constants></class>") =
        .ok { name := "A", description := some "D" } ∧
      ClassDoc.read (describedClass ++ nestedClass ++ "<constants></constants></class>") =
        .ok { name := "A", description := some "N" } := by
  have hclass : IsTag "class".toList [] := ⟨by decide, nofun, by decide⟩
  have hdescription : IsTag "description".toList [] := ⟨by decide, nofun, by decide⟩
  have htext : IsContent (fun _ inner => inner ∉ textHolders) "description".toList "N".toList :=
    .data rfl .nil
  have helement : IsElement (fun _ inner => inner ∉ textHolders) "class".toList _ :=
    .whole hclass.isOpeningTag
      (.element (by decide) hdescription.isOpeningTag htext (isClosingTag_closingTag _) .nil)
      (isClosingTag_closingTag _)
  have hnested : IsElement (fun _ inner => inner ∉ textHolders) "class".toList
      nestedClass.toList := by
    apply Eq.mp (congrArg (IsElement _ _) _) helement
    decide +kernel
  exact ⟨opensClass_describedClass, by decide, hnested, by decide +kernel, by decide +kernel⟩

end SwiftDecls
