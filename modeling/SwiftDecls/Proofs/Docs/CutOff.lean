import SwiftDecls.Proofs.Docs.Pieces

/-!
# Documentation that is cut off

**Theorem (`read_cut`).** Let a text of documentation be read, and cut it in two. If the cut is
inside markup, what is in front of it is refused as malformed. If it is not, it is read as soon as
the tag of its class is complete, whatever elements are open at the cut. What is then missing is not
noticed: the documentation is that of the same class with a beginning of its constants (`Continues`).

So the closing tags of a text are not asked for at its end (`read_open_class`). They are asked for
only where another closing tag stands in their place.
-/

set_option autoImplicit false

namespace SwiftDecls

open Xml Text

/-- Documentation goes on: it is that of the same class, with constants added at the end. -/
structure Continues (doc doc' : ClassDoc) : Prop where
  name : doc'.name = doc.name
  constants : doc.constants <+: doc'.constants

namespace Continues

theorem refl (doc : ClassDoc) : Continues doc doc := ⟨rfl, List.prefix_refl _⟩

theorem trans {doc doc' doc'' : ClassDoc} (h : Continues doc doc') (h' : Continues doc' doc'') :
    Continues doc doc'' :=
  ⟨h'.name.trans h.name, h.constants.trans h'.constants⟩

end Continues

namespace DocReading

variable {r r' : DocReading} {p : Piece} {ps : List Piece} {doc : ClassDoc}

theorem continues_addConstant (hdoc : r.doc = some doc) (c : DocConstant) :
    ∃ doc', (r.addConstant c).doc = some doc' ∧ Continues doc doc' := by
  refine ⟨{ doc with constants := doc.constants ++ [c] }, ?_, rfl, List.prefix_append _ _⟩
  rw [addConstant, hdoc]
  rfl

theorem doc_of_opened {name : List Char} {attributes : List Attribute}
    (h : r.opened name attributes = .ok r') (hroot : ¬(r.path = [] ∧ name = "class".toList)) :
    r'.doc = r.doc := by
  unfold opened at h
  split at h
  · cases h
    rfl
  · cases h
    rfl
  · rw [if_neg (by rwa [List.isEmpty_iff])] at h
    cases h
    rfl

theorem continues_closed (hdoc : r.doc = some doc) :
    ∃ doc', r.closed.doc = some doc' ∧ Continues doc doc' := by
  obtain ⟨_, path, gathered, constant⟩ := r
  cases hdoc
  cases path with
  | nil => exact ⟨doc, rfl, .refl doc⟩
  | cons name outer =>
    unfold closed
    dsimp only
    split
    · exact ⟨_, rfl, rfl, List.prefix_refl _⟩
    · exact ⟨_, rfl, rfl, List.prefix_refl _⟩
    · cases constant with
      | none => exact ⟨doc, rfl, .refl doc⟩
      | some c => exact continues_addConstant rfl _
    · exact ⟨doc, rfl, .refl doc⟩

/-- A piece adds at most a constant, unless it starts over with another class. -/
theorem continues_piece (h : r.piece p = .ok r') (hdoc : r.doc = some doc)
    (hroot : ¬OpensRootClass r.path p) : ∃ doc', r'.doc = some doc' ∧ Continues doc doc' := by
  cases pieceOutcome h with
  | text => exact ⟨doc, hdoc, .refl doc⟩
  | reference => exact ⟨doc, hdoc, .refl doc⟩
  | passed => exact ⟨doc, hdoc, .refl doc⟩
  | @opened content name attributes r' hevent hopened =>
    have hother : ¬(r.path = [] ∧ name = "class".toList) := by
      rintro ⟨hpath, rfl⟩
      exact hroot ⟨hpath, content, attributes, rfl, hevent⟩
    refine ⟨doc, ?_, .refl doc⟩
    rw [doc_of_opened hopened hother, hdoc]
  | constant => exact continues_addConstant hdoc _
  | empty => exact ⟨doc, hdoc, .refl doc⟩
  | closed => exact continues_closed hdoc

theorem continues_pieces (h : ps.foldlM piece r = .ok r') (hdoc : r.doc = some doc)
    (hroot : ¬HasRootClass r.path ps) : ∃ doc', r'.doc = some doc' ∧ Continues doc doc' := by
  induction ps generalizing r doc with
  | nil =>
    cases h
    exact ⟨doc, hdoc, .refl doc⟩
  | cons p ps ih =>
    obtain ⟨mid, hmid, hrest⟩ := foldlM_cons_eq_ok_iff.1 h
    rw [hasRootClass_cons_iff, not_or] at hroot
    obtain ⟨doc', hdoc', hfirst⟩ := continues_piece hmid hdoc hroot.1
    rw [← path_of_piece hmid] at hroot
    obtain ⟨doc'', hdoc'', hothers⟩ := ih hrest hdoc' hroot.2
    exact ⟨doc'', hdoc'', hfirst.trans hothers⟩

theorem fault_of_fault_eventsOf {path : List (List Char)} {fault : Option Fault}
    (h : (eventsOf path fault ps).fault = none) : fault = none := by
  induction ps generalizing path with
  | nil => exact h
  | cons p ps ih =>
    cases p with
    | text | reference | passed | tag => exact ih h
    | closing content =>
      rw [eventsOf.eq_def] at h
      dsimp only at h
      cases path with
      | nil => cases h
      | cons expected outer =>
        dsimp only at h
        split at h
        · exact ih h
        · cases h

/-- What is wrong with the markup of a text counts if nothing else is wrong before it. -/
theorem fault_of_readOn {cs : List Char} (h : r.readOn cs = .ok doc) :
    (readPieces cs).fault = none := by
  suffices hevents : (eventsFrom r.path cs).fault = none from fault_of_fault_eventsOf hevents
  by_contra hfault
  obtain ⟨f, hf⟩ := Option.ne_none_iff_exists'.1 hfault
  obtain ⟨r', -, hr'⟩ := bind_eq_ok_iff.1 h
  rw [hf] at hr'
  cases hr'

end DocReading

/-! ## Texts that are cut in two -/

/-- What is read in front of a cut in a text, which is read as `doc`. -/
structure ReadsFront (front back : String) (doc : ClassDoc) : Prop where
  /-- A beginning that is not read by itself ends inside markup and is malformed. -/
  malformed : (¬∃ ps, ReadsAs front.toList ps) → CutsMarkup front.toList back.toList ∧
    ∃ f, ClassDoc.read front = .error (.markup f)
  /-- Any other beginning is read once its class has been opened, whatever else is open. -/
  accepted : (∃ part, ClassDoc.read front = .ok part) ↔
    ∃ ps, ReadsAs front.toList ps ∧ HasRootClass [] ps
  /-- The rest of the class is missing from it. -/
  continues : ∀ part ps qs, ClassDoc.read front = .ok part → ReadsAs front.toList ps →
    ReadsAs back.toList qs → ¬HasRootClass (openElements ps) qs → Continues part doc

section cut

open DocReading

variable {front back : String} {doc : ClassDoc} {ps : List Piece}

/-- A beginning that can be read is gone through piece by piece, then the rest is read from there. -/
theorem exists_reading_of_readsAs (h : ClassDoc.read (front ++ back) = .ok doc)
    (hps : ReadsAs front.toList ps) : ∃ r, ps.foldlM piece {} = .ok r ∧
      ClassDoc.read front = r.readOn [] ∧ r.readOn back.toList = .ok doc := by
  rw [read_eq_readOn_toList, String.toList_append, readOn_readsAs hps] at h
  obtain ⟨r, hr, hback⟩ := bind_eq_ok_iff.1 h
  refine ⟨r, hr, ?_, hback⟩
  rw [read_eq_readOn_toList, ← List.append_nil front.toList, readOn_readsAs hps, hr]
  rfl

/-- A beginning that ends inside markup is malformed: what is in front of that markup was read. -/
theorem malformed_of_cutsMarkup (h : ClassDoc.read (front ++ back) = .ok doc)
    (hcut : CutsMarkup front.toList back.toList) :
    ∃ f, ClassDoc.read front = .error (.markup f) := by
  obtain ⟨before, part, ps, f, heq, hps, hpart⟩ := fault_of_cutsMarkup hcut
  rw [read_eq_readOn_toList, String.toList_append, heq, List.append_assoc,
    readOn_readsAs hps] at h
  obtain ⟨r, hr, -⟩ := bind_eq_ok_iff.1 h
  refine ⟨f, ?_⟩
  rw [read_eq_readOn_toList, heq, readOn_readsAs hps, hr]
  show r.finish (eventsOf r.path (readPieces part).fault (readPieces part).pieces) = _
  rw [hpart]
  rfl

theorem readsAs_or_cutsMarkup_of_read (h : ClassDoc.read (front ++ back) = .ok doc) :
    (∃ ps, ReadsAs front.toList ps) ∨ CutsMarkup front.toList back.toList := by
  rw [read_eq_readOn_toList, String.toList_append] at h
  exact readsAs_or_cutsMarkup front.toList (fault_of_readOn h)

/-- **Only a cut inside markup is noticed.** -/
theorem read_cut (h : ClassDoc.read (front ++ back) = .ok doc) : ReadsFront front back doc := by
  have hcases := readsAs_or_cutsMarkup_of_read h
  refine ⟨fun hnot => ?_, ⟨?_, ?_⟩, ?_⟩
  · have hcut := hcases.resolve_left hnot
    exact ⟨hcut, malformed_of_cutsMarkup h hcut⟩
  · rintro ⟨part, hpart⟩
    rcases hcases with ⟨ps, hps⟩ | hcut
    · obtain ⟨r, hr, hread, -⟩ := exists_reading_of_readsAs h hps
      rw [hread, readOn_nil_eq_ok_iff] at hpart
      have hdoc := (isSome_doc_iff hr).1 (by rw [hpart]; rfl)
      exact ⟨ps, hps, hdoc.resolve_left nofun⟩
    · obtain ⟨f, hf⟩ := malformed_of_cutsMarkup h hcut
      rw [hf] at hpart
      cases hpart
  · rintro ⟨ps, hps, hclass⟩
    obtain ⟨r, hr, hread, -⟩ := exists_reading_of_readsAs h hps
    obtain ⟨part, hpart⟩ := Option.isSome_iff_exists.1 ((isSome_doc_iff hr).2 (.inr hclass))
    exact ⟨part, by rw [hread, readOn_nil_eq_ok_iff, hpart]⟩
  · intro part ps qs hpart hps hqs hroot
    obtain ⟨r, hr, hread, hback⟩ := exists_reading_of_readsAs h hps
    rw [hread, readOn_nil_eq_ok_iff] at hpart
    rw [← List.append_nil back.toList, readOn_readsAs hqs] at hback
    obtain ⟨r', hr', hend⟩ := bind_eq_ok_iff.1 hback
    have hpath : r.path = openElements ps := path_of_pieces hr
    rw [← hpath] at hroot
    obtain ⟨doc', hdoc', hcontinues⟩ := continues_pieces hr' hpart hroot
    rw [readOn_nil_eq_ok_iff, hdoc'] at hend
    cases hend
    exact hcontinues

end cut

/-- A text up to behind the first of its constants. -/
def oneConstant : String := "<class name=\"A\"><constants><constant name=\"X\" value=\"0\"/>"

/-- The rest of the text, with a second constant. -/
def otherConstant : String := "<constant name=\"Y\" value=\"1\"/></constants></class>"

theorem read_cut_of_constants :
    ClassDoc.read (oneConstant ++ otherConstant) = .ok
      { name := "A"
        constants := [{ name := "X", value := "0" }, { name := "Y", value := "1" }] } ∧
    ReadsFront oneConstant otherConstant
      { name := "A"
        constants := [{ name := "X", value := "0" }, { name := "Y", value := "1" }] } := by
  have hread : ClassDoc.read (oneConstant ++ otherConstant) = .ok
      { name := "A"
        constants := [{ name := "X", value := "0" }, { name := "Y", value := "1" }] } := by
    decide +kernel
  exact ⟨hread, read_cut hread⟩

/-- A class that is not closed is read, and so is its section of constants. -/
theorem read_open_class :
    ReadsAs "<class name='A'>".toList [.tag "class name='A'".toList] ∧
      openElements [.tag "class name='A'".toList] = ["class".toList] ∧
      ClassDoc.read "<class name='A'>" = .ok { name := "A" } ∧
      ClassDoc.read oneConstant =
        .ok { name := "A", constants := [{ name := "X", value := "0" }] } := by
  have hvalue : Quoting ['>'] ('\'' :: ['A'] ++ '\'' :: []) := .quoted rfl (by decide) .nil
  have hname : Quoting ['>'] "class name=".toList := .of_chars rfl
  have hclass : IsName "class".toList := by decide
  have htag : IsMarkup ('<' :: "class name='A'".toList ++ ['>']) (.tag "class name='A'".toList) :=
    isMarkup_tag (hname.append hvalue).staysInTag
      ⟨'c', "lass name='A'".toList, rfl, fun _ => hclass.ne_of_mem List.mem_cons_self⟩
  exact ⟨htag.readsAs, by decide +kernel, by decide +kernel, by decide +kernel⟩

end SwiftDecls
