import SwiftDecls.Proofs.Docs.Sections
import SwiftDecls.Proofs.Except
import SwiftDecls.Proofs.Xml.Beginnings

/-!
# Reading documentation piece by piece

`DocReading.piece` is what one piece of a text does to the reading. A beginning of a text that is
read by itself is read piece by piece, and the rest is read on from where that leads
(`readOn_readsAs`). What is open there is told by the pieces alone (`path_of_pieces`), and so is
whether there is documentation of a class (`isSome_doc_iff`).
-/

set_option autoImplicit false

namespace SwiftDecls

open Xml Text

/-- One piece opens a class that is in no other element. -/
def OpensRootClass (path : List (List Char)) (piece : Piece) : Prop :=
  path = [] ∧ ∃ content attributes, piece = .tag content ∧
    openingEvent content = .opened "class".toList attributes

/-- Some of the pieces opens a class that is in no other element. -/
def HasRootClass (path : List (List Char)) (ps : List Piece) : Prop :=
  ∃ before piece after, ps = before ++ piece :: after ∧
    OpensRootClass (before.foldl openBehind path) piece

theorem not_hasRootClass_nil {path : List (List Char)} : ¬HasRootClass path [] := by
  rintro ⟨before, piece, after, heq, -⟩
  exact absurd heq (by simp)

theorem hasRootClass_cons_iff {path : List (List Char)} {p : Piece} {ps : List Piece} :
    HasRootClass path (p :: ps) ↔ OpensRootClass path p ∨ HasRootClass (openBehind path p) ps := by
  constructor
  · rintro ⟨before, piece, after, heq, hopens⟩
    cases before with
    | nil =>
      cases heq
      exact .inl hopens
    | cons q before =>
      cases heq
      exact .inr ⟨before, piece, after, rfl, hopens⟩
  · rintro (hopens | ⟨before, piece, after, rfl, hopens⟩)
    · exact ⟨[], p, ps, rfl, hopens⟩
    · exact ⟨p :: before, piece, after, rfl, hopens⟩

namespace DocReading

variable {r r' : DocReading} {p : Piece} {ps : List Piece} {name : List Char}
variable {attributes : List Attribute}

/-- One piece. A closing tag has to name the innermost open element. -/
def piece (r : DocReading) : Piece → Except DocError DocReading
  | .text cs => .ok (r.gather cs)
  | .reference name => .ok (r.gather (referenceText name))
  | .passed => .ok r
  | .tag content => r.event (openingEvent content)
  | .closing content =>
    match r.path with
    | [] => .error (.markup (.unmatchedEnd (String.ofList (closingName content))))
    | expected :: _ =>
      if closingName content = expected then .ok r.closed
      else .error (.markup
        (.mismatchedEnd (String.ofList expected) (String.ofList (closingName content))))

theorem event_empty (r : DocReading) (name : List Char) (attributes : List Attribute) :
    r.event (.empty name attributes) =
      .ok (if docText? name r.path = some .constant then r.addConstant (constantOf attributes)
        else r) := by
  rw [event]
  split
  · rename_i hconstant
    rw [if_pos hconstant]
  · rename_i hnot
    rw [if_neg hnot]

/-! ## What a piece leaves -/

/-- What a piece that can be read does to the reading. -/
inductive PieceOutcome (r : DocReading) : Piece → DocReading → Prop
  | text {cs : List Char} : PieceOutcome r (.text cs) (r.gather cs)
  | reference {name : List Char} :
      PieceOutcome r (.reference name) (r.gather (referenceText name))
  | passed : PieceOutcome r .passed r
  | opened {content name : List Char} {attributes : List Attribute} {r' : DocReading} :
      openingEvent content = .opened name attributes → r.opened name attributes = .ok r' →
      PieceOutcome r (.tag content) r'
  | constant {content name : List Char} {attributes : List Attribute} :
      openingEvent content = .empty name attributes → docText? name r.path = some .constant →
      PieceOutcome r (.tag content) (r.addConstant (constantOf attributes))
  | empty {content name : List Char} {attributes : List Attribute} :
      openingEvent content = .empty name attributes → docText? name r.path ≠ some .constant →
      PieceOutcome r (.tag content) r
  | closed {content : List Char} {outer : List (List Char)} :
      r.path = closingName content :: outer → PieceOutcome r (.closing content) r.closed

theorem pieceOutcome (h : r.piece p = .ok r') : PieceOutcome r p r' := by
  cases p with
  | text cs =>
    cases h
    exact .text
  | reference name =>
    cases h
    exact .reference
  | passed =>
    cases h
    exact .passed
  | tag content =>
    rw [piece] at h
    unfold openingEvent at h
    split at h
    · rename_i hslash
      rw [event_empty] at h
      cases h
      have hevent : openingEvent content = .empty _ _ := if_pos hslash
      split
      · rename_i htext
        exact .constant hevent htext
      · rename_i htext
        exact .empty hevent htext
    · rename_i hopen
      exact .opened (if_neg hopen) h
  | closing content =>
    rw [piece] at h
    split at h
    · cases h
    · rename_i expected outer hpath
      split at h
      · rename_i hname
        cases h
        subst hname
        exact .closed hpath
      · cases h

theorem path_of_piece (h : r.piece p = .ok r') : r'.path = openBehind r.path p := by
  cases pieceOutcome h with
  | text => rfl
  | reference => rfl
  | passed => rfl
  | opened hevent hopened =>
    rw [path_of_opened hopened, openBehind, hevent]
  | constant hevent htext =>
    rw [openBehind, hevent]
    rfl
  | empty hevent htext => rw [openBehind, hevent]
  | closed hpath => rw [path_closed hpath, openBehind, hpath, List.tail_cons]

theorem path_of_pieces (h : ps.foldlM piece r = .ok r') : r'.path = ps.foldl openBehind r.path := by
  induction ps generalizing r with
  | nil =>
    cases h
    rfl
  | cons p ps ih =>
    obtain ⟨mid, hmid, hrest⟩ := foldlM_cons_eq_ok_iff.1 h
    rw [ih hrest, path_of_piece hmid, List.foldl_cons]

/-! ## Reading on behind pieces -/

theorem readOn_isMarkup {part : List Char} (h : IsMarkup part p) (r : DocReading)
    (rest : List Char) : r.readOn (part ++ rest) = r.piece p >>= fun r' => r'.readOn rest := by
  rw [readOn, eventsFrom, h.readPieces_append]
  cases p with
  | text cs =>
    rw [eventsOf, finish_cons]
    rfl
  | reference name =>
    rw [eventsOf, finish_cons]
    rfl
  | passed => rfl
  | tag content =>
    rw [eventsOf, finish_cons]
    show (r.event (openingEvent content) >>= _) = r.event (openingEvent content) >>= _
    cases hread : r.event (openingEvent content) with
    | error e => rfl
    | ok r' =>
      have hpath : r'.path = openBehind r.path (.tag content) := path_of_piece hread
      show r'.finish _ = r'.finish (eventsFrom r'.path rest)
      rw [hpath]
      rfl
  | closing content =>
    cases hpath : r.path with
    | nil =>
      simp only [eventsOf, piece, hpath]
      rfl
    | cons expected outer =>
      simp only [eventsOf, piece, hpath]
      split
      · rw [finish_cons]
        show r.closed.finish _ = r.closed.finish (eventsFrom r.closed.path rest)
        rw [path_closed hpath]
        rfl
      · rfl

/-- A beginning that is read by itself is read piece by piece. -/
theorem readOn_readsAs {front : List Char} (h : ReadsAs front ps) (r : DocReading)
    (rest : List Char) :
    r.readOn (front ++ rest) = ps.foldlM piece r >>= fun r' => r'.readOn rest := by
  induction h generalizing r with
  | nil => rfl
  | data hc _ ih =>
    rw [List.cons_append, readOn_data hc, ih, List.foldlM_cons]
    rfl
  | markup hmarkup _ ih =>
    rw [List.append_assoc, readOn_isMarkup hmarkup, List.foldlM_cons, bind_assoc]
    congr 1
    funext r'
    exact ih r'

theorem readOn_nil (r : DocReading) :
    r.readOn [] = match r.doc with
      | some doc => .ok doc
      | none => .error .noClass := by
  rw [readOn, eventsFrom_nil]
  obtain ⟨doc, path, gathered, constant⟩ := r
  cases doc <;> rfl

theorem readOn_nil_eq_ok_iff {doc : ClassDoc} : r.readOn [] = .ok doc ↔ r.doc = some doc := by
  rw [readOn_nil]
  cases r.doc <;> simp

/-! ## Documentation of a class -/

theorem isSome_doc_closed (r : DocReading) : r.closed.doc.isSome = r.doc.isSome := by
  obtain ⟨doc, path, gathered, constant⟩ := r
  unfold closed
  dsimp only
  split
  · rfl
  · rfl
  · split
    · rfl
    · rfl
    · split <;> rfl
    · rfl

/-- Only a class that is in no other element starts documentation. -/
theorem isSome_doc_of_opened (h : r.opened name attributes = .ok r') :
    r'.doc.isSome = true ↔ r.doc.isSome = true ∨ (r.path = [] ∧ name = "class".toList) := by
  unfold opened at h
  have hin {t : DocText} (htext : docText? name r.path = some t) : r.path ≠ [] := by
    intro hpath
    rw [hpath] at htext
    cases htext
  split at h
  · rename_i htext
    cases h
    simp [hin htext]
  · rename_i htext
    cases h
    simp [hin htext]
  · split at h
    · rename_i hclass
      rw [List.isEmpty_iff] at hclass
      cases hdoc : classOf attributes with
      | error e =>
        rw [hdoc] at h
        cases h
      | ok doc =>
        rw [hdoc] at h
        cases h
        simp [hclass]
    · rename_i hother
      rw [List.isEmpty_iff] at hother
      cases h
      exact (or_iff_left hother).symm

theorem isSome_doc_of_piece (h : r.piece p = .ok r') :
    r'.doc.isSome = true ↔ r.doc.isSome = true ∨ OpensRootClass r.path p := by
  cases pieceOutcome h with
  | text => simp [gather, OpensRootClass]
  | reference => simp [gather, OpensRootClass]
  | passed => simp [OpensRootClass]
  | opened hevent hopened =>
    rw [isSome_doc_of_opened hopened]
    simp [OpensRootClass, hevent]
  | constant hevent htext => simp [addConstant, OpensRootClass, hevent]
  | empty hevent htext => simp [OpensRootClass, hevent]
  | closed hpath => simp [isSome_doc_closed, OpensRootClass]

/-- Documentation has been started where a class was opened that is in no other element. -/
theorem isSome_doc_iff (h : ps.foldlM piece r = .ok r') :
    r'.doc.isSome = true ↔ r.doc.isSome = true ∨ HasRootClass r.path ps := by
  induction ps generalizing r with
  | nil =>
    cases h
    simp [not_hasRootClass_nil]
  | cons p ps ih =>
    obtain ⟨mid, hmid, hrest⟩ := foldlM_cons_eq_ok_iff.1 h
    rw [ih hrest, isSome_doc_of_piece hmid, path_of_piece hmid, hasRootClass_cons_iff, or_assoc]

end DocReading

end SwiftDecls
