import SwiftDecls.Proofs.Xml.Locality

/-!
# Beginnings of texts

A beginning of a text can be read by itself, whatever follows it, unless it ends inside markup.
`ReadsAs` says as which pieces it is read, with character data taken character by character. In a
text that has no fault there is no third possibility (`readsAs_or_cutsMarkup`), and a beginning that
ends inside markup has a fault of its own (`fault_of_cutsMarkup`).
-/

set_option autoImplicit false

namespace SwiftDecls.Xml

open Text

/-! ## Beginnings -/

/-- Markup or a reference: read at the front of any text, it is one piece. -/
def IsMarkup (part : List Char) (piece : Piece) : Prop :=
  ∃ c cs, part = c :: cs ∧ isData c = false ∧ ∀ rest, Gives (readPiece c (cs ++ rest)) piece rest

/-- A text is read as these pieces, whatever follows it. -/
inductive ReadsAs : List Char → List Piece → Prop
  | nil : ReadsAs [] []
  | data {c : Char} {cs : List Char} {ps : List Piece} : isData c = true → ReadsAs cs ps →
      ReadsAs (c :: cs) (.text [c] :: ps)
  | markup {part cs : List Char} {piece : Piece} {ps : List Piece} : IsMarkup part piece →
      ReadsAs cs ps → ReadsAs (part ++ cs) (piece :: ps)

/-- A text is cut in two inside markup. -/
inductive CutsMarkup : List Char → List Char → Prop
  | mk {before part after rest : List Char} {ps : List Piece} {piece : Piece} :
      ReadsAs before ps → part ≠ [] → after ≠ [] → IsMarkup (part ++ after) piece →
      CutsMarkup (before ++ part) (after ++ rest)

section beginnings

variable {part front back cs : List Char} {piece : Piece} {ps qs : List Piece}

theorem ReadsAs.append {as bs : List Char} (ha : ReadsAs as ps) (hb : ReadsAs bs qs) :
    ReadsAs (as ++ bs) (ps ++ qs) := by
  induction ha with
  | nil => exact hb
  | data hc _ ih => exact .data hc ih
  | markup hmarkup _ ih =>
    rw [List.append_assoc]
    exact .markup hmarkup ih

theorem IsMarkup.readsAs (h : IsMarkup part piece) : ReadsAs part [piece] := by
  have hreads : ReadsAs (part ++ []) [piece] := .markup h .nil
  rwa [List.append_nil] at hreads

theorem CutsMarkup.behind {as : List Char} (ha : ReadsAs as ps) (h : CutsMarkup front back) :
    CutsMarkup (as ++ front) back := by
  obtain ⟨hbefore, hpart, hafter, hmarkup⟩ := h
  rw [← List.append_assoc]
  exact .mk (ha.append hbefore) hpart hafter hmarkup

/-- Every piece that is not data is markup, since markup is read without a look ahead. -/
theorem exists_isMarkup {c : Char} {rest : List Char} (hc : isData c = false)
    (h : Gives (readPiece c cs) piece rest) :
    ∃ part, c :: cs = part ++ rest ∧ IsMarkup part piece := by
  have hbehind : ∀ {read : (cs : List Char) → Except Fault (Shorter Piece cs)}, IsLocal read →
      (∀ cs, readPiece c cs = (read cs).map .skip) →
        ∃ part, c :: cs = part ++ rest ∧ IsMarkup part piece := by
    intro read hlocal hsame
    rw [hsame, gives_map_skip_iff] at h
    obtain ⟨part, rfl, htakes⟩ := hlocal h
    refine ⟨c :: part, rfl, c, part, rfl, hc, fun rest' => ?_⟩
    rw [hsame, gives_map_skip_iff]
    exact htakes rest'
  by_cases hmarkup : c = '<'
  · subst hmarkup
    exact hbehind isLocal_readMarkup fun _ => rfl
  · have hreference : c = '&' := by simpa [isData, hmarkup] using hc
    subst hreference
    exact hbehind isLocal_readReference fun _ => rfl

theorem isMarkup_tag {content : List Char} (h : StaysInTag content)
    (hstart : ∃ c cs, content = c :: cs ∧ ∀ mark ∈ tagMarks, c ≠ mark) :
    IsMarkup ('<' :: content ++ ['>']) (.tag content) := by
  obtain ⟨c, cs, rfl, hmarks⟩ := hstart
  refine ⟨'<', _, rfl, rfl, fun rest => ?_⟩
  have hread : readMarkup ((c :: cs) ++ '>' :: rest) = readTag .tag ((c :: cs) ++ '>' :: rest) :=
    readMarkup_of_not_mark hmarks (cs ++ '>' :: rest)
  have htext : (c :: cs) ++ ['>'] ++ rest = (c :: cs) ++ '>' :: rest := by simp
  show Gives (readPiece '<' ((c :: cs) ++ ['>'] ++ rest)) _ rest
  rw [htext]
  show Gives ((readMarkup ((c :: cs) ++ '>' :: rest)).map .skip) _ rest
  rw [hread, readTag_eq .tag (h.cutTag_eq rest)]
  exact ⟨_, rfl, rfl, rfl⟩

theorem isMarkup_closing {content : List Char} (h : StaysInTag content) :
    IsMarkup ('<' :: '/' :: content ++ ['>']) (.closing content) := by
  refine ⟨'<', _, rfl, rfl, fun rest => ?_⟩
  have htext : '/' :: content ++ ['>'] ++ rest = '/' :: (content ++ '>' :: rest) := by simp
  show Gives (readPiece '<' ('/' :: content ++ ['>'] ++ rest)) _ rest
  rw [htext]
  show Gives (((readTag .closing (content ++ '>' :: rest)).map .skip).map .skip) _ rest
  rw [readTag_eq .closing (h.cutTag_eq rest)]
  exact ⟨_, rfl, rfl, rfl⟩

theorem readPieces_eq_of_gives {c : Char} {rest : List Char}
    (h : Gives (readPiece c cs) piece rest) : readPieces (c :: cs) =
      ⟨piece :: (readPieces rest).pieces, (readPieces rest).fault⟩ := by
  obtain ⟨s, hread, rfl, rfl⟩ := h
  exact readPieces_cons hread

theorem readPieces_of_error {c : Char} {f : Fault} (h : readPiece c cs = .error f) :
    readPieces (c :: cs) = ⟨[], some f⟩ := by
  rw [readPieces]
  split
  · rename_i f' hf
    rw [h] at hf
    cases hf
    rfl
  · rename_i s hs
    rw [h] at hs
    cases hs

/-! ## Faults -/

/-- Data has no fault. -/
theorem fault_readPieces_dropWhile (cs : List Char) :
    (readPieces (cs.dropWhile isData)).fault = (readPieces cs).fault := by
  cases cs with
  | nil => rfl
  | cons c rest =>
    by_cases hc : isData c = true
    · have hread : readPiece c rest = .ok ((Shorter.span isData c rest).map .text) := by
        simp only [isData, Bool.and_eq_true, bne_iff_ne] at hc
        rw [readPiece, if_neg hc.1, if_neg hc.2]
      rw [List.dropWhile_cons_of_pos hc, readPieces_cons hread]
      rfl
    · rw [List.dropWhile_cons_of_neg hc]

theorem fault_readPieces_cons {c : Char} (hc : isData c = true) (cs : List Char) :
    (readPieces (c :: cs)).fault = (readPieces cs).fault := by
  rw [← fault_readPieces_dropWhile, List.dropWhile_cons_of_pos hc, fault_readPieces_dropWhile]

theorem IsMarkup.readPieces_append (h : IsMarkup part piece) (rest : List Char) :
    readPieces (part ++ rest) =
      ⟨piece :: (readPieces rest).pieces, (readPieces rest).fault⟩ := by
  obtain ⟨c, cs, rfl, -, hgives⟩ := h
  exact readPieces_eq_of_gives (hgives rest)

/-- Of markup that is cut off nothing is read: it would be read with what was cut off too. -/
theorem exists_fault_of_isMarkup {after : List Char} (h : IsMarkup (part ++ after) piece)
    (hpart : part ≠ []) (hafter : after ≠ []) : ∃ f, readPieces part = ⟨[], some f⟩ := by
  obtain ⟨c, cs, rfl⟩ := List.exists_cons_of_ne_nil hpart
  obtain ⟨c', cs', heq, hc, hwhole⟩ := h
  obtain ⟨rfl, rfl⟩ := List.cons.inj heq
  cases hread : readPiece c cs with
  | error f => exact ⟨f, readPieces_of_error hread⟩
  | ok s =>
    obtain ⟨front, hfront, d, front, rfl, -, hgives⟩ := exists_isMarkup hc ⟨s, hread, rfl, rfl⟩
    obtain ⟨rfl, hcs⟩ := List.cons.inj hfront
    have hlong := hwhole []
    have htext : cs.append after ++ [] = front ++ (s.rest ++ after) := by
      rw [List.append_nil, ← List.append_assoc]
      exact congrArg (· ++ after) hcs
    rw [htext] at hlong
    have hrest := (hlong.unique (hgives (s.rest ++ after))).2
    exact absurd (List.append_eq_nil_iff.1 hrest.symm).2 hafter

/-- A beginning that ends inside markup has a fault behind what is read of it. -/
theorem fault_of_cutsMarkup (h : CutsMarkup front back) : ∃ before part ps f,
    front = before ++ part ∧ ReadsAs before ps ∧ readPieces part = ⟨[], some f⟩ := by
  obtain @⟨before, part, after, rest, ps, piece, hbefore, hpart, hafter, hmarkup⟩ := h
  obtain ⟨f, hf⟩ := exists_fault_of_isMarkup hmarkup hpart hafter
  exact ⟨before, part, ps, f, rfl, hbefore, hf⟩

/-! ## The two kinds of beginnings -/

/-- A beginning of a text without a fault is read by itself or ends inside markup. -/
theorem readsAs_or_cutsMarkup (front : List Char)
    (h : (readPieces (front ++ back)).fault = none) :
    (∃ ps, ReadsAs front ps) ∨ CutsMarkup front back := by
  match front, h with
  | [], _ => exact .inl ⟨[], .nil⟩
  | c :: rest, h =>
    by_cases hc : isData c = true
    · rw [List.cons_append, fault_readPieces_cons hc] at h
      have hdata : ReadsAs [c] [.text [c]] := .data hc .nil
      rcases readsAs_or_cutsMarkup _ h with ⟨ps, hps⟩ | hcuts
      · exact .inl ⟨_, hdata.append hps⟩
      · exact .inr (hcuts.behind hdata)
    · have hmark : isData c = false := by simpa using hc
      rw [List.cons_append] at h
      cases hread : readPiece c (rest ++ back) with
      | error f =>
        rw [readPieces_of_error hread] at h
        cases h
      | ok s =>
        obtain ⟨part, hpart, hmarkup⟩ := exists_isMarkup hmark ⟨s, hread, rfl, rfl⟩
        -- The markup ends within the beginning, at its end, or behind it.
        rcases List.append_eq_append_iff.1 (show (c :: rest) ++ back = part ++ s.rest from hpart)
          with ⟨after, rfl, hback⟩ | ⟨behind, hfront, hrest⟩
        · by_cases hafter : after = []
          · subst hafter
            rw [List.append_nil] at hmarkup
            exact .inl ⟨_, hmarkup.readsAs⟩
          · have hcuts : CutsMarkup ([] ++ c :: rest) (after ++ s.rest) :=
              .mk .nil (List.cons_ne_nil c rest) hafter hmarkup
            rw [hback]
            exact .inr hcuts
        · have hshorter : behind.length < (c :: rest).length := by
            obtain ⟨d, cs, rfl, -⟩ := hmarkup
            rw [hfront, List.length_append, List.length_cons]
            omega
          rw [readPieces_cons hread, hrest] at h
          rw [hfront]
          rcases readsAs_or_cutsMarkup _ h with ⟨ps, hps⟩ | hcuts
          · exact .inl ⟨_, hmarkup.readsAs.append hps⟩
          · exact .inr (hcuts.behind hmarkup.readsAs)
termination_by front.length
decreasing_by
  · exact Nat.lt_succ_self rest.length
  · exact hshorter

end beginnings

/-! ## Elements that are open -/

/-- The names of the open elements behind a piece, innermost first. -/
def openBehind (path : List (List Char)) : Piece → List (List Char)
  | .tag content =>
    match openingEvent content with
    | .opened name _ => name :: path
    | _ => path
  | .closing _ => path.tail
  | _ => path

/-- The names of the elements that pieces leave open, innermost first. -/
def openElements (ps : List Piece) : List (List Char) := ps.foldl openBehind []

end SwiftDecls.Xml
