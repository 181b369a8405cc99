import SwiftDecls.Proofs.Xml.Content

/-!
# Reading does not look ahead

Markup is read off the front of a text without a look at what follows it: a part of a text that is
read as one piece of markup is read as that piece in front of any other text (`isLocal_readMarkup`).
The reason is that every kind of markup is cut off at a mark of its own (`CutsLocally`). The same
holds of references (`isLocal_readReference`). It does not hold of character data, which goes on
up to the next mark.
-/

set_option autoImplicit false

namespace SwiftDecls.Xml

open Text

/-! ## Reading without a look at what follows -/

/-- A piece has been read, with this rest. -/
def Gives {cs : List Char} (read : Except Fault (Shorter Piece cs)) (piece : Piece)
    (rest : List Char) : Prop :=
  ∃ s, read = .ok s ∧ s.result = piece ∧ s.rest = rest

/-- A reader takes a part of a text for a piece, whatever follows. -/
def Takes (read : (cs : List Char) → Except Fault (Shorter Piece cs)) (part : List Char)
    (piece : Piece) : Prop :=
  ∀ rest, Gives (read (part ++ rest)) piece rest

/-- A reader does not look at what follows. -/
def IsLocal (read : (cs : List Char) → Except Fault (Shorter Piece cs)) : Prop :=
  ∀ ⦃cs piece rest⦄, Gives (read cs) piece rest → ∃ part, cs = part ++ rest ∧ Takes read part piece

/-- A cut is made without a look at what follows. -/
def CutsLocally (cut : List Char → Option (List Char × List Char)) : Prop :=
  ∀ ⦃cs content rest⦄, cut cs = some (content, rest) →
    ∃ part, cs = part ++ rest ∧ ∀ rest', cut (part ++ rest') = some (content, rest')

section gives

variable {cs rest : List Char} {piece : Piece}

theorem gives_ok_iff {s : Shorter Piece cs} :
    Gives (.ok s) piece rest ↔ s.result = piece ∧ s.rest = rest := by
  simp [Gives]

theorem not_gives_error {f : Fault} : ¬Gives (.error f : Except Fault (Shorter Piece cs)) piece rest := by
  simp [Gives]

theorem gives_map_skip_iff {c : Char} {read : Except Fault (Shorter Piece cs)} :
    Gives (read.map (Shorter.skip (c := c))) piece rest ↔ Gives read piece rest := by
  cases read with
  | error f => simp [Gives, Except.map]
  | ok s => simp [Gives, Except.map]

theorem Gives.unique {read : Except Fault (Shorter Piece cs)} {piece' : Piece} {rest' : List Char}
    (h : Gives read piece rest) (h' : Gives read piece' rest') : piece = piece' ∧ rest = rest' := by
  obtain ⟨s, hs, rfl, rfl⟩ := h
  obtain ⟨s', hs', rfl, rfl⟩ := h'
  cases hs.symm.trans hs'
  exact ⟨rfl, rfl⟩

theorem Gives.length_lt {read : Except Fault (Shorter Piece cs)} (h : Gives read piece rest) :
    rest.length < cs.length := by
  obtain ⟨s, -, -, rfl⟩ := h
  exact s.shorter

/-- What a local reader takes is not empty. -/
theorem IsLocal.exists_cons {read : (cs : List Char) → Except Fault (Shorter Piece cs)} {c : Char}
    (h : IsLocal read) (hgives : Gives (read (c :: cs)) piece rest) :
    ∃ part, cs = part ++ rest ∧ Takes read (c :: part) piece := by
  obtain ⟨part, hpart, htakes⟩ := h hgives
  cases part with
  | nil =>
    have hlength := hgives.length_lt
    rw [hpart] at hlength
    exact absurd hlength (Nat.lt_irrefl _)
  | cons d part =>
    cases hpart
    exact ⟨part, rfl, htakes⟩

theorem exists_cut_iff {cut : Option (List Char × List Char)} {content rest' : List Char}
    {P : List Char → Prop} (h : cut = some (content, rest')) :
    (∃ content', cut = some (content', rest) ∧ P content') ↔ P content ∧ rest' = rest := by
  subst h
  constructor
  · rintro ⟨_, ⟨rfl, rfl⟩, hcontent⟩
    exact ⟨hcontent, rfl⟩
  · rintro ⟨hcontent, rfl⟩
    exact ⟨content, rfl, hcontent⟩

theorem not_exists_cut {cut : Option (List Char × List Char)} {P : List Char → Prop}
    (h : cut = none) : ¬∃ content, cut = some (content, rest) ∧ P content := by
  rintro ⟨content, hcontent, -⟩
  rw [h] at hcontent
  cases hcontent

/-- A reader that cuts and looks at what it has cut off is as local as the cut. -/
theorem CutsLocally.isLocal {cut : List Char → Option (List Char × List Char)}
    {read : (cs : List Char) → Except Fault (Shorter Piece cs)} {Makes : List Char → Piece → Prop}
    (hcut : CutsLocally cut) (hread : ∀ {cs piece rest}, Gives (read cs) piece rest ↔
      ∃ content, cut cs = some (content, rest) ∧ Makes content piece) : IsLocal read := by
  intro cs piece rest h
  obtain ⟨content, hcontent, hmakes⟩ := hread.1 h
  obtain ⟨part, hpart, hlocal⟩ := hcut hcontent
  exact ⟨part, hpart, fun rest' => hread.2 ⟨content, hlocal rest', hmakes⟩⟩

end gives

/-! ## Cuts -/

theorem cutsLocally_cutTag (quote : Option Char) (before : List Char) :
    CutsLocally fun cs => (cutTag quote before cs).toOption := by
  intro cs content rest h
  induction cs generalizing quote before with
  | nil =>
    cases quote with
    | none => cases h
    | some q => cases h
  | cons c cs ih =>
    simp only [cutTag] at h
    split at h
    · rename_i hend
      cases h
      refine ⟨[c], rfl, fun rest' => ?_⟩
      simp only [List.singleton_append, cutTag, if_pos hend]
      rfl
    · rename_i hgoes
      obtain ⟨part, hpart, hlocal⟩ := ih _ _ h
      refine ⟨c :: part, by rw [hpart]; rfl, fun rest' => ?_⟩
      simp only [List.cons_append, cutTag, if_neg hgoes]
      exact hlocal rest'

theorem cutsLocally_cutWhen? (ready : List Char → Bool) (before : List Char) :
    CutsLocally (cutWhen? ready before) := by
  intro cs content rest h
  induction cs generalizing before with
  | nil => cases h
  | cons c cs ih =>
    simp only [cutWhen?] at h
    split at h
    · rename_i hend
      cases h
      refine ⟨[c], rfl, fun rest' => ?_⟩
      simp only [List.singleton_append, cutWhen?, if_pos hend]
    · rename_i hgoes
      obtain ⟨part, hpart, hlocal⟩ := ih _ h
      refine ⟨c :: part, by rw [hpart]; rfl, fun rest' => ?_⟩
      simp only [List.cons_append, cutWhen?, if_neg hgoes]
      exact hlocal rest'

theorem cutsLocally_cutDoctype? (p : DoctypePlace) (before : List Char) :
    CutsLocally (cutDoctype? p before) := by
  intro cs content rest h
  induction cs generalizing p before with
  | nil => cases h
  | cons c cs ih =>
    simp only [cutDoctype?] at h
    split at h
    · rename_i hend
      cases h
      refine ⟨[c], rfl, fun rest' => ?_⟩
      simp only [List.singleton_append, cutDoctype?, if_pos hend]
    · rename_i hgoes
      obtain ⟨part, hpart, hlocal⟩ := ih _ _ h
      refine ⟨c :: part, by rw [hpart]; rfl, fun rest' => ?_⟩
      simp only [List.cons_append, cutDoctype?, if_neg hgoes]
      exact hlocal rest'

/-! ## Markup -/

section markup

variable {cs rest : List Char} {piece : Piece}

theorem gives_readTag_iff {make : List Char → Piece} : Gives (readTag make cs) piece rest ↔
    ∃ content, (cutTag none [] cs).toOption = some (content, rest) ∧ make content = piece := by
  unfold readTag
  split
  · rename_i f hcut
    exact iff_of_false not_gives_error (not_exists_cut (by rw [hcut]; rfl))
  · rename_i content rest' hcut
    have hsome : (cutTag none [] cs).toOption = some (content, rest') := by rw [hcut]; rfl
    rw [exists_cut_iff hsome, gives_ok_iff]

theorem isLocal_readTag (make : List Char → Piece) : IsLocal (readTag make) :=
  (cutsLocally_cutTag none []).isLocal gives_readTag_iff

theorem gives_readInstruction_iff : Gives (readInstruction cs) piece rest ↔
    ∃ content, cutWhen? (·.head? == some '?') ['?'] cs = some (content, rest) ∧
      (content ≠ ['?'] ∧ Piece.passed = piece) := by
  unfold readInstruction
  split
  · rename_i hcut
    exact iff_of_false not_gives_error (not_exists_cut hcut)
  · rename_i rest' hcut
    rw [exists_cut_iff hcut]
    exact iff_of_false not_gives_error fun h => h.1.1 rfl
  · rename_i content rest' hne hcut
    rw [exists_cut_iff hcut, gives_ok_iff]
    exact and_congr_left fun _ => (and_iff_right hne).symm

theorem isLocal_readInstruction : IsLocal readInstruction :=
  (cutsLocally_cutWhen? _ _).isLocal gives_readInstruction_iff

theorem gives_readComment_iff : Gives (readComment cs) piece rest ↔
    ∃ content,
      cutWhen? (fun before => "--".toList.isPrefixOf before && 4 ≤ before.length) [] cs =
        some (content, rest) ∧
      ("--".toList.isPrefixOf content = true ∧ Piece.passed = piece) := by
  unfold readComment
  split
  · rename_i hcut
    exact iff_of_false not_gives_error (not_exists_cut hcut)
  · rename_i content rest' hcut
    rw [exists_cut_iff hcut]
    split
    · rename_i hstart
      rw [gives_ok_iff]
      exact and_congr_left fun _ => (and_iff_right hstart).symm
    · rename_i hstart
      exact iff_of_false not_gives_error fun h => hstart h.1.1

theorem isLocal_readComment : IsLocal readComment :=
  (cutsLocally_cutWhen? _ _).isLocal gives_readComment_iff

theorem gives_readCharacterData_iff : Gives (readCharacterData cs) piece rest ↔
    ∃ content, cutWhen? ("]]".toList.isPrefixOf ·) [] cs = some (content, rest) ∧
      ("[CDATA[".toList.isPrefixOf content = true ∧ Piece.passed = piece) := by
  unfold readCharacterData
  split
  · rename_i hcut
    exact iff_of_false not_gives_error (not_exists_cut hcut)
  · rename_i content rest' hcut
    rw [exists_cut_iff hcut]
    split
    · rename_i hstart
      rw [gives_ok_iff]
      exact and_congr_left fun _ => (and_iff_right hstart).symm
    · rename_i hstart
      exact iff_of_false not_gives_error fun h => hstart h.1.1

theorem isLocal_readCharacterData : IsLocal readCharacterData :=
  (cutsLocally_cutWhen? _ _).isLocal gives_readCharacterData_iff

/-- What a document type has to be behind `<!`. -/
structure IsNamedDoctype (content : List Char) : Prop where
  word : (content.take doctypeWord.length).map Char.toUpper = doctypeWord
  named : ¬(content.drop doctypeWord.length).all isSpace = true

theorem gives_readDoctype_iff : Gives (readDoctype cs) piece rest ↔
    ∃ content, cutDoctype? (.outside none) [] cs = some (content, rest) ∧
      (IsNamedDoctype content ∧ Piece.passed = piece) := by
  unfold readDoctype
  split
  · rename_i hcut
    exact iff_of_false not_gives_error (not_exists_cut hcut)
  · rename_i content rest' hcut
    rw [exists_cut_iff hcut]
    split
    · rename_i hword
      exact iff_of_false not_gives_error fun h => hword h.1.1.word
    · rename_i hword
      split
      · rename_i hunnamed
        exact iff_of_false not_gives_error fun h => h.1.1.named hunnamed
      · rename_i hnamed
        have hdoctype : IsNamedDoctype content := ⟨not_not.1 hword, hnamed⟩
        rw [gives_ok_iff]
        exact and_congr_left fun _ => (and_iff_right hdoctype).symm

theorem isLocal_readDoctype : IsLocal readDoctype :=
  (cutsLocally_cutDoctype? _ _).isLocal gives_readDoctype_iff

/-- The kind of markup is chosen by its first character. -/
theorem isLocal_readSpecial : IsLocal readSpecial := by
  have hchosen : ∀ {read : (cs : List Char) → Except Fault (Shorter Piece cs)} {c : Char},
      IsLocal read → (∀ cs, readSpecial (c :: cs) = read (c :: cs)) → ∀ {cs piece rest},
      Gives (readSpecial (c :: cs)) piece rest →
        ∃ part, c :: cs = part ++ rest ∧ Takes readSpecial part piece := by
    intro read c hlocal hsame cs piece rest h
    rw [hsame] at h
    obtain ⟨part, hpart, htakes⟩ := hlocal.exists_cons h
    refine ⟨c :: part, by rw [hpart]; rfl, fun rest' => ?_⟩
    rw [List.cons_append, hsame]
    exact htakes rest'
  intro cs piece rest h
  match cs, h with
  | [], h => exact absurd h (by simp [readSpecial, Gives])
  | c :: cs, h =>
    by_cases hdata : c = '['
    · subst hdata
      exact hchosen isLocal_readCharacterData (fun _ => rfl) h
    by_cases hcomment : c = '-'
    · subst hcomment
      exact hchosen isLocal_readComment (fun _ => rfl) h
    by_cases hupper : c = 'D'
    · subst hupper
      exact hchosen isLocal_readDoctype (fun _ => rfl) h
    by_cases hlower : c = 'd'
    · subst hlower
      exact hchosen isLocal_readDoctype (fun _ => rfl) h
    · have hnone : readSpecial (c :: cs) = .error .unknownMarkup := by
        unfold readSpecial
        split <;> simp_all
      rw [hnone] at h
      obtain ⟨s, hs, -⟩ := h
      cases hs

theorem isLocal_readMarkup : IsLocal readMarkup := by
  have hbehind : ∀ {read : (cs : List Char) → Except Fault (Shorter Piece cs)} {c : Char},
      IsLocal read → (∀ cs, readMarkup (c :: cs) = (read cs).map .skip) → ∀ {cs piece rest},
      Gives (readMarkup (c :: cs)) piece rest →
        ∃ part, c :: cs = part ++ rest ∧ Takes readMarkup part piece := by
    intro read c hlocal hsame cs piece rest h
    rw [hsame, gives_map_skip_iff] at h
    obtain ⟨part, hpart, htakes⟩ := hlocal h
    refine ⟨c :: part, by rw [hpart]; rfl, fun rest' => ?_⟩
    rw [List.cons_append, hsame, gives_map_skip_iff]
    exact htakes rest'
  intro cs piece rest h
  match cs, h with
  | [], h => exact absurd h.length_lt (Nat.not_lt_zero _)
  | c :: cs, h =>
    by_cases hspecial : c = '!'
    · subst hspecial
      exact hbehind isLocal_readSpecial (fun _ => rfl) h
    by_cases hinstruction : c = '?'
    · subst hinstruction
      exact hbehind isLocal_readInstruction (fun _ => rfl) h
    by_cases hclosing : c = '/'
    · subst hclosing
      exact hbehind (isLocal_readTag .closing) (fun _ => rfl) h
    · have hsame : ∀ cs, readMarkup (c :: cs) = readTag .tag (c :: cs) := by
        intro cs
        apply readMarkup.eq_4
        · rintro _ ⟨⟩
          exact hspecial rfl
        · rintro _ ⟨⟩
          exact hinstruction rfl
        · rintro _ ⟨⟩
          exact hclosing rfl
      rw [hsame] at h
      obtain ⟨part, hpart, htakes⟩ := (isLocal_readTag .tag).exists_cons h
      refine ⟨c :: part, by rw [hpart]; rfl, fun rest' => ?_⟩
      rw [List.cons_append, hsame]
      exact htakes rest'

theorem isLocal_readReference : IsLocal readReference := by
  intro cs piece rest h
  obtain ⟨s, hread, hpiece, hrest⟩ := h
  unfold readReference at hread
  split at hread
  · rename_i name hcut
    cases hread
    unfold cutUntil? at hcut
    split at hcut
    · cases hcut
    · rename_i c behind hdrop
      cases hcut
      cases hpiece
      cases hrest
      have hsplit := List.takeWhile_append_dropWhile
        (p := fun c => c != ';' && c != '&' && c != '<') (l := cs)
      have hname := List.all_eq_true.1
        (List.all_takeWhile (p := fun c => c != ';' && c != '&' && c != '<') (l := cs))
      rw [hdrop] at hsplit
      refine ⟨_ ++ [';'], by rw [List.append_assoc]; exact hsplit.symm, fun rest' => ?_⟩
      obtain ⟨shorter, hagain⟩ := exists_cutUntil? (d := ';') hname rfl rest'
      rw [List.append_assoc, List.singleton_append, readReference, hagain]
      exact ⟨_, rfl, rfl, rfl⟩
  · cases hread

end markup

end SwiftDecls.Xml
