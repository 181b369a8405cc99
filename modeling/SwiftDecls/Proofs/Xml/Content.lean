import Mathlib.Data.List.Infix
import SwiftDecls.Proofs.Xml.Elements

/-!
# Content of elements

What stands between the tags of an element is character data, references, markup that is passed
over, and elements (`IsContent`). Well-formed content is content in this sense. So is more, since it
is not asked what the names in references are. A relation says which elements can stand in an
element with a name.

Markup that is passed over gives no event (`eventsFrom_isPassed`).
-/

set_option autoImplicit false

namespace SwiftDecls.Xml

open Text

/-! ## Markup that is passed over -/

/-- A comment, a character data section or an instruction: between its marks there is anything
but the mark at its end. -/
inductive IsPassed : List Char → Prop
  | comment {text : List Char} : ¬"-->".toList <:+: text →
      IsPassed ("<!--".toList ++ text ++ "-->".toList)
  | characterData {text : List Char} : ¬"]]>".toList <:+: text →
      IsPassed ("<![CDATA[".toList ++ text ++ "]]>".toList)
  | instruction {c : Char} {text : List Char} : c ∉ tagMarks → ¬"?>".toList <:+: c :: text →
      IsPassed ("<?".toList ++ (c :: text) ++ "?>".toList)

/-- Read at the front of any text, this is one piece that gives no event. -/
def PassesOver (read : (cs : List Char) → Except Fault (Shorter Piece cs)) (markup : List Char) :
    Prop :=
  ∀ rest, ∃ s, read (markup ++ rest) = .ok s ∧ s.result = .passed ∧ s.rest = rest

theorem PassesOver.behind {read : (cs : List Char) → Except Fault (Shorter Piece cs)}
    {markup : List Char} {mark : Char} (h : PassesOver read markup)
    (hmark : ∀ cs, readMarkup (mark :: cs) = (read cs).map .skip) :
    PassesOver readMarkup (mark :: markup) := by
  intro rest
  obtain ⟨s, hread, hpassed, hrest⟩ := h rest
  refine ⟨s.skip, ?_, hpassed, hrest⟩
  apply (hmark (markup ++ rest)).trans
  rw [hread]
  rfl

theorem eventsFrom_passesOver {markup : List Char} (h : PassesOver readMarkup markup)
    (path : List (List Char)) (rest : List Char) :
    eventsFrom path ('<' :: markup ++ rest) = eventsFrom path rest := by
  obtain ⟨s, hmarkup, hpassed, hrest⟩ := h rest
  have hread : readPiece '<' (markup ++ rest) = .ok s.skip := by
    show (readMarkup (markup ++ rest)).map Shorter.skip = _
    rw [hmarkup]
    rfl
  rw [List.cons_append, eventsFrom, readPieces_cons hread]
  show eventsOf path (readPieces s.rest).fault (s.result :: (readPieces s.rest).pieces) = _
  rw [hpassed, hrest]
  rfl

theorem exists_eq_append_of_not_mem_right {x y front back : List Char} {c : Char} (hc : c ∉ y)
    (h : x ++ y = front ++ c :: back) : ∃ back', x = front ++ c :: back' := by
  rcases List.append_eq_append_iff.1 h with ⟨as, -, rfl⟩ | ⟨bs, rfl, hbs⟩
  · exact absurd (List.mem_append_right as List.mem_cons_self) hc
  · cases bs with
    | nil =>
      rw [List.nil_append] at hbs
      exact absurd (hbs ▸ List.mem_cons_self) hc
    | cons d bs =>
      cases hbs
      exact ⟨bs, rfl⟩

theorem exists_eq_append_of_not_mem_left {x y front back : List Char} {c : Char} (hc : c ∉ x)
    (h : x ++ y = front ++ c :: back) : ∃ front', y = front' ++ c :: back := by
  rcases List.append_eq_append_iff.1 h with ⟨as, -, rfl⟩ | ⟨bs, rfl, hbs⟩
  · exact ⟨as, rfl⟩
  · cases bs with
    | nil => exact ⟨[], hbs.symm⟩
    | cons d bs =>
      cases hbs
      exact absurd (List.mem_append_right front List.mem_cons_self) hc

theorem eq_append_of_isPrefixOf_reverse {mark cs : List Char}
    (h : mark.isPrefixOf cs.reverse = true) : ∃ front, cs = front ++ mark.reverse := by
  obtain ⟨after, hafter⟩ := List.isPrefixOf_iff_prefix.1 h
  refine ⟨after.reverse, ?_⟩
  rw [← List.reverse_append, hafter, List.reverse_reverse]

/-- A cut is made at the first `>` that is ready to end. -/
theorem cutWhen?_eq_some {ready : List Char → Bool} {before cs : List Char}
    (h : ∀ front back, cs = front ++ '>' :: back → ready (front.reverse ++ before) = false)
    (hready : ready (cs.reverse ++ before) = true) (rest : List Char) :
    cutWhen? ready before (cs ++ '>' :: rest) = some (before.reverse ++ cs, rest) := by
  induction cs generalizing before with
  | nil =>
    rw [List.reverse_nil, List.nil_append] at hready
    rw [List.nil_append, cutWhen?, hready, List.append_nil]
    rfl
  | cons c cs ih =>
    have hc : ¬(c == '>' && ready before) = true := by
      intro hnow
      rw [Bool.and_eq_true, beq_iff_eq] at hnow
      have hnot := h [] cs (by rw [hnow.1]; rfl)
      rw [List.reverse_nil, List.nil_append, hnow.2] at hnot
      cases hnot
    rw [List.reverse_cons, List.append_assoc, List.singleton_append] at hready
    rw [List.cons_append, cutWhen?, if_neg hc, ih ?_ hready, List.reverse_cons, List.append_assoc,
      List.singleton_append]
    intro front back heq
    have hfront := h (c :: front) back (by rw [heq]; rfl)
    rwa [List.reverse_cons, List.append_assoc, List.singleton_append] at hfront

theorem passesOver_comment {text : List Char} (h : ¬"-->".toList <:+: text) :
    PassesOver readComment ("--".toList ++ text ++ "-->".toList) := by
  intro rest
  let content := "--".toList ++ text ++ "--".toList
  have htext : "--".toList ++ text ++ "-->".toList ++ rest = content ++ '>' :: rest := by
    simp [content]
  have hcut : cutWhen? (fun before => "--".toList.isPrefixOf before && 4 ≤ before.length) []
      (content ++ '>' :: rest) = some (content, rest) := by
    apply cutWhen?_eq_some
    · intro front back heq
      rw [List.append_nil]
      by_contra hready
      rw [Bool.not_eq_false, Bool.and_eq_true, decide_eq_true_eq, List.length_reverse] at hready
      obtain ⟨before, rfl⟩ := eq_append_of_isPrefixOf_reverse hready.1
      obtain ⟨back', heq⟩ := exists_eq_append_of_not_mem_right (by decide) heq
      -- With four characters the mark at the end is not the one at the front.
      match before, hready.2, heq with
      | a :: b :: before, _, heq =>
        have hinside : '-' :: '-' :: text = a :: b :: (before ++ "--".toList ++ '>' :: back') := heq
        obtain ⟨-, hinside⟩ := List.cons.inj hinside
        obtain ⟨-, hinside⟩ := List.cons.inj hinside
        apply h
        refine ⟨before, back', ?_⟩
        rw [hinside, List.append_assoc, List.append_assoc]
        rfl
    · simp [content]
  have hstart : "--".toList.isPrefixOf content = true := rfl
  rw [htext]
  unfold readComment
  split
  · rename_i hnone
    cases hcut.symm.trans hnone
  · rename_i content' rest' hsome
    cases hcut.symm.trans hsome
    rw [if_pos hstart]
    exact ⟨_, rfl, rfl, rfl⟩

theorem passesOver_characterData {text : List Char} (h : ¬"]]>".toList <:+: text) :
    PassesOver readCharacterData ("[CDATA[".toList ++ text ++ "]]>".toList) := by
  intro rest
  let content := "[CDATA[".toList ++ text ++ "]]".toList
  have htext : "[CDATA[".toList ++ text ++ "]]>".toList ++ rest = content ++ '>' :: rest := by
    simp [content]
  have hcut : cutWhen? ("]]".toList.isPrefixOf ·) [] (content ++ '>' :: rest) =
      some (content, rest) := by
    apply cutWhen?_eq_some
    · intro front back heq
      rw [List.append_nil]
      by_contra hready
      rw [Bool.not_eq_false] at hready
      obtain ⟨before, rfl⟩ := eq_append_of_isPrefixOf_reverse hready
      obtain ⟨back', heq⟩ := exists_eq_append_of_not_mem_right (by decide) heq
      rw [List.append_assoc] at heq
      obtain ⟨front', hinside⟩ := exists_eq_append_of_not_mem_left (c := ']') (by decide) heq
      apply h
      refine ⟨front', back', ?_⟩
      rw [hinside, List.append_assoc]
      rfl
    · simp [content]
  have hstart : "[CDATA[".toList.isPrefixOf content = true := rfl
  rw [htext]
  unfold readCharacterData
  split
  · rename_i hnone
    cases hcut.symm.trans hnone
  · rename_i content' rest' hsome
    cases hcut.symm.trans hsome
    rw [if_pos hstart]
    exact ⟨_, rfl, rfl, rfl⟩

theorem passesOver_instruction {c : Char} {text : List Char} (hc : c ∉ tagMarks)
    (h : ¬"?>".toList <:+: c :: text) :
    PassesOver readInstruction ((c :: text) ++ "?>".toList) := by
  intro rest
  let content := (c :: text) ++ "?".toList
  have htext : (c :: text) ++ "?>".toList ++ rest = content ++ '>' :: rest := by simp [content]
  have hcut : cutWhen? (·.head? == some '?') ['?'] (content ++ '>' :: rest) =
      some ('?' :: content, rest) := by
    apply cutWhen?_eq_some
    · intro front back heq
      by_contra hready
      rw [Bool.not_eq_false, beq_iff_eq] at hready
      obtain ⟨back', heq⟩ := exists_eq_append_of_not_mem_right (by decide) heq
      rcases List.eq_nil_or_concat front with rfl | ⟨before, d, rfl⟩
      · rw [List.nil_append] at heq
        cases heq
        exact hc (by decide)
      · simp only [List.concat_eq_append, List.reverse_append, List.reverse_singleton,
          List.cons_append, List.head?_cons, Option.some.injEq] at hready
        apply h
        refine ⟨before, back', ?_⟩
        rw [heq, hready, List.concat_eq_append, List.append_assoc, List.append_assoc]
        rfl
    · simp [content]
  rw [htext]
  unfold readInstruction
  split
  · rename_i hnone
    cases hcut.symm.trans hnone
  · rename_i rest' hsome
    have hshort := hcut.symm.trans hsome
    simp [content] at hshort
  · rename_i content' rest' _ hsome
    cases hcut.symm.trans hsome
    exact ⟨_, rfl, rfl, rfl⟩

/-- Markup that is passed over gives no event. -/
theorem eventsFrom_isPassed {markup : List Char} (h : IsPassed markup) (path : List (List Char))
    (rest : List Char) : eventsFrom path (markup ++ rest) = eventsFrom path rest := by
  cases h with
  | @comment text h =>
    have hspecial : PassesOver readSpecial ("--".toList ++ text ++ "-->".toList) :=
      passesOver_comment h
    exact eventsFrom_passesOver (hspecial.behind fun _ => rfl) path rest
  | @characterData text h =>
    have hspecial : PassesOver readSpecial ("[CDATA[".toList ++ text ++ "]]>".toList) :=
      passesOver_characterData h
    exact eventsFrom_passesOver (hspecial.behind fun _ => rfl) path rest
  | instruction hc h =>
    exact eventsFrom_passesOver ((passesOver_instruction hc h).behind fun _ => rfl) path rest

/-! ## Content -/

/-- Content of an element with the name `parent`. An element can stand directly in another if
`Fits` relates their names, the outer one first. -/
inductive IsContent (Fits : List Char → List Char → Prop) : List Char → List Char → Prop
  | nil {parent : List Char} : IsContent Fits parent []
  | data {parent cs : List Char} {c : Char} :
      isData c = true → IsContent Fits parent cs → IsContent Fits parent (c :: cs)
  | reference {parent name cs : List Char} :
      name.all (fun c => c != ';' && c != '&' && c != '<') = true →
      IsContent Fits parent cs → IsContent Fits parent ('&' :: name ++ ';' :: cs)
  | passed {parent markup cs : List Char} :
      IsPassed markup → IsContent Fits parent cs → IsContent Fits parent (markup ++ cs)
  | empty {parent name tag cs : List Char} : Fits parent name → IsEmptyTag name tag →
      IsContent Fits parent cs → IsContent Fits parent (tag ++ cs)
  | element {parent name opening body closing cs : List Char} : Fits parent name →
      IsOpeningTag name opening → IsContent Fits name body → IsClosingTag name closing →
      IsContent Fits parent cs → IsContent Fits parent (opening ++ body ++ closing ++ cs)

/-- An element with the name `name`, by itself. -/
inductive IsElement (Fits : List Char → List Char → Prop) (name : List Char) : List Char → Prop
  | empty {tag : List Char} : IsEmptyTag name tag → IsElement Fits name tag
  | whole {opening body closing : List Char} : IsOpeningTag name opening →
      IsContent Fits name body → IsClosingTag name closing →
      IsElement Fits name (opening ++ body ++ closing)

section content

variable {Fits Fits' : List Char → List Char → Prop} {P : List Char → Prop}
variable {parent name text cs : List Char}

/-- A relation is exchanged for another where a property goes on from an element to those in it. -/
theorem IsContent.mono (hfits : ∀ {p n}, P p → Fits p n → Fits' p n ∧ P n)
    (h : IsContent Fits parent cs) (hparent : P parent) : IsContent Fits' parent cs := by
  induction h with
  | nil => exact .nil
  | data hc _ ih => exact .data hc (ih hparent)
  | reference hname _ ih => exact .reference hname (ih hparent)
  | passed hmarkup _ ih => exact .passed hmarkup (ih hparent)
  | empty hname htag _ ih => exact .empty (hfits hparent hname).1 htag (ih hparent)
  | element hname hopening _ hclosing _ ihbody ih =>
    obtain ⟨hname', hp⟩ := hfits hparent hname
    exact .element hname' hopening (ihbody hp) hclosing (ih hparent)

theorem IsElement.mono (hfits : ∀ {p n}, P p → Fits p n → Fits' p n ∧ P n)
    (h : IsElement Fits name text) (hname : P name) : IsElement Fits' name text := by
  cases h with
  | empty htag => exact .empty htag
  | whole hopening hbody hclosing => exact .whole hopening (hbody.mono hfits hname) hclosing

/-- An element that fits is content. -/
theorem IsElement.content (h : IsElement Fits name text) (hfits : Fits parent name) :
    IsContent Fits parent text := by
  rw [← List.append_nil text]
  cases h with
  | empty htag => exact .empty hfits htag .nil
  | whole hopening hbody hclosing => exact .element hfits hopening hbody hclosing .nil

end content

end SwiftDecls.Xml
