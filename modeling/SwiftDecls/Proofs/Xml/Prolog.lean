import SwiftDecls.Proofs.Xml.Content

/-!
# What comes before the first element

Before its first element a text has white space, markup that is passed over and a document type
(`IsProlog`). A document type gives no event (`eventsFrom_isDoctype`).

A document type is read character by character from one place in it to the next. `Moves` says
that a part leads from a place to a place, wherever the part stands, and each kind of declaration
leads from the internal subset back to it (`moves_isSubset`).
-/

set_option autoImplicit false

namespace SwiftDecls.Xml

open Text

/-! ## Document types -/

/-- The declarations of a document type in which a `>` between quotes is no end. -/
def quotingWords : List (List Char) := ["!ATTLIST".toList, "!ENTITY".toList, "!NOTATION".toList]

/-- What stands between the brackets of a document type. Between the declarations there are white
space and references to parameters. -/
inductive IsSubset : List Char → Prop
  | nil : IsSubset []
  | between {c : Char} {cs : List Char} : c ∉ ['<', ']'] → IsSubset cs → IsSubset (c :: cs)
  | comment {text cs : List Char} : ¬"-->".toList <:+: text → IsSubset cs →
      IsSubset ("<!--".toList ++ text ++ "-->".toList ++ cs)
  | instruction {text cs : List Char} : ¬"?>".toList <:+: text → IsSubset cs →
      IsSubset ("<?".toList ++ text ++ "?>".toList ++ cs)
  | element {text cs : List Char} : '>' ∉ text → IsSubset cs →
      IsSubset ("<!ELEMENT".toList ++ text ++ '>' :: cs)
  | quoting {word text cs : List Char} : word ∈ quotingWords → Quoting ['>'] text →
      IsSubset cs → IsSubset ('<' :: word ++ text ++ '>' :: cs)

/-- A document type. It has a name, perhaps places to find it at, and perhaps a subset. -/
inductive IsDoctype : List Char → Prop
  | short {head : List Char} : Quoting ['>', '['] head → head.all isSpace = false →
      IsDoctype ("<!DOCTYPE".toList ++ head ++ ['>'])
  | subset {head subset gap : List Char} : Quoting ['>', '['] head → head.all isSpace = false →
      IsSubset subset → '>' ∉ gap →
      IsDoctype ("<!DOCTYPE".toList ++ head ++ ('[' :: subset ++ ']' :: gap) ++ ['>'])

/-- What comes before the first element. The data of a well-formed text is white space here,
perhaps behind a byte order mark. -/
inductive IsProlog : List Char → Prop
  | nil : IsProlog []
  | data {c : Char} {cs : List Char} : isData c = true → IsProlog cs → IsProlog (c :: cs)
  | passed {markup cs : List Char} : IsPassed markup → IsProlog cs → IsProlog (markup ++ cs)
  | doctype {doctype cs : List Char} : IsDoctype doctype → IsProlog cs → IsProlog (doctype ++ cs)

/-! ## From place to place -/

/-- A part of a document type leads from one place to another. -/
def Moves (p : DoctypePlace) (cs : List Char) (p' : DoctypePlace) : Prop :=
  ∀ before rest, cutDoctype? p before (cs ++ rest) = cutDoctype? p' (cs.reverse ++ before) rest

namespace Moves

variable {p p' p'' : DoctypePlace} {a b : List Char}

theorem nil : Moves p [] p := fun _ _ => rfl

theorem append (ha : Moves p a p') (hb : Moves p' b p'') : Moves p (a ++ b) p'' := by
  intro before rest
  rw [List.append_assoc, ha, hb, List.reverse_append, List.append_assoc]

theorem step {c : Char} (h : c = '>' → p.ends = false) : Moves p [c] (p.step c) := by
  intro before rest
  have hgoes : ¬(c == '>' && p.ends) = true := by
    intro hends
    rw [Bool.and_eq_true, beq_iff_eq] at hends
    rw [h hends.1] at hends
    cases hends.2
  rw [List.singleton_append, cutDoctype?, if_neg hgoes]
  rfl

theorem cons {c : Char} (h : c = '>' → p.ends = false) (hb : Moves (p.step c) b p'') :
    Moves p (c :: b) p'' := (step h).append hb

/-- A place that no character of a part leaves. -/
theorem stay {cs : List Char} (h : ∀ c ∈ cs, (c = '>' → p.ends = false) ∧ p.step c = p) :
    Moves p cs p := by
  induction cs with
  | nil => exact nil
  | cons c rest ih =>
    obtain ⟨hends, hstep⟩ := h c List.mem_cons_self
    apply cons hends
    rw [hstep]
    exact ih fun d hd => h d (List.mem_cons_of_mem c hd)

/-- Where a `>` between quotes is no end, such values are passed. -/
theorem quoting {place : Option Char → DoctypePlace} {ends cs : List Char}
    (hends : ∀ c ∉ ends, (c = '>' → (place none).ends = false) ∧
      (place none).step c = place (quoteAfter none c))
    (hquoted : ∀ q c, (place (some q)).ends = false ∧
      (place (some q)).step c = place (quoteAfter (some q) c))
    (hquotes : ∀ q, isQuote q = true → q ∉ ends) (h : Quoting ends cs) :
    Moves (place none) cs (place none) := by
  induction h with
  | nil => exact nil
  | @char c cs hquote hc _ ih =>
    apply cons (hends c hc).1
    rw [(hends c hc).2, quoteAfter, if_neg (by simp [hquote])]
    exact ih
  | @quoted q value cs hq hvalue _ ih =>
    have hstay : Moves (place (some q)) value (place (some q)) := by
      apply stay
      intro c hc
      have hne : c ≠ q := fun heq => hvalue (heq ▸ hc)
      refine ⟨fun _ => (hquoted q c).1, ?_⟩
      rw [(hquoted q c).2, quoteAfter, if_neg hne]
    have hopen : Moves (place none) [q] (place (some q)) := by
      have hstep := step (hends q (hquotes q hq)).1
      rwa [(hends q (hquotes q hq)).2, quoteAfter, if_pos hq] at hstep
    have hclose : Moves (place (some q)) [q] (place none) := by
      have hstep := step (c := q) fun _ => (hquoted q q).1
      rwa [(hquoted q q).2, quoteAfter, if_pos rfl] at hstep
    exact (hopen.append hstay).append (hclose.append ih)

theorem outside {cs : List Char} (h : Quoting ['>', '['] cs) :
    Moves (.outside none) cs (.outside none) := by
  apply quoting _ (fun _ _ => ⟨rfl, rfl⟩) _ h
  · intro c hc
    simp only [List.mem_cons, List.not_mem_nil, or_false, not_or] at hc
    refine ⟨fun heq => absurd heq hc.1, ?_⟩
    exact if_neg hc.2
  · intro q hq hmem
    simp only [List.mem_cons, List.not_mem_nil, or_false] at hmem
    rcases hmem with rfl | rfl <;> exact absurd hq (by decide)

theorem declaration {cs : List Char} (h : Quoting ['>'] cs) :
    Moves (.declaration none) cs (.declaration none) := by
  apply quoting _ (fun _ _ => ⟨rfl, rfl⟩) _ h
  · intro c hc
    have hend : c ≠ '>' := by simpa using hc
    refine ⟨fun _ => rfl, ?_⟩
    simp [DoctypePlace.step, hend]
  · intro q hq hmem
    rw [List.mem_singleton] at hmem
    exact absurd (hmem ▸ hq) (by decide)

/-- In a comment the last two characters are known. -/
theorem comment {cs : List Char} (h : ¬"-->".toList <:+: cs) :
    Moves (.comment []) cs (.comment (cs.reverse.take 2)) := by
  induction cs using List.reverseRecOn with
  | nil => exact nil
  | append_singleton cs c ih =>
    have hcs : ¬"-->".toList <:+: cs := fun hin => h (hin.trans (List.infix_append' [] cs [c]))
    have hgoes : ¬(c = '>' ∧ cs.reverse.take 2 = ['-', '-']) := by
      rintro ⟨rfl, hmark⟩
      have hprefix : "--".toList <+: cs.reverse := List.prefix_iff_eq_take.2 hmark.symm
      obtain ⟨front, rfl⟩ :=
        eq_append_of_isPrefixOf_reverse (List.isPrefixOf_iff_prefix.2 hprefix)
      apply h
      refine ⟨front, [], ?_⟩
      rw [List.append_nil, List.append_assoc]
      rfl
    have hstep : (DoctypePlace.comment (cs.reverse.take 2)).step c =
        .comment ((cs ++ [c]).reverse.take 2) := by
      have htake : (cs ++ [c]).reverse.take 2 = c :: (cs.reverse.take 2).take 1 := by
        rw [List.reverse_append, List.take_take]
        rfl
      rw [htake]
      exact if_neg (by simpa using hgoes)
    rw [← hstep]
    exact (ih hcs).append (step fun _ => rfl)

/-- In an instruction the last character is known. -/
theorem instruction {cs : List Char} (h : ¬"?>".toList <:+: cs) :
    Moves (.instruction false) cs (.instruction (cs.getLast? == some '?')) := by
  induction cs using List.reverseRecOn with
  | nil => exact nil
  | append_singleton cs c ih =>
    have hcs : ¬"?>".toList <:+: cs := fun hin => h (hin.trans (List.infix_append' [] cs [c]))
    have hgoes : ¬(cs.getLast? = some '?' ∧ c = '>') := by
      rintro ⟨hlast, rfl⟩
      obtain ⟨front, rfl⟩ := List.getLast?_eq_some_iff.1 hlast
      apply h
      refine ⟨front, [], ?_⟩
      rw [List.append_nil, List.append_assoc]
      rfl
    have hstep : (DoctypePlace.instruction (cs.getLast? == some '?')).step c =
        .instruction ((cs ++ [c]).getLast? == some '?') := by
      rw [List.getLast?_concat]
      exact if_neg (by simpa using hgoes)
    rw [← hstep]
    exact (ih hcs).append (step fun _ => rfl)

end Moves

/-- What stands in the internal subset leads back to it. -/
theorem moves_isSubset {cs : List Char} (h : IsSubset cs) : Moves .subset cs .subset := by
  induction h with
  | nil => exact .nil
  | between hc _ ih =>
    simp only [List.mem_cons, List.not_mem_nil, or_false, not_or] at hc
    apply Moves.cons fun _ => rfl
    simpa only [DoctypePlace.step, hc.1, hc.2, if_false] using ih
  | comment htext _ ih =>
    have hopen : Moves .subset "<!--".toList (.comment []) := fun _ _ => rfl
    have hclose (before : List Char) : Moves (.comment before) "-->".toList .subset :=
      fun _ _ => rfl
    exact ((hopen.append (.comment htext)).append (hclose _)).append ih
  | instruction htext _ ih =>
    have hopen : Moves .subset "<?".toList (.instruction false) := fun _ _ => rfl
    have hclose (ready : Bool) : Moves (.instruction ready) "?>".toList .subset := fun _ _ => by
      cases ready <;> rfl
    exact ((hopen.append (.instruction htext)).append (hclose _)).append ih
  | @element text cs htext _ ih =>
    have hopen : Moves .subset "<!ELEMENT".toList .other := fun _ _ => rfl
    have hinside : Moves .other text .other := by
      apply Moves.stay
      intro c hc
      exact ⟨fun _ => rfl, if_neg fun heq : c = '>' => htext (heq ▸ hc)⟩
    have hclose : Moves .other ['>'] .subset := fun _ _ => rfl
    exact (hopen.append hinside).append (hclose.append ih)
  | @quoting word text cs hword htext _ ih =>
    have hopen : Moves .subset ('<' :: word) (.declaration none) := by
      simp only [quotingWords, List.mem_cons, List.not_mem_nil, or_false] at hword
      rcases hword with rfl | rfl | rfl <;> exact fun _ _ => rfl
    have hclose : Moves (.declaration none) ['>'] .subset := fun _ _ => rfl
    exact (hopen.append (.declaration htext)).append (hclose.append ih)

/-! ## Document types and prologs -/

/-- A part that ends where a `>` ends a document type is cut off there. -/
theorem Moves.cutDoctype?_eq {p : DoctypePlace} {cs : List Char} (h : Moves (.outside none) cs p)
    (hends : p.ends = true) (rest : List Char) :
    cutDoctype? (.outside none) [] (cs ++ '>' :: rest) = some (cs, rest) := by
  rw [h [] ('>' :: rest), List.append_nil, cutDoctype?, hends, List.reverse_reverse]
  rfl

theorem passesOver_doctype {head behind : List Char} {p : DoctypePlace}
    (hmoves : Moves (.outside none) ("DOCTYPE".toList ++ head ++ behind) p)
    (hends : p.ends = true) (hname : head.all isSpace = false) :
    PassesOver readDoctype ("DOCTYPE".toList ++ head ++ behind ++ ['>']) := by
  intro rest
  have hcut := hmoves.cutDoctype?_eq hends rest
  have hword : (("DOCTYPE".toList ++ head ++ behind).take doctypeWord.length).map Char.toUpper =
      doctypeWord := rfl
  have hnamed : ¬(("DOCTYPE".toList ++ head ++ behind).drop doctypeWord.length).all isSpace =
      true := by
    show ¬(head ++ behind).all isSpace = true
    rw [List.all_append, hname]
    exact Bool.false_ne_true
  rw [List.append_assoc, List.singleton_append]
  unfold readDoctype
  split
  · rename_i hnone
    cases hcut.symm.trans hnone
  · rename_i content' rest' hsome
    cases hcut.symm.trans hsome
    rw [if_neg (not_not_intro hword), if_neg hnamed]
    exact ⟨_, rfl, rfl, rfl⟩

/-- A document type gives no event. -/
theorem eventsFrom_isDoctype {doctype : List Char} (h : IsDoctype doctype)
    (path : List (List Char)) (rest : List Char) :
    eventsFrom path (doctype ++ rest) = eventsFrom path rest := by
  have hword : Moves (.outside none) "DOCTYPE".toList (.outside none) := fun _ _ => rfl
  cases h with
  | @short head hhead hname =>
    have hmoves := (hword.append (.outside hhead)).append .nil
    have hspecial : PassesOver readSpecial ("DOCTYPE".toList ++ head ++ [] ++ ['>']) :=
      passesOver_doctype hmoves rfl hname
    rw [List.append_nil] at hspecial
    exact eventsFrom_passesOver (hspecial.behind fun _ => rfl) path rest
  | @subset head subset gap hhead hname hsubset hgap =>
    have hopen : Moves (.outside none) ['['] .subset := fun _ _ => rfl
    have hclose : Moves .subset [']'] .after := fun _ _ => rfl
    have hbehind : Moves .after gap .after :=
      Moves.stay fun c hc => ⟨fun heq => absurd (heq ▸ hc) hgap, rfl⟩
    have hmoves := (hword.append (.outside hhead)).append
      ((hopen.append (moves_isSubset hsubset)).append (hclose.append hbehind))
    have hspecial : PassesOver readSpecial
        ("DOCTYPE".toList ++ head ++ ('[' :: subset ++ ']' :: gap) ++ ['>']) :=
      passesOver_doctype hmoves rfl hname
    exact eventsFrom_passesOver (hspecial.behind fun _ => rfl) path rest

end SwiftDecls.Xml
