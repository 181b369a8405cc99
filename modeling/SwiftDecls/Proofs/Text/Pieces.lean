import Mathlib.Data.List.TakeWhile
import SwiftDecls.Proofs.Text.Lines
import SwiftDecls.Text.Pieces
import SwiftDecls.Text.Shorter

/-!
# Texts put together from parts

A separator between two texts cuts segments apart (`segments_append_sep`) and joins them
(`joinSegments_append`), so a function of segments can be applied to the two texts alone. Without
a separator the second text only makes the last segment longer (`exists_segments_append`).
A text is cut at the first separator or at the last one (`cutAt?_append`, `cutAtLast?_append`),
or at the first character that fails a test (`exists_cutUntil?`).
-/

set_option autoImplicit false

namespace SwiftDecls.Text

theorem append_eq_ofList {a b : String} {cs ds : List Char} (ha : a = String.ofList cs)
    (hb : b = String.ofList ds) : a ++ b = String.ofList (cs ++ ds) := by
  rw [ha, hb, String.ofList_append]

theorem segments_append_sep (sep : Char) (a b : String) :
    segments sep (a ++ String.singleton sep ++ b) = segments sep a ++ segments sep b := by
  have hchars : (a ++ String.singleton sep ++ b).toList = a.toList ++ sep :: b.toList := by simp
  rw [segments, hchars, List.splitOn_append_cons_self, List.map_append]
  rfl

theorem intercalate_append {α : Type} (sep : List α) {xs ys : List (List α)} (hx : xs ≠ [])
    (hy : ys ≠ []) : sep.intercalate (xs ++ ys) =
      sep.intercalate xs ++ sep ++ sep.intercalate ys := by
  induction xs with
  | nil => exact absurd rfl hx
  | cons x rest ih =>
    cases rest with
    | nil =>
      rw [List.cons_append, List.nil_append, List.intercalate_cons_of_ne_nil hy,
        List.intercalate_singleton, List.append_assoc]
    | cons x' rest =>
      have hrest : (x' :: rest) ++ ys ≠ [] := by simp
      rw [List.cons_append, List.intercalate_cons_of_ne_nil hrest, ih (by simp),
        List.intercalate_cons_cons]
      simp only [List.append_assoc]

theorem joinSegments_append (sep : Char) {xs ys : List String} (hx : xs ≠ []) (hy : ys ≠ []) :
    joinSegments sep (xs ++ ys) =
      joinSegments sep xs ++ String.singleton sep ++ joinSegments sep ys := by
  have hx' : xs.map String.toList ≠ [] := by rwa [ne_eq, List.map_eq_nil_iff]
  have hy' : ys.map String.toList ≠ [] := by rwa [ne_eq, List.map_eq_nil_iff]
  rw [joinSegments, List.map_append, intercalate_append _ hx' hy', String.ofList_append,
    String.ofList_append]
  rfl

theorem mem_or_mem_of_mem_intercalate {α : Type} {sep : List α} {parts : List (List α)} {a : α}
    (h : a ∈ sep.intercalate parts) : a ∈ sep ∨ ∃ part ∈ parts, a ∈ part := by
  induction parts with
  | nil => simp at h
  | cons part rest ih =>
    cases rest with
    | nil =>
      rw [List.intercalate_singleton] at h
      exact .inr ⟨part, List.mem_cons_self, h⟩
    | cons next rest =>
      rw [List.intercalate_cons_cons, List.mem_append, List.mem_append] at h
      rcases h with (hpart | hsep) | hrest
      · exact .inr ⟨part, List.mem_cons_self, hpart⟩
      · exact .inl hsep
      · exact (ih hrest).imp_right fun ⟨q, hq, ha⟩ => ⟨q, List.mem_cons_of_mem part hq, ha⟩

theorem mem_textLines_of_mem {text : String} {c : Char} (h : c ∈ text.toList) :
    c = '\n' ∨ ∃ line ∈ textLines text, c ∈ line := by
  have hjoined : ['\n'].intercalate (textLines text) = text.toList :=
    List.intercalate_splitOn '\n'
  rw [← hjoined] at h
  exact (mem_or_mem_of_mem_intercalate h).imp_left List.mem_singleton.1

theorem segments_ne_nil (sep : Char) (s : String) : segments sep s ≠ [] := by
  rw [segments, ne_eq, List.map_eq_nil_iff]
  exact List.splitOn_ne_nil _ _

theorem not_mem_of_mem_segments {sep : Char} {s part : String} (h : part ∈ segments sep s) :
    sep ∉ part.toList := by
  obtain ⟨cs, hcs, rfl⟩ := List.mem_map.1 h
  rw [String.toList_ofList]
  exact (of_mem_splitOn hcs).1

/-- Segments that are joined are taken apart again. -/
theorem segments_joinSegments (sep : Char) {parts : List String} (hne : parts ≠ [])
    (h : ∀ part ∈ parts, sep ∉ part.toList) : segments sep (joinSegments sep parts) = parts := by
  have hparts : ∀ cs ∈ parts.map String.toList, sep ∉ cs := List.forall_mem_map.2 h
  have hmap : parts.map String.toList ≠ [] := by rwa [ne_eq, List.map_eq_nil_iff]
  rw [segments, joinSegments, String.toList_ofList, List.splitOn_intercalate sep hparts hmap,
    List.map_map]
  exact (List.map_congr_left fun part _ => String.ofList_toList).trans (List.map_id parts)

/-- A text without separators makes the last segment longer. -/
theorem exists_segments_append (sep : Char) (a : String) {b : String} (hb : sep ∉ b.toList) :
    ∃ (leading : List String) (last : String), segments sep a = leading ++ [last] ∧
      sep ∉ last.toList ∧ segments sep (a ++ b) = leading ++ [last ++ b] := by
  have hsplit : ∀ cs : List Char, ∃ (leading : List (List Char)) (last : List Char),
      cs.splitOn sep = leading ++ [last] ∧ sep ∉ last ∧
        (cs ++ b.toList).splitOn sep = leading ++ [last ++ b.toList] := by
    intro cs
    induction cs with
    | nil => exact ⟨[], [], rfl, List.not_mem_nil, List.splitOn_eq_singleton hb⟩
    | cons c rest ih =>
      obtain ⟨leading, last, hrest, hlast, happend⟩ := ih
      rw [List.cons_append, List.splitOn_cons_eq_if_modifyHead, List.splitOn_cons_eq_if_modifyHead,
        hrest, happend]
      by_cases hc : c = sep
      · rw [if_pos (by simpa using hc), if_pos (by simpa using hc)]
        exact ⟨[] :: leading, last, rfl, hlast, rfl⟩
      · rw [if_neg (by simpa using hc), if_neg (by simpa using hc)]
        cases leading with
        | nil =>
          refine ⟨[], c :: last, rfl, ?_, rfl⟩
          simp [Ne.symm hc, hlast]
        | cons first leading => exact ⟨(c :: first) :: leading, last, rfl, hlast, rfl⟩
  obtain ⟨leading, last, ha, hlast, happend⟩ := hsplit a.toList
  refine ⟨leading.map String.ofList, String.ofList last, ?_, ?_, ?_⟩
  · rw [segments, ha, List.map_append, List.map_singleton]
  · rwa [String.toList_ofList]
  · rw [segments, String.toList_append, happend, List.map_append, List.map_singleton,
      String.ofList_append, String.ofList_toList]

theorem dropPrefix?_eq_none_iff {pre cs : List Char} :
    dropPrefix? pre cs = none ↔ ¬ pre <+: cs := by
  rw [Option.eq_none_iff_forall_ne_some]
  constructor
  · rintro h ⟨rest, rfl⟩
    exact h rest (dropPrefix?_append pre rest)
  · intro h rest hrest
    exact h ⟨rest, (dropPrefix?_eq_some_iff.1 hrest).symm⟩

/-! ## Cutting at a character -/

theorem cutAt?_append {sep : Char} {before : List Char} (h : sep ∉ before) (after : List Char) :
    cutAt? sep (before ++ sep :: after) = some (before, after) := by
  have hbefore : ∀ c ∈ before, (c != sep) = true := fun c hc =>
    bne_iff_ne.2 fun heq => h (heq ▸ hc)
  rw [cutAt?, List.dropWhile_append_of_pos hbefore, List.takeWhile_append_of_pos hbefore]
  simp

theorem cutAt?_eq_none_iff {sep : Char} {cs : List Char} : cutAt? sep cs = none ↔ sep ∉ cs := by
  constructor
  · intro hnone hmem
    obtain ⟨before, after, rfl, hbefore⟩ := List.eq_append_cons_of_mem hmem
    rw [cutAt?_append hbefore] at hnone
    cases hnone
  · intro h
    have hall : ∀ c ∈ cs, (c != sep) = true := fun c hc => bne_iff_ne.2 fun heq => h (heq ▸ hc)
    rw [cutAt?, List.dropWhile_eq_nil_iff.2 hall]

theorem eq_append_of_cutAt? {sep : Char} {cs before after : List Char}
    (h : cutAt? sep cs = some (before, after)) : cs = before ++ sep :: after := by
  have hmem : sep ∈ cs := by
    by_contra hnot
    rw [cutAt?_eq_none_iff.2 hnot] at h
    cases h
  obtain ⟨before', after', rfl, hbefore'⟩ := List.eq_append_cons_of_mem hmem
  rw [cutAt?_append hbefore', Option.some.injEq, Prod.mk.injEq] at h
  rw [h.1, h.2]

theorem not_mem_of_cutAt? {sep : Char} {cs before after : List Char}
    (h : cutAt? sep cs = some (before, after)) : sep ∉ before := by
  unfold cutAt? at h
  split at h
  · cases h
    intro hmem
    exact absurd (List.mem_takeWhile_imp hmem) (by simp)
  · cases h

theorem cutAtLast?_append {sep : Char} {after : List Char} (h : sep ∉ after)
    (before : List Char) : cutAtLast? sep (before ++ sep :: after) = some (before, after) := by
  have hreverse : (before ++ sep :: after).reverse = after.reverse ++ sep :: before.reverse := by
    simp
  rw [cutAtLast?, hreverse, cutAt?_append (by rwa [List.mem_reverse])]
  simp

theorem cutAtLast?_eq_none_iff {sep : Char} {cs : List Char} :
    cutAtLast? sep cs = none ↔ sep ∉ cs := by
  rw [cutAtLast?, Option.map_eq_none_iff, cutAt?_eq_none_iff, List.mem_reverse]

theorem eq_append_of_cutAtLast? {sep : Char} {cs before after : List Char}
    (h : cutAtLast? sep cs = some (before, after)) :
    cs = before ++ sep :: after ∧ sep ∉ after := by
  obtain ⟨⟨last, first⟩, hcut, hparts⟩ := Option.map_eq_some_iff.1 h
  obtain ⟨rfl, rfl⟩ := Prod.mk.inj hparts
  have hreverse := congrArg List.reverse (eq_append_of_cutAt? hcut)
  refine ⟨by simpa using hreverse, ?_⟩
  rw [List.mem_reverse]
  exact not_mem_of_cutAt? hcut

theorem dropWhile_append_of_head? {p : Char → Bool} {cs rest : List Char}
    (h : ∀ c ∈ cs, p c = true) (hrest : ∀ c ∈ rest.head?, p c = false) :
    (cs ++ rest).dropWhile p = rest := by
  rw [List.dropWhile_append_of_pos h]
  cases rest with
  | nil => rfl
  | cons d rest => rw [List.dropWhile_cons_of_neg (by simp [hrest d rfl])]

theorem takeWhile_append_of_head? {p : Char → Bool} {cs rest : List Char}
    (h : ∀ c ∈ cs, p c = true) (hrest : ∀ c ∈ rest.head?, p c = false) :
    (cs ++ rest).takeWhile p = cs := by
  rw [List.takeWhile_append_of_pos h]
  cases rest with
  | nil => rw [List.takeWhile_nil, List.append_nil]
  | cons d rest => rw [List.takeWhile_cons_of_neg (by simp [hrest d rfl]), List.append_nil]

theorem exists_cutUntil? {p : Char → Bool} {cs : List Char} {d : Char}
    (h : ∀ c ∈ cs, p c = true) (hd : p d = false) (rest : List Char) :
    ∃ shorter, cutUntil? p (cs ++ d :: rest) = some (d, ⟨cs, rest, shorter⟩) := by
  have hend : ∀ c ∈ (d :: rest).head?, p c = false := by
    rintro c ⟨⟩
    exact hd
  have hdrop : (cs ++ d :: rest).dropWhile p = d :: rest := dropWhile_append_of_head? h hend
  have htake : (cs ++ d :: rest).takeWhile p = cs := takeWhile_append_of_head? h hend
  refine ⟨length_of_dropWhile_eq_cons hdrop, ?_⟩
  unfold cutUntil?
  split
  · rename_i hnil
    rw [hdrop] at hnil
    cases hnil
  · rename_i d' rest' hcons
    have hsame := hdrop.symm.trans hcons
    cases hsame
    simp only [htake]

theorem dropByteOrderMark_of_head? {cs : List Char} (h : ∀ c ∈ cs.head?, c ≠ byteOrderMark) :
    dropByteOrderMark cs = cs := by
  cases cs with
  | nil => rfl
  | cons c rest =>
    have hc : byteOrderMark ≠ c := (h c rfl).symm
    simp [dropByteOrderMark, dropPrefix?, hc]

end SwiftDecls.Text
