/-!
# Texts and their lines

`textLines` takes a text apart at its line feeds and `unlines` puts lines together, each with
a line feed at its end, so that the text of `unlines` has one more line, an empty one, than it
was given (`textLines_unlines`). Every text that the generator writes is of this form, which is
why the lemmas below are about lists of lines: `unlines` turns appending of lists into appending
of texts (`unlines_append`), and deleting lines from a text into filtering a list
(`dropLines_unlines`).
-/

set_option autoImplicit false

namespace SwiftDecls.Text

/-- The lines of a text. What follows the last line feed is a line too. -/
def textLines (text : String) : List (List Char) := text.toList.splitOn '\n'

/-- The text of lines that all end with a line feed. -/
def unlines (ls : List (List Char)) : String := String.ofList (ls.flatMap (· ++ ['\n']))

/-- No line holds a line feed. -/
def AreLines (ls : List (List Char)) : Prop := ∀ l ∈ ls, '\n' ∉ l

/-- A text without the lines that have a property. -/
def dropLines (p : List Char → Bool) (text : String) : String :=
  String.ofList (['\n'].intercalate ((textLines text).filter fun l => !p l))

/-! ## Splitting -/

/-- A part of a split text has its characters from the text and is free of the one at which it
was split. -/
theorem of_mem_splitOn {c : Char} {cs l : List Char} (h : l ∈ cs.splitOn c) :
    c ∉ l ∧ ∀ d ∈ l, d ∈ cs := by
  induction cs generalizing l with
  | nil =>
    rw [List.splitOn_nil, List.mem_singleton] at h
    simp [h]
  | cons a rest ih =>
    rw [List.splitOn_cons_eq_if_modifyHead] at h
    split at h
    · rcases List.mem_cons.1 h with rfl | h
      · simp
      · obtain ⟨hc, hl⟩ := ih h
        exact ⟨hc, fun d hd => List.mem_cons_of_mem _ (hl d hd)⟩
    · rename_i hne
      obtain ⟨first, others, hs⟩ := List.exists_cons_of_ne_nil (List.splitOn_ne_nil c rest)
      rw [hs, List.modifyHead_cons] at h
      rcases List.mem_cons.1 h with rfl | h
      · obtain ⟨hc, hl⟩ := ih (l := first) (by rw [hs]; exact List.mem_cons_self)
        have hca : c ≠ a := fun e => hne (by simp [e])
        refine ⟨by simp [hca, hc], fun d hd => ?_⟩
        rcases List.mem_cons.1 hd with rfl | hd
        · exact List.mem_cons_self
        · exact List.mem_cons_of_mem _ (hl d hd)
      · obtain ⟨hc, hl⟩ := ih (l := l) (by rw [hs]; exact List.mem_cons_of_mem _ h)
        exact ⟨hc, fun d hd => List.mem_cons_of_mem _ (hl d hd)⟩

theorem areLines_textLines (text : String) : AreLines (textLines text) :=
  fun _ hl => (of_mem_splitOn hl).1

theorem AreLines.append {as bs : List (List Char)} (ha : AreLines as) (hb : AreLines bs) :
    AreLines (as ++ bs) := by
  intro l hl
  rcases List.mem_append.1 hl with hl | hl
  · exact ha l hl
  · exact hb l hl

/-! ## Lines put together -/

@[simp] theorem unlines_nil : unlines [] = "" := rfl

theorem unlines_eq_empty_iff {ls : List (List Char)} : unlines ls = "" ↔ ls = [] := by
  cases ls with
  | nil => simp
  | cons l rest => simp [unlines]

theorem unlines_append (as bs : List (List Char)) :
    unlines (as ++ bs) = unlines as ++ unlines bs := by
  simp [unlines]

theorem unlines_flatten (lss : List (List (List Char))) :
    unlines lss.flatten = String.join (lss.map unlines) := by
  induction lss with
  | nil => rfl
  | cons ls rest ih => rw [List.flatten_cons, unlines_append, ih, List.map_cons, String.join_cons]

/-- Lines put together are read back, and after the last line feed there is an empty line. -/
theorem textLines_unlines {ls : List (List Char)} (h : AreLines ls) :
    textLines (unlines ls) = ls ++ [[]] := by
  have hsplit : (ls.flatMap (· ++ ['\n'])).splitOn '\n' = ls ++ [[]] := by
    induction ls with
    | nil => rfl
    | cons l rest ih =>
      have hl : '\n' ∉ l := h l List.mem_cons_self
      have hrest := ih fun l' hl' => h l' (List.mem_cons_of_mem _ hl')
      rw [List.flatMap_cons, List.append_assoc, List.singleton_append,
        List.splitOn_append_cons_self_of_not_mem hl, hrest, List.cons_append]
  rw [textLines, unlines, String.toList_ofList, hsplit]

theorem ofList_intercalate_append_empty (ls : List (List Char)) :
    String.ofList (['\n'].intercalate (ls ++ [[]])) = unlines ls := by
  rw [unlines]
  congr 1
  induction ls with
  | nil => rfl
  | cons l rest ih =>
    rw [List.cons_append, List.intercalate_cons_of_ne_nil (by simp), ih, List.flatMap_cons,
      List.append_assoc]

/-- Deleting lines from a text of whole lines. An empty line stays. -/
theorem dropLines_unlines {p : List Char → Bool} (hp : p [] = false) {ls : List (List Char)}
    (h : AreLines ls) : dropLines p (unlines ls) = unlines (ls.filter fun l => !p l) := by
  rw [dropLines, textLines_unlines h, List.filter_append]
  rw [show [([] : List Char)].filter (fun l => !p l) = [[]] by simp [hp]]
  exact ofList_intercalate_append_empty _

end SwiftDecls.Text
