import Mathlib.Data.List.DropRight
import SwiftDecls.Text.Blank

/-!
# What is left without the ends

`StripsTo` is the relation between a list and what is left of it when everything with a property is
taken from both its ends, and nothing else. A trimmed text is what is left without blanks
(`stripsTo_trim`).
-/

set_option autoImplicit false

namespace SwiftDecls.Text

variable {α : Type} {p : α → Bool} {xs core : List α}

/-- `core` is `xs` without what has the property at its ends. -/
structure StripsTo (p : α → Bool) (xs core : List α) : Prop where
  ends : ∃ before after, xs = before ++ core ++ after ∧ (∀ a ∈ before, p a = true) ∧
    ∀ a ∈ after, p a = true
  first : ∀ a ∈ core.head?, p a = false
  last : ∀ a ∈ core.getLast?, p a = false

theorem stripsTo_rdropWhile (p : α → Bool) (xs : List α) :
    StripsTo p xs ((xs.dropWhile p).rdropWhile p) := by
  have hsplit : (xs.dropWhile p).rdropWhile p ++ (xs.dropWhile p).rtakeWhile p = xs.dropWhile p :=
    List.rdropWhile_append_rtakeWhile
  refine ⟨⟨xs.takeWhile p, (xs.dropWhile p).rtakeWhile p, ?_, fun a => List.mem_takeWhile_imp,
    fun a => List.mem_rtakeWhile_imp⟩, fun a ha => ?_, fun a ha => ?_⟩
  · rw [List.append_assoc, hsplit, List.takeWhile_append_dropWhile]
  · -- What comes first in the core comes first behind the front end.
    have hhead : (xs.dropWhile p).head? = some a := by
      rw [← hsplit, List.head?_append, Option.mem_def.1 ha, Option.some_or]
    have hnot := List.head?_dropWhile_not p xs
    rwa [hhead] at hnot
  · obtain ⟨hne, rfl⟩ := List.mem_getLast?_eq_getLast ha
    exact Bool.eq_false_iff.2 (List.rdropWhile_last_not p _ hne)

theorem StripsTo.mem (h : StripsTo p xs core) {a : α} (ha : a ∈ core) : a ∈ xs := by
  obtain ⟨before, after, rfl, -⟩ := h.ends
  exact List.mem_append_left after (List.mem_append_right before ha)

theorem StripsTo.eq_nil_iff (h : StripsTo p xs core) : core = [] ↔ ∀ a ∈ xs, p a = true := by
  obtain ⟨before, after, rfl, hbefore, hafter⟩ := h.ends
  constructor
  · rintro rfl a ha
    rw [List.append_nil, List.mem_append] at ha
    exact ha.elim (hbefore a) (hafter a)
  · intro hall
    cases hcore : core with
    | nil => rfl
    | cons a rest =>
      have hfirst := h.first a (by rw [hcore]; rfl)
      rw [hall a (by simp [hcore])] at hfirst
      cases hfirst

/-- Only white space is trimmed off, and all of it. -/
theorem stripsTo_trim (cs : List Char) : StripsTo isBlank cs (trim cs) :=
  stripsTo_rdropWhile isBlank cs

end SwiftDecls.Text
