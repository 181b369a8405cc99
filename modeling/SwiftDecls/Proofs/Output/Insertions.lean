import Mathlib.Data.List.Induction
import SwiftDecls.Proofs.Output
import SwiftDecls.Proofs.Path.Spelling

/-!
# What insertions leave

An output is a map up to the spelling of paths. An insertion under a path that is there in some
spelling keeps the spelling and replaces the text (`Keyed.mem_toList_insert_iff`), any other adds a
file under the path as it is spelled, and no file is ever removed (`Keyed.mem_paths_insert_iff`). So
of a history of insertions the first under a path gives the spelling (`mem_paths_insertAll_iff`) and
the last one the text.

**Theorem (`holdsFiles_insertAll`).** An output is told by its history in this way, whatever the
history is, and its files are in strictly ascending order.
-/

set_option autoImplicit false

namespace SwiftDecls

/-! ## First spellings -/

/-- The path is spelled as in the first insertion under it. -/
def FirstSpelling (files : List (Path × String)) (p : Path) : Prop :=
  ∃ before text after, files = before ++ (p, text) :: after ∧ ∀ f ∈ before, ¬ f.1.Same p

theorem not_firstSpelling_nil (p : Path) : ¬ FirstSpelling [] p := by
  rintro ⟨before, text, after, hsplit, -⟩
  simp at hsplit

/-- A later insertion is the first one only under a new path. -/
theorem firstSpelling_concat_iff {files : List (Path × String)} {f : Path × String} {p : Path} :
    FirstSpelling (files ++ [f]) p ↔
      FirstSpelling files p ∨ (f.1 = p ∧ ∀ g ∈ files, ¬ g.1.Same p) := by
  constructor
  · rintro ⟨before, text, after, hsplit, hbefore⟩
    rcases List.eq_nil_or_concat after with rfl | ⟨after, last, rfl⟩
    · obtain ⟨rfl, hlast⟩ := List.append_inj' hsplit rfl
      obtain rfl := List.singleton_inj.1 hlast
      exact .inr ⟨rfl, hbefore⟩
    · rw [List.concat_eq_append, ← List.cons_append, ← List.append_assoc] at hsplit
      exact .inl ⟨before, text, after, (List.append_inj' hsplit rfl).1, hbefore⟩
  · rintro (⟨before, text, after, rfl, hbefore⟩ | ⟨rfl, hnew⟩)
    · exact ⟨before, text, after ++ [f], by simp, hbefore⟩
    · exact ⟨files, f.2, [], rfl, hnew⟩

namespace Output

/-- The spelling of a path in an output, the path's own one if it is not there. -/
def spelling (o : Output) (p : Path) : Path := ((o.files.get? p.components).map (·.1)).getD p

/-! ## One insertion -/

theorem Keyed.mem_toList_iff {o : Output} (h : o.Keyed) {f : Path × String} :
    f ∈ o.toList ↔ (f.1.components, f) ∈ o.files.entries := by
  constructor
  · intro hf
    obtain ⟨e, he, rfl⟩ := List.mem_map.1 hf
    rw [h e he]
    exact he
  · intro hf
    exact List.mem_map_of_mem hf

theorem Keyed.spelling_of_mem {o : Output} (h : o.Keyed) {p q : Path} (hq : q ∈ o.paths)
    (hsame : q.Same p) : o.spelling p = q := by
  obtain ⟨f, hf, rfl⟩ := List.mem_map.1 hq
  have hentry := SortedMap.get?_eq_some_iff.2 (h.mem_toList_iff.1 hf)
  rw [show f.1.components = p.components from hsame] at hentry
  rw [spelling, hentry]
  rfl

theorem Keyed.spelling_of_new {o : Output} (h : o.Keyed) {p : Path}
    (hnew : ∀ q ∈ o.paths, ¬ q.Same p) : o.spelling p = p := by
  rw [spelling, SortedMap.get?_eq_none_iff.2]
  · rfl
  · intro hp
    obtain ⟨q, hq, hsame⟩ := h.exists_mem_paths hp
    exact hnew q hq hsame

theorem Keyed.same_spelling {o : Output} (h : o.Keyed) (p : Path) : (o.spelling p).Same p := by
  by_cases hp : ∃ q ∈ o.paths, q.Same p
  · obtain ⟨q, hq, hsame⟩ := hp
    rwa [h.spelling_of_mem hq hsame]
  · rw [h.spelling_of_new fun q hq hsame => hp ⟨q, hq, hsame⟩]
    rfl

/-- An insertion leaves the files with other paths. -/
theorem Keyed.mem_toList_insert_iff {o : Output} (h : o.Keyed) {p : Path} {text : String}
    {f : Path × String} :
    f ∈ (o.insert p text).toList ↔
      f = (o.spelling p, text) ∨ (¬ f.1.Same p ∧ f ∈ o.toList) := by
  have hentries : (f.1.components, f) ∈ (o.insert p text).files.entries ↔
      (f.1.components, f) = (p.components, (o.spelling p, text)) ∨
        (f.1.components ≠ p.components ∧ (f.1.components, f) ∈ o.files.entries) :=
    SortedMap.mem_entries_insert_iff
  rw [(h.insert p text).mem_toList_iff, hentries, h.mem_toList_iff, Prod.mk.injEq]
  refine or_congr_left (and_iff_right_of_imp ?_)
  rintro rfl
  exact h.same_spelling p

theorem Keyed.mem_paths_insert_iff_spelling {o : Output} (h : o.Keyed) {p q : Path}
    {text : String} :
    q ∈ (o.insert p text).paths ↔ q = o.spelling p ∨ (¬ q.Same p ∧ q ∈ o.paths) := by
  constructor
  · intro hq
    obtain ⟨f, hf, rfl⟩ := List.mem_map.1 hq
    rcases h.mem_toList_insert_iff.1 hf with rfl | ⟨hother, hf⟩
    · exact .inl rfl
    · exact .inr ⟨hother, List.mem_map_of_mem hf⟩
  · rintro (rfl | ⟨hother, hq⟩)
    · exact List.mem_map_of_mem (h.mem_toList_insert_iff.2 (.inl rfl))
    · obtain ⟨f, hf, rfl⟩ := List.mem_map.1 hq
      exact List.mem_map_of_mem (h.mem_toList_insert_iff.2 (.inr ⟨hother, hf⟩))

/-- An insertion leaves all paths and adds its own if that is new. -/
theorem Keyed.mem_paths_insert_iff {o : Output} (h : o.Keyed) {p q : Path} {text : String} :
    q ∈ (o.insert p text).paths ↔ q ∈ o.paths ∨ (p = q ∧ ∀ r ∈ o.paths, ¬ r.Same q) := by
  rw [h.mem_paths_insert_iff_spelling]
  by_cases hp : ∃ r ∈ o.paths, r.Same p
  · obtain ⟨r, hr, hsame⟩ := hp
    rw [h.spelling_of_mem hr hsame]
    constructor
    · rintro (rfl | ⟨-, hq⟩)
      · exact .inl hr
      · exact .inl hq
    · rintro (hq | ⟨rfl, hnew⟩)
      · by_cases hqp : q.Same p
        · exact .inl ((h.spelling_of_mem hq hqp).symm.trans (h.spelling_of_mem hr hsame))
        · exact .inr ⟨hqp, hq⟩
      · exact absurd hsame (hnew r hr)
  · have hnew : ∀ r ∈ o.paths, ¬ r.Same p := fun r hr hsame => hp ⟨r, hr, hsame⟩
    rw [h.spelling_of_new hnew]
    constructor
    · rintro (rfl | ⟨-, hq⟩)
      · exact .inr ⟨rfl, hnew⟩
      · exact .inl hq
    · rintro (hq | ⟨rfl, -⟩)
      · exact .inr ⟨hnew q hq, hq⟩
      · exact .inl rfl

/-! ## Histories of insertions -/

/-- The paths are those of the first insertions. -/
theorem mem_paths_insertAll_iff {files : List (Path × String)} {p : Path} :
    p ∈ (({} : Output).insertAll files).paths ↔ FirstSpelling files p := by
  -- What is new to an output is new to its history.
  have hnew : ∀ files : List (Path × String),
      (∀ q ∈ (({} : Output).insertAll files).paths, ¬ q.Same p) ↔ ∀ f ∈ files, ¬ f.1.Same p :=
    forall_mem_paths_insertAll_iff fun q r hqr hq hr => hq (hqr.trans hr)
  induction files using List.reverseRecOn with
  | nil => exact iff_of_false List.not_mem_nil (not_firstSpelling_nil p)
  | append_singleton files f ih =>
    have hfirst : p ∈ (({} : Output).insertAll files).paths ↔ FirstSpelling files p := ih
    rw [insertAll_append, insertAll_cons, insertAll_nil,
      (keyed_empty.insertAll files).mem_paths_insert_iff, hfirst, hnew, firstSpelling_concat_iff]

/-- A path holds what was written last under it in any spelling. -/
theorem get?_insertAll_of_isLast {files : List (Path × String)} {f : Path × String} {p : Path}
    (h : IsLast (·.1.Same p) files f) : (({} : Output).insertAll files).get? p = some f.2 := by
  obtain ⟨before, after, rfl, hsame, hafter⟩ := h
  have hsame : f.1.components = p.components := hsame
  have hlast : ∀ g ∈ after, ¬ g.1.Same f.1 := fun g hg hgf => hafter g hg (hgf.trans hsame)
  rw [get?, ← hsame]
  exact get?_insertAll_of_last hlast

theorem exists_isLast_of_get? {files : List (Path × String)} {p : Path} {text : String}
    (h : (({} : Output).insertAll files).get? p = some text) :
    ∃ f, IsLast (·.1.Same p) files f ∧ f.2 = text := by
  have hwritten : ∃ f ∈ files, f.1.Same p := by
    by_contra hnot
    rw [get?_insertAll_of_not_same fun f hf hsame => hnot ⟨f, hf, hsame⟩] at h
    cases h
  obtain ⟨f, hlast⟩ := exists_isLast_iff.2 hwritten
  rw [get?_insertAll_of_isLast hlast] at h
  exact ⟨f, hlast, Option.some.inj h⟩

/-- An output holds what a history of insertions leaves. -/
structure HoldsFiles (o : Output) (files : List (Path × String)) : Prop where
  /-- Under a path the text of the last insertion is found, in whatever spelling. -/
  found : ∀ p text, o.get? p = some text ↔ ∃ f, IsLast (·.1.Same p) files f ∧ f.2 = text
  /-- Nothing is found under other paths. -/
  absent : ∀ p, o.get? p = none ↔ ∀ f ∈ files, ¬ f.1.Same p
  /-- There are as many files as different paths. -/
  size_eq : o.size = (files.map (·.1.components)).dedup.length
  /-- The paths are spelled as in the first insertions. -/
  spelled : ∀ p, p ∈ o.paths ↔ FirstSpelling files p
  /-- The texts are the ones that are found. -/
  texts : ∀ f ∈ o.toList, o.get? f.1 = some f.2
  /-- No two files have the same path. -/
  distinct : o.toList.Pairwise fun f g => ¬ f.1.Same g.1
  /-- The files are in order, component by component. -/
  ordered : o.toList.Pairwise fun f g =>
    List.Lex Component.Before f.1.components g.1.components

/-- **An output is a map up to the spelling of paths**, after every history of insertions. -/
theorem holdsFiles_insertAll (files : List (Path × String)) :
    (({} : Output).insertAll files).HoldsFiles files := by
  have hkeyed := keyed_empty.insertAll files
  refine
    { found := fun p text => ⟨exists_isLast_of_get?, ?_⟩
      absent := fun p => ⟨fun hnone f hf hsame => ?_, get?_insertAll_of_not_same⟩
      size_eq := size_insertAll files
      spelled := fun p => mem_paths_insertAll_iff
      texts := fun f hf => ?_
      distinct := hkeyed.pairwise_toList
      ordered := hkeyed.ascending_toList.imp lex_of_compare }
  · rintro ⟨f, hlast, rfl⟩
    exact get?_insertAll_of_isLast hlast
  · obtain ⟨g, hlast⟩ : ∃ g, IsLast (·.1.Same p) files g :=
      exists_isLast_iff.2 ⟨f, hf, hsame⟩
    rw [get?_insertAll_of_isLast hlast] at hnone
    cases hnone
  · rw [get?, SortedMap.get?_eq_some_iff.2 (hkeyed.mem_toList_iff.1 hf)]
    rfl

end Output

end SwiftDecls
