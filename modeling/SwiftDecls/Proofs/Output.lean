import SwiftDecls.Output
import SwiftDecls.Proofs.SortedMap
import SwiftDecls.Proofs.Text.Lines

/-!
# Outputs as files written in order

An output is what remains of files that were written one after the other (`insertAll`), and so
is the result of spreading declarations over files (`partition_eq_insertAll`). Two files are in
each other's way exactly if their paths have the same components, which gives three facts on
which everything about generated files rests:

* no file is lost exactly if all paths have different components
  (`size_insertAll_eq_length_iff`);
* then the files are the written ones, up to order (`toList_insertAll_perm`);
* a path holds what was written last under it (`get?_insertAll_of_last`).

If all paths have different components, then the order of writing does not show
(`insertAll_perm`).
-/

set_option autoImplicit false

namespace SwiftDecls

namespace Output

/-- The component lists under which there are files. -/
def places (o : Output) : List (List Component) := o.files.keys

/-- The paths of the files as they are spelled. -/
def paths (o : Output) : List Path := o.toList.map (·.1)

/-- Writes files one after the other. -/
def insertAll (o : Output) (files : List (Path × String)) : Output :=
  files.foldl (fun o f => o.insert f.1 f.2) o

/-- The output with changed texts. -/
def mapTexts (f : String → String) (o : Output) : Output :=
  ⟨o.files.mapValues fun e => (e.1, f e.2)⟩

@[simp] theorem insertAll_nil (o : Output) : o.insertAll [] = o := rfl

@[simp] theorem insertAll_cons (o : Output) (f : Path × String) (files : List (Path × String)) :
    o.insertAll (f :: files) = (o.insert f.1 f.2).insertAll files := rfl

theorem insertAll_append (o : Output) (as bs : List (Path × String)) :
    o.insertAll (as ++ bs) = (o.insertAll as).insertAll bs := by
  simp [insertAll, List.foldl_append]

/-! ## Changed texts -/

theorem paths_mapTexts (f : String → String) (o : Output) : (o.mapTexts f).paths = o.paths := by
  simp [paths, toList, mapTexts, SortedMap.values, SortedMap.mapValues]

theorem get?_mapTexts (f : String → String) (o : Output) (p : Path) :
    (o.mapTexts f).get? p = (o.get? p).map f := by
  simp only [get?, mapTexts, SortedMap.get?_mapValues, Option.map_map]
  rfl

theorem mapTexts_insert (f : String → String) (o : Output) (p : Path) (text : String) :
    (o.insert p text).mapTexts f = (o.mapTexts f).insert p (f text) := by
  simp only [insert, mapTexts, SortedMap.mapValues_insert, SortedMap.get?_mapValues,
    Option.map_map]
  rfl

theorem mapTexts_insertAll (f : String → String) (o : Output) (files : List (Path × String)) :
    (o.insertAll files).mapTexts f =
      (o.mapTexts f).insertAll (files.map fun e => (e.1, f e.2)) := by
  induction files generalizing o with
  | nil => rfl
  | cons e rest ih => rw [insertAll_cons, ih, mapTexts_insert, List.map_cons, insertAll_cons]

/-- The paths of an output do not depend on texts. -/
theorem paths_insertAll_congr (o : Output) {files files' : List (Path × String)}
    (h : files.map (·.1) = files'.map (·.1)) :
    (o.insertAll files).paths = (o.insertAll files').paths := by
  have hblank : files.map (fun e => (e.1, "")) = files'.map fun e => (e.1, "") := by
    simpa only [List.map_map, Function.comp_def] using congrArg (List.map fun p => (p, "")) h
  have hmap := congrArg (o.mapTexts fun _ => "").insertAll hblank
  rw [← mapTexts_insertAll (fun _ => ""), ← mapTexts_insertAll (fun _ => "")] at hmap
  rw [← paths_mapTexts (fun _ => ""), hmap, paths_mapTexts]

/-! ## What is found -/

theorem get?_insert_same {o : Output} {p q : Path} (text : String) (h : p.Same q) :
    (o.insert p text).get? q = some text := by
  have h : p.components = q.components := h
  simp [get?, insert, h]

theorem get?_insert_of_not_same {o : Output} {p q : Path} (text : String) (h : ¬ p.Same q) :
    (o.insert p text).get? q = o.get? q := by
  have hne : q.components ≠ p.components := fun e => h e.symm
  simp only [get?, insert, SortedMap.get?_insert_of_ne _ _ hne]

/-- Writing under other paths does not show. -/
theorem get?_insertAll_of_not_same {o : Output} {q : Path} {files : List (Path × String)}
    (h : ∀ f ∈ files, ¬ f.1.Same q) : (o.insertAll files).get? q = o.get? q := by
  induction files generalizing o with
  | nil => rfl
  | cons f rest ih =>
    have hf : ¬ f.1.Same q := h f List.mem_cons_self
    rw [insertAll_cons, ih fun g hg => h g (List.mem_cons_of_mem _ hg),
      get?_insert_of_not_same f.2 hf]

/-- A path holds what was written last under it. -/
theorem get?_insertAll_of_last {o : Output} {p : Path} {text : String}
    {before after : List (Path × String)} (h : ∀ f ∈ after, ¬ f.1.Same p) :
    (o.insertAll (before ++ (p, text) :: after)).get? p = some text := by
  rw [insertAll_append, insertAll_cons, get?_insertAll_of_not_same h]
  exact get?_insert_same text rfl

/-- Where no two paths are the same, each file holds its text. -/
theorem get?_insertAll_of_mem {o : Output} {files : List (Path × String)}
    (hn : (files.map (·.1.components)).Nodup) {p : Path} {text : String}
    (hp : (p, text) ∈ files) : (o.insertAll files).get? p = some text := by
  obtain ⟨before, after, rfl⟩ := List.append_of_mem hp
  refine get?_insertAll_of_last fun f hf hsame => ?_
  rw [List.map_append, List.map_cons] at hn
  have hnot := (List.nodup_cons.1 (List.nodup_append.1 hn).2.1).1
  exact hnot (List.mem_map.2 ⟨f, hf, hsame⟩)

/-- What a path holds does not depend on what was written under other paths. -/
theorem get?_insertAll_congr {o o' : Output} {q : Path} {files files' : List (Path × String)}
    (h : List.Forall₂ (fun f f' => f.1 = f'.1 ∧ (f.1.Same q → f.2 = f'.2)) files files')
    (ho : o.get? q = o'.get? q) : (o.insertAll files).get? q = (o'.insertAll files').get? q := by
  induction h generalizing o o' with
  | nil => exact ho
  | @cons f f' _ _ hff' _ ih =>
    obtain ⟨hpath, htext⟩ := hff'
    rw [insertAll_cons, insertAll_cons, ← hpath]
    refine ih ?_
    by_cases hq : f.1.Same q
    · rw [get?_insert_same _ hq, get?_insert_same _ hq, htext hq]
    · rw [get?_insert_of_not_same _ hq, get?_insert_of_not_same _ hq, ho]

/-! ## The order of writing -/

theorem insert_comm (o : Output) {p q : Path} (t u : String) (h : ¬ p.Same q) :
    (o.insert p t).insert q u = (o.insert q u).insert p t := by
  have hpq : p.components ≠ q.components := h
  simp only [insert, SortedMap.get?_insert_of_ne _ _ hpq, SortedMap.get?_insert_of_ne _ _ hpq.symm,
    SortedMap.insert_comm o.files _ _ hpq]

/-- **Files with different paths may be written in any order.** -/
theorem insertAll_perm (o : Output) {files files' : List (Path × String)}
    (h : files.Perm files') (hn : (files.map (·.1.components)).Nodup) :
    o.insertAll files = o.insertAll files' := by
  refine h.foldl_eq' (fun f hf g hg o => ?_) o
  by_cases hfg : f = g
  · rw [hfg]
  · exact insert_comm o f.2 g.2 fun hsame => hfg (List.inj_on_of_nodup_map hn hf hg hsame)

/-! ## Which files there are -/

theorem mem_places_insert {o : Output} {p : Path} {text : String} {place : List Component} :
    place ∈ (o.insert p text).places ↔ place = p.components ∨ place ∈ o.places :=
  SortedMap.mem_keys_insert

theorem mem_places_insertAll {o : Output} {files : List (Path × String)}
    {place : List Component} :
    place ∈ (o.insertAll files).places ↔
      place ∈ files.map (·.1.components) ∨ place ∈ o.places := by
  induction files generalizing o with
  | nil => simp
  | cons f rest ih =>
    rw [insertAll_cons, ih, mem_places_insert, List.map_cons, List.mem_cons]
    exact or_left_comm.trans or_assoc.symm

/-- An insertion adds a file with its text, and the file has a path that was there or is new. -/
theorem mem_toList_insert {o : Output} {p : Path} {text : String} {f : Path × String}
    (h : f ∈ (o.insert p text).toList) :
    f.2 = text ∧ (f.1 = p ∨ f.1 ∈ o.paths) ∨ f ∈ o.toList := by
  obtain ⟨e, he, rfl⟩ := List.mem_map.1 h
  rcases mem_of_mem_insertEntry he with rfl | he
  · refine .inl ⟨rfl, ?_⟩
    cases hget : o.files.get? p.components with
    | none => exact .inl (by simp)
    | some found =>
      have hentry := SortedMap.get?_eq_some_iff.1 hget
      refine .inr (List.mem_map.2 ⟨found, List.mem_map.2 ⟨_, hentry, rfl⟩, ?_⟩)
      simp
  · exact .inr (List.mem_map_of_mem he)

theorem mem_paths_insertAll {o : Output} {files : List (Path × String)} {p : Path}
    (h : p ∈ (o.insertAll files).paths) : p ∈ files.map (·.1) ∨ p ∈ o.paths := by
  induction files generalizing o with
  | nil => exact .inr h
  | cons f rest ih =>
    rcases ih h with hrest | hfirst
    · exact .inl (List.mem_cons_of_mem _ hrest)
    · obtain ⟨g, hg, rfl⟩ := List.mem_map.1 hfirst
      rcases mem_toList_insert hg with ⟨-, hpath | hpath⟩ | hg
      · rw [hpath]
        exact .inl List.mem_cons_self
      · exact .inr hpath
      · exact .inr (List.mem_map_of_mem hg)

/-- Every file is kept under the components of its path. -/
def Keyed (o : Output) : Prop := ∀ e ∈ o.files.entries, e.2.1.components = e.1

theorem Keyed.insert {o : Output} (h : o.Keyed) (p : Path) (text : String) :
    (o.insert p text).Keyed := by
  intro e he
  rcases mem_of_mem_insertEntry he with rfl | he
  · cases hget : o.files.get? p.components with
    | none => rfl
    | some found =>
      have hentry : (p.components, found) ∈ o.files.entries := SortedMap.get?_eq_some_iff.1 hget
      exact h (p.components, found) hentry
  · exact h e he

theorem Keyed.insertAll {o : Output} (h : o.Keyed) (files : List (Path × String)) :
    (o.insertAll files).Keyed := by
  induction files generalizing o with
  | nil => exact h
  | cons f rest ih => exact ih (h.insert f.1 f.2)

theorem keyed_empty : ({} : Output).Keyed := fun _ he => absurd he List.not_mem_nil

/-- The files of an output are in the order of the components of their paths. -/
theorem Keyed.ascending_toList {o : Output} (h : o.Keyed) :
    o.toList.Pairwise fun f g => compare f.1.components g.1.components = .lt := by
  refine List.pairwise_map.2 (o.files.ascending.imp_of_mem fun he he' hlt => ?_)
  rwa [h _ he, h _ he']

/-- No two files of an output are the same. -/
theorem Keyed.pairwise_toList {o : Output} (h : o.Keyed) :
    o.toList.Pairwise fun f g => ¬ f.1.Same g.1 := by
  refine h.ascending_toList.imp fun hlt hsame => ?_
  rw [show _ = _ from hsame] at hlt
  exact Std.OrientedCmp.not_lt_of_lt hlt hlt

/-- Every place has a file. -/
theorem Keyed.exists_mem_paths {o : Output} (h : o.Keyed) {p : Path}
    (hp : p.components ∈ o.places) : ∃ q ∈ o.paths, q.Same p := by
  obtain ⟨e, he, hkey⟩ := List.mem_map.1 hp
  refine ⟨e.2.1, List.mem_map_of_mem (List.mem_map_of_mem he), ?_⟩
  rw [Path.Same, h e he, hkey]

/-- What all files have in common is what all written ones have, if the spelling of paths does
not count. -/
theorem forall_mem_paths_insertAll_iff {property : Path → Prop}
    (hsame : ∀ p q : Path, p.Same q → property p → property q) (files : List (Path × String)) :
    (∀ p ∈ (({} : Output).insertAll files).paths, property p) ↔ ∀ f ∈ files, property f.1 := by
  constructor
  · intro h f hf
    have hplace : f.1.components ∈ (({} : Output).insertAll files).places :=
      mem_places_insertAll.2 (.inl (List.mem_map_of_mem hf))
    obtain ⟨q, hq, hfile⟩ := (keyed_empty.insertAll files).exists_mem_paths hplace
    exact hsame q f.1 hfile (h q hq)
  · intro h p hp
    rcases mem_paths_insertAll hp with hwritten | hnone
    · obtain ⟨f, hf, rfl⟩ := List.mem_map.1 hwritten
      exact h f hf
    · exact absurd hnone List.not_mem_nil

/-- A file has a text that was written. -/
theorem text_of_mem_insertAll {o : Output} {files : List (Path × String)} {f : Path × String}
    (h : f ∈ (o.insertAll files).toList) : f.2 ∈ files.map (·.2) ∨ f ∈ o.toList := by
  induction files generalizing o with
  | nil => exact .inr h
  | cons g rest ih =>
    rcases ih h with hrest | hfirst
    · exact .inl (List.mem_cons_of_mem _ hrest)
    · rcases mem_toList_insert hfirst with ⟨htext, -⟩ | hfirst
      · rw [htext]
        exact .inl List.mem_cons_self
      · exact .inr hfirst

/-- The number of files is the number of different paths. -/
theorem size_insertAll (files : List (Path × String)) :
    (({} : Output).insertAll files).size = (files.map (·.1.components)).dedup.length := by
  refine SortedMap.size_eq_length_dedup fun place => ?_
  exact mem_places_insertAll.trans (or_iff_left List.not_mem_nil)

/-- **No file is lost** exactly if all paths have different components. -/
theorem size_insertAll_eq_length_iff (files : List (Path × String)) :
    (({} : Output).insertAll files).size = files.length ↔
      (files.map (·.1.components)).Nodup := by
  have hlen : (files.map (·.1.components)).length = files.length := List.length_map _
  rw [size_insertAll, ← hlen, ← List.dedup_eq_self]
  constructor
  · intro h
    exact (List.dedup_sublist _).eq_of_length h
  · intro h
    rw [h]

theorem toList_insert_perm {o : Output} {p : Path} (text : String) (h : p.components ∉ o.places) :
    (o.insert p text).toList.Perm ((p, text) :: o.toList) := by
  have hnone : o.files.get? p.components = none := SortedMap.get?_eq_none_iff.2 h
  have hperm := (SortedMap.entries_insert_perm (p, text) h).map (·.2)
  simpa [toList, SortedMap.values, insert, hnone] using hperm

/-- Where no two paths are the same, the files are the written ones. -/
theorem toList_insertAll_perm {o : Output} {files : List (Path × String)}
    (hn : (files.map (·.1.components)).Nodup)
    (ho : ∀ f ∈ files, f.1.components ∉ o.places) :
    (o.insertAll files).toList.Perm (files ++ o.toList) := by
  induction files generalizing o with
  | nil => exact .refl _
  | cons f rest ih =>
    obtain ⟨hf, hrest⟩ := List.nodup_cons.1 hn
    have hnew : f.1.components ∉ o.places := ho f List.mem_cons_self
    have hplaces : ∀ g ∈ rest, g.1.components ∉ (o.insert f.1 f.2).places := by
      intro g hg hmem
      rcases mem_places_insert.1 hmem with he | hmem
      · exact hf (List.mem_map.2 ⟨g, hg, he⟩)
      · exact ho g (List.mem_cons_of_mem _ hg) hmem
    rw [insertAll_cons]
    refine (ih hrest hplaces).trans ?_
    exact ((toList_insert_perm f.2 hnew).append_left rest).trans List.perm_middle

/-- An output of files of which no two are the same consists of these files. -/
theorem toList_perm_of_nodup {files : List (Path × String)}
    (hn : (files.map (·.1.components)).Nodup) :
    (({} : Output).insertAll files).toList.Perm files := by
  have hperm := toList_insertAll_perm (o := {}) hn fun _ _ => List.not_mem_nil
  rwa [show ({} : Output).toList = [] from rfl, List.append_nil] at hperm

end Output

/-! ## Spreading declarations over files -/

/-- The files that declarations are written to, in order. -/
def writtenFiles (mode : OutputMode) (core : String) (declarations : List Declaration) :
    List (Path × String) :=
  match mode with
  | .singleFile => [
      (coreFile, core), (Group.builtins.file, groupText .builtins declarations),
      (Group.classes.file, groupText .classes declarations)]
  | .perType =>
    (declarations.map fun d => (d.group.typeFile d.typeName, fileHeader ++ d.text)) ++
      [(coreFile, core)]

theorem core_mem_writtenFiles (mode : OutputMode) (core : String)
    (declarations : List Declaration) : (coreFile, core) ∈ writtenFiles mode core declarations := by
  cases mode <;> simp [writtenFiles]

theorem group_mem_writtenFiles (g : Group) (core : String) (declarations : List Declaration) :
    (g.file, groupText g declarations) ∈ writtenFiles .singleFile core declarations := by
  cases g <;> simp [writtenFiles]

theorem partition_eq_insertAll (mode : OutputMode) (core : String)
    (declarations : List Declaration) :
    partition mode core declarations =
      ({} : Output).insertAll (writtenFiles mode core declarations) := by
  cases mode with
  | singleFile => rfl
  | perType =>
    rw [writtenFiles, Output.insertAll_append]
    simp only [Output.insertAll, List.foldl_map]
    rfl

/-- A text of whole lines is left as it is, unless it is a single line feed. -/
theorem wholeLines_unlines {ls : List (List Char)} (h : ls ≠ [[]]) :
    wholeLines (Text.unlines ls) = Text.unlines ls := by
  rcases List.eq_nil_or_concat ls with rfl | ⟨init, last, rfl⟩
  · rfl
  · rw [List.concat_eq_append] at h ⊢
    -- The text ends with the line feed of the last line, which is taken off and put back.
    have hcs : (Text.unlines (init ++ [last])).toList =
        (Text.unlines init).toList ++ last ++ ['\n'] := by
      simp [Text.unlines]
    have hbody : (Text.unlines init).toList ++ last ≠ [] := by
      intro he
      obtain ⟨hi, hl⟩ := List.append_eq_nil_iff.1 he
      apply h
      rw [hl]
      cases init with
      | nil => rfl
      | cons l rest => simp [Text.unlines] at hi
    rw [wholeLines, hcs]
    simp only [List.getLast?_concat, List.dropLast_concat, if_true, List.isEmpty_iff, hbody,
      if_false]
    rw [← hcs, String.ofList_toList]

end SwiftDecls
