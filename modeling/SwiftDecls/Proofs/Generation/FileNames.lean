import Mathlib.Data.List.Dedup
import Mathlib.Data.List.Nodup
import SwiftDecls.Proofs.Generation.Files
import SwiftDecls.Proofs.Naming
import SwiftDecls.Proofs.Path

/-!
# Where the files of types are

The file of a type whose name is a word is below its group's directory under its name in Pascal
case (`components_typeFile`). Hence two such files are the same exactly if the types are of one
group and their names have one Pascal form, and none is the core file, whose name has a hyphen
(`components_typeFile_ne_coreFile`). All files of a run are different exactly if within each
group no two names have the same Pascal form (`nodup_components_iff`).
-/

set_option autoImplicit false

namespace SwiftDecls

open Text Naming

/-- The extension of all generated files. -/
def fileExtension : String := ".swift"

theorem isFileName_directory (g : Group) : IsFileName g.directory.text := by
  cases g <;> constructor <;> decide

/-- A text without a slash names a file with the extension. -/
theorem isFileName_append_extension {text : String} (h : '/' ∉ text.toList) :
    IsFileName (text ++ fileExtension) := by
  have hlong : ∀ short : String, short.length < 6 → text ++ fileExtension ≠ short := by
    intro short hshort he
    have hlen : 6 ≤ (text ++ fileExtension).length := by
      rw [String.length_append]
      exact Nat.le_add_left 6 _
    rw [he] at hlen
    omega
  refine ⟨fun hmem => ?_, hlong _ (by decide), hlong _ (by decide), hlong _ (by decide)⟩
  rw [String.toList_append] at hmem
  rcases List.mem_append.1 hmem with hmem | hmem
  · exact h hmem
  · revert hmem
    decide

/-- The Pascal form of a word has no slash. -/
theorem slash_not_mem_pascal {name : String} (h : IsWord name) : '/' ∉ (pascal name).toList := by
  intro hmem
  exact absurd (isAlphanum_of_mem_pascal h hmem) (by decide)

/-- The Pascal form of a word names a file. -/
theorem isFileName_pascal {name : String} (h : IsWord name) :
    IsFileName (pascal name ++ fileExtension) :=
  isFileName_append_extension (slash_not_mem_pascal h)

/-- The place of a group's type with a given Pascal form. -/
def typePlace (g : Group) (form : String) : List Component :=
  [.name g.directory.text, .name (form ++ fileExtension)]

theorem typePlace_injective (g : Group) : Function.Injective (typePlace g) := by
  intro p q hpq
  simp only [typePlace, List.cons.injEq, Component.name.injEq, true_and, and_true] at hpq
  have hchars := congrArg String.toList hpq
  rw [String.toList_append, String.toList_append] at hchars
  exact String.toList_inj.1 (List.append_cancel_right hchars)

theorem components_typeFile (g : Group) {name : String} (h : IsWord name) :
    (g.typeFile name).components = typePlace g (pascal name) :=
  Path.components_join (isFileName_directory g) (isFileName_pascal h)

theorem isFileName_core : IsFileName "core-defs.swift" := by
  constructor <;> decide

/-- The name of a group's single file. -/
theorem isFileName_single (g : Group) : IsFileName (match g with
    | .builtins => "builtins.swift"
    | .classes => "classes.swift") := by
  cases g <;> constructor <;> decide

theorem components_coreFile :
    coreFile.components = [.name Group.builtins.directory.text, .name "core-defs.swift"] :=
  Path.components_join (isFileName_directory .builtins) isFileName_core

theorem components_file (g : Group) :
    g.file.components = [.name g.directory.text, .name (match g with
      | .builtins => "builtins.swift"
      | .classes => "classes.swift")] := by
  cases g with
  | builtins =>
    exact Path.components_join (isFileName_directory .builtins) (isFileName_single .builtins)
  | classes =>
    exact Path.components_join (isFileName_directory .classes) (isFileName_single .classes)

/-- A hyphen keeps the core file apart from the files of types. -/
theorem components_typeFile_ne_coreFile (g : Group) {name : String} (h : IsWord name) :
    (g.typeFile name).components ≠ coreFile.components := by
  intro he
  rw [components_typeFile g h, typePlace, components_coreFile] at he
  simp only [List.cons.injEq, Component.name.injEq, and_true] at he
  have hchars : (pascal name).toList ++ fileExtension.toList =
      "core-defs".toList ++ fileExtension.toList := by
    rw [← String.toList_append, he.2]
    decide
  have hpascal := List.append_cancel_right hchars
  have hhyphen : '-' ∈ (pascal name).toList := by
    rw [hpascal]
    decide
  exact absurd (isAlphanum_of_mem_pascal h hhyphen) (by decide)

/-- The files of two types are the same exactly if the types are of one group and their names
have one Pascal form. -/
theorem same_typeFile_iff {g g' : Group} {name name' : String} (h : IsWord name)
    (h' : IsWord name') :
    (g.typeFile name).Same (g'.typeFile name') ↔ g = g' ∧ pascal name = pascal name' := by
  rw [Path.Same, components_typeFile g h, components_typeFile g' h']
  constructor
  · intro he
    have hg : g = g' := by
      simp only [typePlace, List.cons.injEq, Component.name.injEq] at he
      revert he
      cases g <;> cases g' <;> simp [Group.directory]
    subst hg
    exact ⟨rfl, typePlace_injective g he⟩
  · rintro ⟨rfl, he⟩
    rw [he]

/-! ## All files of a run -/

/-- Every file of a run is in the directory of a group. -/
theorem isFileInDirectory_of_mem_writtenFiles {api : Api}
    (words : ∀ g, ∀ n ∈ api.groupNames g, IsWord n) {mode : OutputMode} {docs : DocSource}
    {c : Classification} {core : String} {f : Path × String}
    (hf : f ∈ writtenFiles mode core (api.declarations docs c)) : f.1.IsFileInDirectory := by
  have hcore : coreFile.IsFileInDirectory :=
    ⟨_, _, isFileName_directory .builtins, isFileName_core, rfl⟩
  cases mode with
  | singleFile =>
    simp only [writtenFiles, List.mem_cons, List.not_mem_nil, or_false] at hf
    rcases hf with rfl | rfl | rfl
    · exact hcore
    · exact ⟨_, _, isFileName_directory .builtins, isFileName_single .builtins, rfl⟩
    · exact ⟨_, _, isFileName_directory .classes, isFileName_single .classes, rfl⟩
  | perType =>
    rw [writtenFiles_perType] at hf
    rcases List.mem_append.1 hf with hf | hf
    · obtain ⟨t, ht, rfl⟩ := List.mem_map.1 hf
      have hname := isFileName_pascal (words _ _ (Api.mem_groupNames_of_mem_typeSteps ht))
      refine ⟨t.group.directory.text, pascal t.typeName ++ fileExtension,
        isFileName_directory t.group, hname, ?_⟩
      rw [TypeSteps.path_file, Group.typeFile, fileExtension]
    · rw [List.mem_singleton.1 hf]
      exact hcore

/-- Where the files of a group's types are. -/
def groupPlaces (api : Api) (g : Group) : List (List Component) :=
  (api.groupNames g).map fun name => (g.typeFile name).components

/-- Where the files of types are is decided by their Pascal forms. -/
theorem groupPlaces_eq_map_pascal {api : Api} {g : Group} (h : ∀ n ∈ api.groupNames g, IsWord n) :
    groupPlaces api g = ((api.groupNames g).map pascal).map (typePlace g) := by
  rw [groupPlaces, List.map_map]
  exact List.map_congr_left fun n hn => components_typeFile g (h n hn)

theorem nodup_groupPlaces_iff {api : Api} {g : Group} (h : ∀ n ∈ api.groupNames g, IsWord n) :
    (groupPlaces api g).Nodup ↔ ((api.groupNames g).map pascal).Nodup := by
  rw [groupPlaces_eq_map_pascal h]
  exact List.nodup_map_iff (typePlace_injective g)

/-- Different Pascal forms are as many as different places. -/
theorem length_dedup_groupPlaces {api : Api} {g : Group}
    (h : ∀ n ∈ api.groupNames g, IsWord n) :
    (groupPlaces api g).dedup.length = ((api.groupNames g).map pascal).dedup.length := by
  rw [groupPlaces_eq_map_pascal h, List.dedup_map_of_injective (typePlace_injective g),
    List.length_map]

/-- With a file for each type the paths are those of the types in order, and the core file's. -/
theorem paths_writtenFiles_perType (api : Api) (docs : DocSource) (c : Classification)
    (core : String) :
    (writtenFiles .perType core (api.declarations docs c)).map (·.1) =
      (api.groupNames .builtins).map Group.builtins.typeFile ++
        (api.groupNames .classes).map Group.classes.typeFile ++ [coreFile] := by
  have hgroup : ∀ g : Group, ((api.groupSteps docs c g).map (·.file)).map (·.1) =
      (api.groupNames g).map g.typeFile := by
    intro g
    rw [← api.typeName_groupSteps docs c g, List.map_map, List.map_map]
    refine List.map_congr_left fun t ht => ?_
    simp only [Function.comp, TypeSteps.file, Api.group_of_mem_groupSteps ht]
  rw [writtenFiles_perType, Api.typeSteps, List.map_append, List.map_append, List.map_append,
    hgroup, hgroup]
  rfl

theorem components_writtenFiles_perType (api : Api) (docs : DocSource) (c : Classification)
    (core : String) :
    (writtenFiles .perType core (api.declarations docs c)).map (·.1.components) =
      groupPlaces api .builtins ++ groupPlaces api .classes ++ [coreFile.components] := by
  have hpaths := congrArg (List.map Path.components) (paths_writtenFiles_perType api docs c core)
  simpa only [List.map_append, List.map_map, List.map_cons, List.map_nil, Function.comp_def,
    groupPlaces] using hpaths

section Words

variable {api : Api} (words : ∀ g, ∀ n ∈ api.groupNames g, IsWord n)

include words

/-- No file of a built-in type is one of a class. -/
theorem disjoint_groupPlaces :
    (groupPlaces api .builtins).Disjoint (groupPlaces api .classes) := by
  intro place hplace hplace'
  obtain ⟨n, hn, rfl⟩ := List.mem_map.1 hplace
  obtain ⟨n', hn', he⟩ := List.mem_map.1 hplace'
  have hsame := (same_typeFile_iff (words _ n' hn') (words _ n hn)).1 he
  exact absurd hsame.1 (by decide)

/-- No file of a type is the core file. -/
theorem disjoint_groupPlaces_coreFile :
    (groupPlaces api .builtins ++ groupPlaces api .classes).Disjoint [coreFile.components] := by
  have hgroup : ∀ g, coreFile.components ∉ groupPlaces api g := by
    intro g hplace
    obtain ⟨n, hn, he⟩ := List.mem_map.1 hplace
    exact components_typeFile_ne_coreFile g (words g n hn) he
  rw [List.disjoint_singleton, List.mem_append]
  rintro (hplace | hplace)
  · exact hgroup _ hplace
  · exact hgroup _ hplace

/-- **All files of a run are different** exactly if within each group no two names have the same
Pascal form. -/
theorem nodup_components_iff (docs : DocSource) (c : Classification) (core : String) :
    ((writtenFiles .perType core (api.declarations docs c)).map (·.1.components)).Nodup ↔
      ∀ g, ((api.groupNames g).map pascal).Nodup := by
  rw [components_writtenFiles_perType, List.nodup_append', List.nodup_append',
    nodup_groupPlaces_iff (words .builtins), nodup_groupPlaces_iff (words .classes)]
  constructor
  · rintro ⟨⟨hb, hc, -⟩, -, -⟩ g
    cases g with
    | builtins => exact hb
    | classes => exact hc
  · intro h
    exact ⟨⟨h .builtins, h .classes, disjoint_groupPlaces words⟩, List.nodup_singleton _,
      disjoint_groupPlaces_coreFile words⟩

/-- The number of different files of a run. -/
theorem length_dedup_components (docs : DocSource) (c : Classification) (core : String) :
    ((writtenFiles .perType core (api.declarations docs c)).map (·.1.components)).dedup.length =
      1 + ((api.groupNames .builtins).map pascal).dedup.length +
        ((api.groupNames .classes).map pascal).dedup.length := by
  rw [components_writtenFiles_perType, (disjoint_groupPlaces_coreFile words).dedup_append,
    (disjoint_groupPlaces words).dedup_append, (List.nodup_singleton _).dedup,
    List.length_append, List.length_append, length_dedup_groupPlaces (words .builtins),
    length_dedup_groupPlaces (words .classes), List.length_singleton]
  omega

end Words

end SwiftDecls
