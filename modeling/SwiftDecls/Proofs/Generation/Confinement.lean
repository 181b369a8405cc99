import SwiftDecls.Proofs.Generation.FileNames

/-!
# Files in the directories of their groups

A file of a type is named after the type, and a type may have any name. One that starts with a
slash names a file by a path of its own, and one with segments leads through further directories
or out of the group's. The main statement of this module, `isGroupFile_typeFile_iff`, says which
names keep their file in the directory: exactly those that have nothing but void segments before
the last one (`StaysInDirectory`). All names without a slash are of this kind
(`staysInDirectory_of_slash_not_mem`). The files of a run that are not named after types are in the
directories in any case (`isGroupFile_writtenFiles_iff`).
-/

set_option autoImplicit false

namespace SwiftDecls

open Text Naming

/-- The path of a file in the directory of a group: the directory and one name. A name among
components is not empty, `.` or `..`, and there is no root before it. -/
def Path.IsGroupFile (p : Path) : Prop :=
  ∃ (g : Group) (file : String), p.components = [.name g.directory.text, .name file]

theorem Path.IsGroupFile.of_same (p q : Path) (h : p.Same q) (hp : p.IsGroupFile) :
    q.IsGroupFile := by
  obtain ⟨g, file, hcomponents⟩ := hp
  refine ⟨g, file, ?_⟩
  rw [← hcomponents, h]

theorem Path.not_isGroupFile_of_isAbsolute {p : Path} (h : p.isAbsolute = true) :
    ¬ p.IsGroupFile := by
  rintro ⟨g, file, hcomponents⟩
  obtain ⟨rest, hsegments⟩ := Path.exists_segments_of_isAbsolute h
  rw [Path.components, hsegments] at hcomponents
  simp [h] at hcomponents

/-- The Pascal form of a name leads to no other directory. -/
structure StaysInDirectory (form : String) : Prop where
  relative : (⟨form⟩ : Path).isAbsolute = false
  void : ∀ s ∈ (segments '/' form).dropLast, IsVoid s

instance (form : String) : Decidable (StaysInDirectory form) :=
  decidable_of_iff ((⟨form⟩ : Path).isAbsolute = false ∧
      ∀ s ∈ (segments '/' form).dropLast, IsVoid s)
    ⟨fun h => ⟨h.1, h.2⟩, fun h => ⟨h.relative, h.void⟩⟩

/-- A name without a slash leads nowhere else. -/
theorem staysInDirectory_of_slash_not_mem {form : String} (h : '/' ∉ form.toList) :
    StaysInDirectory form := by
  constructor
  · exact Path.isAbsolute_eq_false_of_slash_not_mem h
  · intro s hs
    rw [segments, List.splitOn_eq_singleton h] at hs
    cases hs

/-- The segments before the last one are no components. -/
theorem staysInDirectory_iff {form last : String} {leading : List String}
    (habsolute : (⟨form⟩ : Path).isAbsolute = false) (h : segments '/' form = leading ++ [last]) :
    StaysInDirectory form ↔ Path.innerComponents leading = [] := by
  rw [Path.innerComponents_eq_nil_iff]
  constructor
  · intro hstays
    have hvoid := hstays.void
    rwa [h, List.dropLast_concat] at hvoid
  · intro hvoid
    refine ⟨habsolute, ?_⟩
    rwa [h, List.dropLast_concat]

/-! ## Files of types -/

theorem isAbsolute_append_extension (form : String) :
    (⟨form ++ fileExtension⟩ : Path).isAbsolute = (⟨form⟩ : Path).isAbsolute := by
  rw [Path.isAbsolute, Path.isAbsolute, String.toList_append]
  cases form.toList with
  | nil => decide
  | cons c cs => rfl

/-- The components of a file whose name is a relative path: those of the name come after the
directory. -/
theorem components_typeFile_of_relative (g : Group) {name last : String} {leading : List String}
    (habsolute : (⟨pascal name⟩ : Path).isAbsolute = false) (hlast : '/' ∉ last.toList)
    (h : segments '/' (pascal name ++ fileExtension) = leading ++ [last ++ fileExtension]) :
    (g.typeFile name).components = .name g.directory.text ::
      (Path.innerComponents leading ++ [.name (last ++ fileExtension)]) := by
  have hrelative : (⟨pascal name ++ fileExtension⟩ : Path).isAbsolute = false := by
    rw [isAbsolute_append_extension, habsolute]
  have hname := isFileName_append_extension hlast
  rw [Group.typeFile, ← fileExtension,
    Path.components_join_of_relative (isFileName_directory g) hrelative, Path.segments, h,
    Path.innerComponents, List.filterMap_append, List.filterMap_cons_some hname.ofSegment?_eq]
  rfl

/-- **The file of a type is in the directory of its group exactly if its name leads to no other
directory.** -/
theorem isGroupFile_typeFile_iff (g : Group) (name : String) :
    (g.typeFile name).IsGroupFile ↔ StaysInDirectory (pascal name) := by
  have hext : '/' ∉ fileExtension.toList := by decide
  obtain ⟨leading, last, hform, hlast, hfile⟩ := exists_segments_append '/' (pascal name) hext
  cases habsolute : (⟨pascal name⟩ : Path).isAbsolute with
  | true =>
    have hjoined : (⟨pascal name ++ fileExtension⟩ : Path).isAbsolute = true := by
      rw [isAbsolute_append_extension, habsolute]
    rw [Group.typeFile, ← fileExtension, Path.join_of_isAbsolute _ hjoined]
    refine iff_of_false (Path.not_isGroupFile_of_isAbsolute hjoined) fun h => ?_
    rw [h.relative] at habsolute
    cases habsolute
  | false =>
    have hcomponents := components_typeFile_of_relative g habsolute hlast hfile
    rw [staysInDirectory_iff habsolute hform]
    constructor
    · rintro ⟨g', file, hfound⟩
      rw [hcomponents] at hfound
      obtain ⟨-, hrest⟩ := List.cons.inj hfound
      have hlen := congrArg List.length hrest
      rw [List.length_append, List.length_singleton, List.length_singleton] at hlen
      apply List.eq_nil_of_length_eq_zero
      omega
    · intro hnone
      refine ⟨g, last ++ fileExtension, ?_⟩
      rw [hcomponents, hnone]
      rfl

/-- Segments that stay are no harm, the directory above and a path from the root are. -/
example : StaysInDirectory (pascal ".//node") ∧ ¬ StaysInDirectory (pascal "../node") ∧
    ¬ StaysInDirectory (pascal "_/node") := by decide

/-! ## All files of a run -/

theorem isGroupFile_coreFile : coreFile.IsGroupFile := ⟨.builtins, _, components_coreFile⟩

theorem isGroupFile_file (g : Group) : g.file.IsGroupFile := ⟨g, _, components_file g⟩

/-- **The files of a run are in the directories of their groups** exactly if there is one for each
group or no name leads to another directory. -/
theorem isGroupFile_writtenFiles_iff (mode : OutputMode) (api : Api) (docs : DocSource)
    (c : Classification) (core : String) :
    (∀ f ∈ writtenFiles mode core (api.declarations docs c), f.1.IsGroupFile) ↔
      mode = .singleFile ∨ ∀ g, ∀ n ∈ api.groupNames g, StaysInDirectory (pascal n) := by
  cases mode with
  | singleFile =>
    refine iff_of_true (fun f hf => ?_) (.inl rfl)
    simp only [writtenFiles, List.mem_cons, List.not_mem_nil, or_false] at hf
    rcases hf with rfl | rfl | rfl
    · exact isGroupFile_coreFile
    · exact isGroupFile_file .builtins
    · exact isGroupFile_file .classes
  | perType =>
    have hpaths : (∀ f ∈ writtenFiles .perType core (api.declarations docs c),
        f.1.IsGroupFile) ↔ ∀ p ∈ (writtenFiles .perType core (api.declarations docs c)).map (·.1),
          p.IsGroupFile := List.forall_mem_map.symm
    rw [hpaths, paths_writtenFiles_perType]
    simp only [List.mem_append, List.mem_singleton, or_imp, forall_and, List.forall_mem_map,
      forall_eq, isGroupFile_typeFile_iff, isGroupFile_coreFile, and_true, reduceCtorEq, false_or]
    constructor
    · rintro ⟨hbuiltins, hclasses⟩ g
      cases g with
      | builtins => exact hbuiltins
      | classes => exact hclasses
    · intro h
      exact ⟨h .builtins, h .classes⟩

end SwiftDecls
