import SwiftDecls.Proofs.Generation.Placement

/-!
# The two output modes

With a single file for each group, and with a file for each type, a run writes the same
declarations. What "the same" means is `SameDeclarations`: the core files are equal, the files
are exactly the expected ones and start with the header, and the files of a group's types, put
together in the order of the description without their headers, are the group's single file
without its header.

The main statement, `modes_same_declarations`, needs that no two types of a group share a file.
-/

set_option autoImplicit false

namespace SwiftDecls

open Text Naming

/-- The outputs of the two modes hold the same declarations. -/
structure SameDeclarations (api : Api) (single perType : Output) : Prop where
  core : ∃ text, single.get? coreFile = some text ∧ perType.get? coreFile = some text
  singlePaths : single.paths.Perm [coreFile, Group.builtins.file, Group.classes.file]
  perTypePaths : perType.paths.Perm
    ((api.groupNames .builtins).map Group.builtins.typeFile ++
      (api.groupNames .classes).map Group.classes.typeFile ++ [coreFile])
  singleHeaders : ∀ f ∈ single.toList, fileHeader.toList <+: f.2.toList
  perTypeHeaders : ∀ f ∈ perType.toList, fileHeader.toList <+: f.2.toList
  /-- The files of a group's types are the parts of the group's single file. -/
  parts : ∀ g : Group, ∃ bodies : List String,
    (api.groupNames g).map (fun name => perType.get? (g.typeFile name)) =
      bodies.map (fun body => some (fileHeader ++ body)) ∧
    single.get? g.file = some (fileHeader ++ String.join bodies)

section Written

variable (api : Api) (docs : DocSource) (c : Classification)

/-- Every file that is written starts with the header. -/
theorem header_prefix_of_mem_writtenFiles {mode : OutputMode} {f : Path × String}
    (hf : f ∈ writtenFiles mode (api.coreText docs) (api.declarations docs c)) :
    fileHeader.toList <+: f.2.toList := by
  have happend : ∀ body : String, fileHeader.toList <+: (fileHeader ++ body).toList := by
    intro body
    rw [String.toList_append]
    exact List.prefix_append _ _
  have hcore : fileHeader.toList <+: (api.coreText docs).toList := by
    rw [coreText_eq]
    exact happend _
  have hgroup : ∀ g ds, fileHeader.toList <+: (groupText g ds).toList := by
    intro g ds
    rw [groupText]
    exact happend _
  cases mode with
  | singleFile =>
    simp only [writtenFiles, List.mem_cons, List.not_mem_nil, or_false] at hf
    rcases hf with rfl | rfl | rfl
    · exact hcore
    · exact hgroup _ _
    · exact hgroup _ _
  | perType =>
    rw [writtenFiles_perType] at hf
    rcases List.mem_append.1 hf with hf | hf
    · obtain ⟨t, -, rfl⟩ := List.mem_map.1 hf
      exact happend _
    · rw [List.mem_singleton.1 hf]
      exact hcore

/-- With a file for each type, a type's file holds the header and its declaration. -/
theorem get?_typeFile {g : Group} {t : TypeSteps} (ht : t ∈ api.groupSteps docs c g)
    {core : String}
    (hn : ((writtenFiles .perType core (api.declarations docs c)).map (·.1.components)).Nodup) :
    (({} : Output).insertAll (writtenFiles .perType core (api.declarations docs c))).get?
      (g.typeFile t.typeName) = some (fileHeader ++ t.declaration.text) := by
  have hmem : t.file ∈ writtenFiles .perType core (api.declarations docs c) := by
    rw [writtenFiles_perType, Api.typeSteps]
    refine List.mem_append_left _ (List.mem_map_of_mem ?_)
    cases g with
    | builtins => exact List.mem_append_left _ ht
    | classes => exact List.mem_append_right _ ht
  rw [TypeSteps.file, ← TypeSteps.text_declaration, Api.group_of_mem_groupSteps ht] at hmem
  exact Output.get?_insertAll_of_mem hn hmem

end Written

/-- **Both modes write the same declarations**, whatever the documentation, if names are words
and no two types of a group have names with one Pascal form. -/
theorem modes_same_declarations (api : Api) (docs : DocSource) (buildConfiguration : String)
    (words : ∀ g, ∀ n ∈ api.groupNames g, IsWord n)
    (distinct : ∀ g, ((api.groupNames g).map pascal).Nodup)
    (valid : isBlankText buildConfiguration.toList = false) :
    ∃ single perType, generate api docs ⟨buildConfiguration, .singleFile⟩ = .ok single ∧
      generate api docs ⟨buildConfiguration, .perType⟩ = .ok perType ∧
      SameDeclarations api single.output perType.output := by
  let c := api.classification buildConfiguration
  have hsingle := nodup_components_singleFile (api.coreText docs) (api.declarations docs c)
  have hperType := (nodup_components_iff words docs c (api.coreText docs)).2 distinct
  have hsinglePerm := Output.toList_perm_of_nodup hsingle
  have hperTypePerm := Output.toList_perm_of_nodup hperType
  have hsingleRun := generate_eq_ok (check_of_not_blank valid .singleFile) api docs
  have hperTypeRun := generate_eq_ok (check_of_not_blank valid .perType) api docs
  refine ⟨_, _, hsingleRun, hperTypeRun, ?_⟩
  constructor
  · exact ⟨api.coreText docs, (holdsDeclarations_of_generate hsingleRun).core,
      (holdsDeclarations_of_generate hperTypeRun).core⟩
  · exact hsinglePerm.map (·.1)
  · rw [← paths_writtenFiles_perType api docs c (api.coreText docs)]
    exact hperTypePerm.map (·.1)
  · intro f hf
    exact header_prefix_of_mem_writtenFiles api docs c (hsinglePerm.mem_iff.1 hf)
  · intro f hf
    exact header_prefix_of_mem_writtenFiles api docs c (hperTypePerm.mem_iff.1 hf)
  · intro g
    refine ⟨(api.groupSteps docs c g).map (·.declaration.text), ?_, ?_⟩
    · rw [← api.typeName_groupSteps docs c g, List.map_map, List.map_map]
      exact List.map_congr_left fun t ht => get?_typeFile api docs c ht hperType
    · rw [← groupText_eq_join]
      exact Output.get?_insertAll_of_mem hsingle (group_mem_writtenFiles ..)

/-- Two built-in types, of which one is not declared, and two classes, one with an underscore in
its name. -/
theorem modes_same_declarations_of_classes :
    let api : Api := ⟨none, [], [], [{ name := "Nil" }, { name := "Vector2" }],
      [{ name := "Node" }, { name := "text_edit", inherits := some "Node" }]⟩
    (∀ g, ∀ n ∈ api.groupNames g, IsWord n) ∧ (∀ g, ((api.groupNames g).map pascal).Nodup) ∧
    isBlankText "float_64".toList = false ∧
    ∃ single perType, generate api .empty ⟨"float_64", .singleFile⟩ = .ok single ∧
      generate api .empty ⟨"float_64", .perType⟩ = .ok perType ∧
      SameDeclarations api single.output perType.output := by
  intro api
  have words : ∀ g, ∀ n ∈ api.groupNames g, IsWord n := by
    intro g
    cases g <;> decide
  have distinct : ∀ g, ((api.groupNames g).map pascal).Nodup := by
    intro g
    cases g <;> decide
  have valid : isBlankText "float_64".toList = false := by decide
  exact ⟨words, distinct, valid, modes_same_declarations api .empty "float_64" words distinct valid⟩

end SwiftDecls
