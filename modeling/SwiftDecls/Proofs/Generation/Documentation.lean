import SwiftDecls.Proofs.Docs.Erasure
import SwiftDecls.Proofs.Generation.Files

/-!
# Documentation changes nothing but documentation

Two runs that differ in their source of documentation write files under the same paths, whose
texts are equal once the lines of documentation are deleted (`mapTexts_withoutDocs_insertAll`).
The files of both output modes are made from declared types, and a declared type is, apart from
documentation, its group, its name and lines that do not depend on the source
(`map_groupSteps_congr`).
The main statement, `generate_docs_irrelevant`, compares a run with any source to the run
without documentation.
-/

set_option autoImplicit false

namespace SwiftDecls

open Source Text

/-- Types are declared alike with all documentation: what can be said of a declared type by its
group, its name and its lines apart from documentation is the same for both sources. -/
theorem map_groupSteps_congr {β : Type} {f : TypeSteps → β}
    (hf : ∀ t t' : TypeSteps, t.group = t'.group → t.typeName = t'.typeName →
      codeLines 0 t.steps = codeLines 0 t'.steps → f t = f t')
    (api : Api) (docs docs' : DocSource) (c : Classification) (g : Group) :
    (api.groupSteps docs c g).map f = (api.groupSteps docs' c g).map f := by
  cases g with
  | builtins =>
    rw [Api.groupSteps, Api.groupSteps, List.map_map, List.map_map]
    refine List.map_congr_left fun b _ => ?_
    exact hf _ _ rfl rfl (b.sameCode_steps c (docs.doc? b.name) (docs'.doc? b.name) 0)
  | classes =>
    rw [Api.groupSteps, Api.groupSteps, List.map_map, List.map_map]
    refine List.map_congr_left fun e _ => ?_
    exact hf _ _ rfl rfl (e.sameCode_steps (docs.doc? e.name) (docs'.doc? e.name) 0)

/-! ## Files -/

/-- The header has no documentation. -/
theorem withoutDocs_header_append {ls : List (List Char)} (h : AreLines ls) :
    withoutDocs (fileHeader ++ unlines ls) =
      fileHeader ++ unlines (ls.filter fun l => !isDocLine l) := by
  have hheader : headerLines.filter (fun l => !isDocLine l) = headerLines := by decide
  rw [fileHeader_eq_unlines, ← unlines_append, withoutDocs,
    dropLines_unlines rfl (areLines_headerLines.append h), List.filter_append, hheader,
    unlines_append]

theorem withoutDocs_coreText (api : Api) (docs docs' : DocSource) :
    withoutDocs (api.coreText docs) = withoutDocs (api.coreText docs') := by
  have henums := sameCode_enumSteps (Api.globalEnumScope docs) (Api.globalEnumScope docs')
    api.globalEnums
  have hcode : codeLines 0 (api.coreSteps docs) = codeLines 0 (api.coreSteps docs') :=
    henums.append (.refl api.referenceTypes.steps) 0
  rw [codeLines, codeLines] at hcode
  rw [coreText_eq, coreText_eq, withoutDocs_header_append (areLines_stepLines _ _),
    withoutDocs_header_append (areLines_stepLines _ _), hcode]

/-- The file of one type without its documentation. -/
theorem withoutDocs_typeFile (t : TypeSteps) :
    withoutDocs t.file.2 = fileHeader ++ unlines (codeLines 0 t.steps) :=
  withoutDocs_header_append t.areLines_lines

/-- The single file of a group without its documentation. -/
theorem withoutDocs_groupText (api : Api) (docs docs' : DocSource) (c : Classification)
    (g : Group) :
    withoutDocs (groupText g (api.declarations docs c)) =
      withoutDocs (groupText g (api.declarations docs' c)) := by
  have herase : ∀ src : DocSource, withoutDocs (groupText g (api.declarations src c)) =
      fileHeader ++
        unlines ((api.groupSteps src c g).map fun t => codeLines 0 t.steps).flatten := by
    intro src
    have hlines : AreLines ((api.groupSteps src c g).flatMap (·.lines)) := by
      intro l hl
      obtain ⟨t, -, hl⟩ := List.mem_flatMap.1 hl
      exact t.areLines_lines l hl
    rw [groupText_eq_unlines, withoutDocs_header_append hlines, List.filter_flatMap]
    rfl
  rw [herase docs, herase docs', map_groupSteps_congr (fun _ _ _ _ h => h) api docs docs']

/-- Both output modes write the same files apart from documentation. -/
theorem writtenFiles_withoutDocs (mode : OutputMode) (api : Api) (docs docs' : DocSource)
    (c : Classification) :
    (writtenFiles mode (api.coreText docs) (api.declarations docs c)).map
        (fun e => (e.1, withoutDocs e.2)) =
      (writtenFiles mode (api.coreText docs') (api.declarations docs' c)).map
        (fun e => (e.1, withoutDocs e.2)) := by
  cases mode with
  | singleFile =>
    simp only [writtenFiles, List.map_cons, withoutDocs_coreText api docs docs',
      withoutDocs_groupText api docs docs']
  | perType =>
    have hfile : ∀ t t' : TypeSteps, t.group = t'.group → t.typeName = t'.typeName →
        codeLines 0 t.steps = codeLines 0 t'.steps →
        (t.file.1, withoutDocs t.file.2) = (t'.file.1, withoutDocs t'.file.2) := by
      intro t t' hgroup hname hcode
      rw [withoutDocs_typeFile, withoutDocs_typeFile, hcode, TypeSteps.file, TypeSteps.file,
        hgroup, hname]
    simp only [writtenFiles_perType, Api.typeSteps, List.map_append, List.map_map,
      Function.comp_def, map_groupSteps_congr hfile api docs docs', List.map_cons, List.map_nil,
      withoutDocs_coreText api docs docs']

/-- The outputs with two sources of documentation are equal apart from documentation. -/
theorem mapTexts_withoutDocs_insertAll (mode : OutputMode) (api : Api) (docs docs' : DocSource)
    (c : Classification) :
    (({} : Output).insertAll (writtenFiles mode (api.coreText docs)
        (api.declarations docs c))).mapTexts withoutDocs =
      (({} : Output).insertAll (writtenFiles mode (api.coreText docs')
        (api.declarations docs' c))).mapTexts withoutDocs := by
  rw [Output.mapTexts_insertAll, Output.mapTexts_insertAll,
    writtenFiles_withoutDocs mode api docs docs' c]

/-- Two runs made the same but for lines of documentation. -/
structure SameApartFromDocs (a b : Generation) : Prop where
  paths : a.output.paths = b.output.paths
  enums : a.enums = b.enums
  referenceTypes : a.referenceTypes = b.referenceTypes
  classification : a.classification = b.classification
  texts : ∀ path, (a.output.get? path).map withoutDocs = (b.output.get? path).map withoutDocs

/-- **Documentation never changes a declaration.** A run with any source of documentation and
the run without any both succeed, and they differ in lines of documentation only. -/
theorem generate_docs_irrelevant (api : Api) (docs : DocSource) (config : GeneratorConfig)
    (valid : config.check = .ok ()) :
    ∃ documented bare, generate api docs config = .ok documented ∧
      generate api .empty config = .ok bare ∧ SameApartFromDocs documented bare := by
  have houtput := mapTexts_withoutDocs_insertAll config.mode api docs .empty
    (api.classification config.buildConfiguration)
  refine ⟨_, _, generate_eq_ok valid api docs, generate_eq_ok valid api .empty, ?_, rfl, rfl, rfl,
    fun path => ?_⟩
  · have hpaths := congrArg Output.paths houtput
    rwa [Output.paths_mapTexts, Output.paths_mapTexts] at hpaths
  · have hget := congrArg (·.get? path) houtput
    simpa only [Output.get?_mapTexts] using hget

/-- A brief text of three lines, the last with a bracket that is never closed. -/
theorem generate_docs_irrelevant_node :
    ({ mode := .perType } : GeneratorConfig).check = .ok () ∧
    ∃ documented bare,
      generate ⟨none, [], [], [], [{ name := "Node" }]⟩
        (.ofList [{ name := "Node", brief := some "A [b]node[/b].\n\n[url=" }])
        { mode := .perType } = .ok documented ∧
      generate ⟨none, [], [], [], [{ name := "Node" }]⟩ .empty { mode := .perType } = .ok bare ∧
      SameApartFromDocs documented bare :=
  ⟨rfl, generate_docs_irrelevant _ _ _ rfl⟩

end SwiftDecls
