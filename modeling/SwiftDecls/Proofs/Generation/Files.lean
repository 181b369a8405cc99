import SwiftDecls.Generation
import SwiftDecls.Proofs.Output
import SwiftDecls.Proofs.Source.Layout

/-!
# The texts of generated files

A run declares types, each by the steps of one declaration (`Api.typeSteps`). The text of every
file is the header followed by the lines of steps: the core file has those of the global enums
and of the table of constructors (`coreText_eq`), a file of one type those of its declaration,
and the single file of a group those of all its declarations in order (`groupText_eq_join`,
`groupText_eq_unlines`). The last fact holds because a declaration ends with a block, so that
its text is one of whole lines.
-/

set_option autoImplicit false

namespace SwiftDecls

open Source Text

/-- The lines of the header. -/
def headerLines : List (List Char) := [
  "// This file is autogenerated, do not edit".toList, "import Foundation".toList,
  "@_implementationOnly import GDExtension".toList, []]

theorem fileHeader_eq_unlines : fileHeader = unlines headerLines := by decide

theorem areLines_headerLines : AreLines headerLines := by
  intro l hl
  revert l
  decide

/-- A declared type with the steps that declare it. -/
structure TypeSteps where
  group : Group
  typeName : String
  steps : List Step

namespace TypeSteps

/-- The lines of the declaration. -/
def lines (t : TypeSteps) : List (List Char) := stepLines 0 t.steps

/-- The declaration as a text. -/
def declaration (t : TypeSteps) : Declaration := ⟨t.group, t.typeName, render 0 t.steps⟩

/-- The file of the type alone. -/
def file (t : TypeSteps) : Path × String :=
  (t.group.typeFile t.typeName, fileHeader ++ unlines t.lines)

theorem path_file (t : TypeSteps) : t.file.1 = t.group.typeFile t.typeName := by rw [file]

theorem areLines_lines (t : TypeSteps) : AreLines t.lines := areLines_stepLines 0 t.steps

theorem text_declaration (t : TypeSteps) : t.declaration.text = unlines t.lines :=
  render_eq_unlines 0 t.steps

end TypeSteps

/-- A built-in type as it is declared. -/
def Builtin.typeSteps (c : Classification) (docs : DocSource) (b : Builtin) : TypeSteps :=
  ⟨.builtins, b.name, b.steps c (docs.doc? b.name)⟩

/-- A class as it is declared. -/
def EngineClass.typeSteps (docs : DocSource) (e : EngineClass) : TypeSteps :=
  ⟨.classes, e.name, e.steps (docs.doc? e.name)⟩

namespace Api

/-- The steps that write the core file. -/
def coreSteps (api : Api) (docs : DocSource) : List Step :=
  enumSteps (globalEnumScope docs) api.globalEnums ++ api.referenceTypes.steps

/-- The declared types of a group in the order of the description. -/
def groupSteps (api : Api) (docs : DocSource) (c : Classification) : Group → List TypeSteps
  | .builtins => api.declaredBuiltins.map (·.typeSteps c docs)
  | .classes => api.classes.map (·.typeSteps docs)

/-- The names of a group's declared types in the order of the description. -/
def groupNames (api : Api) : Group → List String
  | .builtins => api.declaredBuiltins.map (·.name)
  | .classes => api.classes.map (·.name)

/-- All declared types in the order of the description. -/
def typeSteps (api : Api) (docs : DocSource) (c : Classification) : List TypeSteps :=
  api.groupSteps docs c .builtins ++ api.groupSteps docs c .classes

theorem declarations_eq_map (api : Api) (docs : DocSource) (c : Classification) :
    api.declarations docs c = (api.typeSteps docs c).map (·.declaration) := by
  rw [declarations, typeSteps, List.map_append, groupSteps, groupSteps, List.map_map, List.map_map]
  rfl

theorem typeName_groupSteps (api : Api) (docs : DocSource) (c : Classification) (g : Group) :
    (api.groupSteps docs c g).map (·.typeName) = api.groupNames g := by
  cases g <;> simp [groupSteps, groupNames, Builtin.typeSteps, EngineClass.typeSteps]

theorem group_of_mem_groupSteps {api : Api} {docs : DocSource} {c : Classification} {g : Group}
    {t : TypeSteps} (h : t ∈ api.groupSteps docs c g) : t.group = g := by
  cases g <;> obtain ⟨a, -, rfl⟩ := List.mem_map.1 h <;> rfl

theorem mem_groupNames_of_mem_typeSteps {api : Api} {docs : DocSource} {c : Classification}
    {t : TypeSteps} (h : t ∈ api.typeSteps docs c) : t.typeName ∈ api.groupNames t.group := by
  have hgroup : ∀ g, t ∈ api.groupSteps docs c g → t.typeName ∈ api.groupNames t.group := by
    intro g ht
    rw [group_of_mem_groupSteps ht, ← api.typeName_groupSteps docs c g]
    exact List.mem_map_of_mem ht
  rcases List.mem_append.1 h with h | h
  · exact hgroup _ h
  · exact hgroup _ h

/-- The declarations of a group are those of its types. -/
theorem filter_group_typeSteps (api : Api) (docs : DocSource) (c : Classification) (g : Group) :
    (api.typeSteps docs c).filter (·.group = g) = api.groupSteps docs c g := by
  have hself : ∀ g', (api.groupSteps docs c g').filter (·.group = g) =
      if g' = g then api.groupSteps docs c g else [] := by
    intro g'
    split
    · rename_i hg
      subst hg
      exact List.filter_eq_self.2 fun t ht => by simp [group_of_mem_groupSteps ht]
    · rename_i hg
      exact List.filter_eq_nil_iff.2 fun t ht => by simp [group_of_mem_groupSteps ht, hg]
  rw [typeSteps, List.filter_append, hself, hself]
  cases g <;> simp

/-- A declaration is a comment and one block. -/
theorem exists_block_of_mem_groupSteps {api : Api} {docs : DocSource} {c : Classification}
    {g : Group} {t : TypeSteps} (h : t ∈ api.groupSteps docs c g) :
    ∃ comment header body, t.steps = comment ++ [.block header "" body] := by
  cases g <;> obtain ⟨a, -, rfl⟩ := List.mem_map.1 h <;> exact ⟨_, _, _, rfl⟩

end Api

/-! ## The three kinds of files -/

theorem linesAt_ne_nil (depth : Nat) (text : String) : linesAt depth text ≠ [] := by
  rw [linesAt, ne_eq, List.map_eq_nil_iff]
  exact List.splitOn_ne_nil _ _

/-- Steps that end with a block write more than an empty line. -/
theorem stepLines_ne_of_block (depth : Nat) (before body : List Step) (header suffix : String) :
    stepLines depth (before ++ [.block header suffix body]) ≠ [[]] := by
  have hheader := List.length_pos_of_ne_nil (linesAt_ne_nil depth (header ++ " \x7b"))
  intro h
  have hlen := congrArg List.length h
  simp only [stepLines_append, stepLines_cons, stepLines_nil, Step.lines, List.length_append,
    List.length_cons, List.length_nil] at hlen
  omega

/-- The text of a declaration is one of whole lines. -/
theorem wholeLines_declaration {api : Api} {docs : DocSource} {c : Classification} {g : Group}
    {t : TypeSteps} (h : t ∈ api.groupSteps docs c g) :
    wholeLines t.declaration.text = t.declaration.text := by
  obtain ⟨comment, header, body, hsteps⟩ := Api.exists_block_of_mem_groupSteps h
  rw [TypeSteps.text_declaration]
  refine wholeLines_unlines ?_
  rw [TypeSteps.lines, hsteps]
  exact stepLines_ne_of_block 0 comment body header ""

/-- The core file: the header, the global enums and the table of constructors. -/
theorem coreText_eq (api : Api) (docs : DocSource) :
    api.coreText docs = fileHeader ++ unlines (stepLines 0 (api.coreSteps docs)) := by
  rw [Api.coreText, Api.coreSteps, Writer.text_run]

/-- With a file for each type the core file is written last. -/
theorem writtenFiles_perType (api : Api) (docs : DocSource) (c : Classification) (core : String) :
    writtenFiles .perType core (api.declarations docs c) =
      (api.typeSteps docs c).map (·.file) ++ [(coreFile, core)] := by
  rw [writtenFiles, Api.declarations_eq_map, List.map_map]
  congr 1
  refine List.map_congr_left fun t _ => ?_
  rw [TypeSteps.file, ← TypeSteps.text_declaration]
  rfl

theorem wholeLines_of_mem_declarations {api : Api} {docs : DocSource} {c : Classification}
    {d : Declaration} (h : d ∈ api.declarations docs c) : wholeLines d.text = d.text := by
  rw [Api.declarations_eq_map] at h
  obtain ⟨t, ht, rfl⟩ := List.mem_map.1 h
  rcases List.mem_append.1 ht with ht | ht
  · exact wholeLines_declaration ht
  · exact wholeLines_declaration ht

/-- Declarations of whole lines are in the single file of their group as they are. -/
theorem groupText_of_wholeLines {declarations : List Declaration}
    (h : ∀ d ∈ declarations, wholeLines d.text = d.text) (g : Group) :
    groupText g declarations =
      fileHeader ++ String.join ((declarations.filter (·.group = g)).map (·.text)) := by
  rw [groupText]
  congr 2
  exact List.map_congr_left fun d hd => h d (List.mem_of_mem_filter hd)

/-- The single file of a group: the header and the texts of its declarations in order. -/
theorem groupText_eq_join (api : Api) (docs : DocSource) (c : Classification) (g : Group) :
    groupText g (api.declarations docs c) = fileHeader ++
      String.join ((api.groupSteps docs c g).map fun t => t.declaration.text) := by
  have hfilter : (api.declarations docs c).filter (·.group = g) =
      (api.groupSteps docs c g).map (·.declaration) := by
    rw [Api.declarations_eq_map, List.filter_map, ← Api.filter_group_typeSteps]
    rfl
  rw [groupText_of_wholeLines (fun d hd => wholeLines_of_mem_declarations hd), hfilter,
    List.map_map]
  rfl

/-- The single file of a group: the lines of the header and of its declarations in order. -/
theorem groupText_eq_unlines (api : Api) (docs : DocSource) (c : Classification) (g : Group) :
    groupText g (api.declarations docs c) =
      fileHeader ++ unlines ((api.groupSteps docs c g).flatMap (·.lines)) := by
  rw [groupText_eq_join, List.flatMap, unlines_flatten, List.map_map]
  congr 2
  exact List.map_congr_left fun t _ => t.text_declaration

theorem check_of_not_blank {buildConfiguration : String}
    (h : isBlankText buildConfiguration.toList = false) (mode : OutputMode) :
    (⟨buildConfiguration, mode⟩ : GeneratorConfig).check = .ok () := by
  simp [GeneratorConfig.check, h]

/-- A run with a build configuration succeeds, and its output is made of the written files. -/
theorem generate_eq_ok {config : GeneratorConfig} (h : config.check = .ok ()) (api : Api)
    (docs : DocSource) :
    generate api docs config = .ok {
      output := ({} : Output).insertAll (writtenFiles config.mode (api.coreText docs)
        (api.declarations docs (api.classification config.buildConfiguration)))
      enums := api.enumIndex
      referenceTypes := api.referenceTypes
      classification := api.classification config.buildConfiguration
      warnings := api.warnings docs config.buildConfiguration } := by
  rw [generate, h, ← partition_eq_insertAll]
  rfl

/-- A run that succeeds was given a build configuration. -/
theorem check_of_generate_eq_ok {config : GeneratorConfig} {api : Api} {docs : DocSource}
    {run : Generation} (h : generate api docs config = .ok run) : config.check = .ok () := by
  cases hcheck : config.check with
  | ok => rfl
  | error e =>
    rw [generate, hcheck] at h
    cases h

/-- The output of a run is made of the written files. -/
theorem output_of_generate {config : GeneratorConfig} {api : Api} {docs : DocSource}
    {run : Generation} (h : generate api docs config = .ok run) :
    run.output = ({} : Output).insertAll (writtenFiles config.mode (api.coreText docs)
      (api.declarations docs (api.classification config.buildConfiguration))) := by
  rw [generate_eq_ok (check_of_generate_eq_ok h) api docs] at h
  obtain rfl := Except.ok.inj h
  rfl

/-- The output of a run is its core text and its declarations, spread over files. -/
theorem output_eq_partition {config : GeneratorConfig} {api : Api} {docs : DocSource}
    {run : Generation} (h : generate api docs config = .ok run) :
    run.output = partition config.mode (api.coreText docs)
      (api.declarations docs run.classification) := by
  rw [generate_eq_ok (check_of_generate_eq_ok h) api docs, ← partition_eq_insertAll] at h
  obtain rfl := Except.ok.inj h
  rfl

end SwiftDecls
