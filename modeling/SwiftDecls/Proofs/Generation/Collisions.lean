import SwiftDecls.Proofs.Generation.Placement

/-!
# Types that share a file

With a file for each type, types of one group whose names have the same Pascal form are written
to one file, of which only the last declaration remains. So a run makes one file for each
Pascal form and not one for each type (`size_insertAll_perType`), and it loses no type exactly
if the Pascal forms of a group's names are different (`perType_loses_no_type_iff`). Distinct
names are not enough: `Node` and `node` share a file (`node_shares_file`).

The core file is never lost, since its name is no Pascal form.
-/

set_option autoImplicit false

namespace SwiftDecls

open Text Naming

/-- A name made of ASCII letters, digits and underscores that starts with a letter. -/
structure IsIdentifier (name : String) : Prop where
  word : IsWord name
  startsWithLetter : name.toList.head?.any Char.isAlpha = true

instance (name : String) : Decidable (IsIdentifier name) :=
  decidable_of_iff (IsWord name ∧ name.toList.head?.any Char.isAlpha = true)
    ⟨fun h => ⟨h.1, h.2⟩, fun h => ⟨h.word, h.startsWithLetter⟩⟩

/-- What remains of the files of a run with one file for each type. -/
structure LastDeclarations (api : Api) (docs : DocSource) (c : Classification)
    (output : Output) : Prop where
  size : output.size = 1 + ((api.groupNames .builtins).map pascal).dedup.length +
    ((api.groupNames .classes).map pascal).dedup.length
  core : output.get? coreFile = some (api.coreText docs)
  /-- A file holds the last of the declarations whose types share it. -/
  last : ∀ before t after, api.typeSteps docs c = before ++ t :: after →
    (∀ u ∈ after, u.group = t.group → pascal u.typeName ≠ pascal t.typeName) →
    output.get? (t.group.typeFile t.typeName) = some (fileHeader ++ t.declaration.text)

section Words

variable {api : Api} (words : ∀ g, ∀ n ∈ api.groupNames g, IsWord n) (docs : DocSource)
  (c : Classification)

include words

/-- There is a file for each Pascal form of a group, and the core file. -/
theorem size_insertAll_perType :
    (({} : Output).insertAll (writtenFiles .perType (api.coreText docs)
      (api.declarations docs c))).size =
        1 + ((api.groupNames .builtins).map pascal).dedup.length +
          ((api.groupNames .classes).map pascal).dedup.length := by
  rw [Output.size_insertAll, length_dedup_components words]

/-- There is a file for each type exactly if no two types share one. -/
theorem size_insertAll_perType_eq_iff :
    (({} : Output).insertAll (writtenFiles .perType (api.coreText docs)
      (api.declarations docs c))).size =
        1 + api.declaredBuiltins.length + api.classes.length ↔
      ∀ g, ((api.groupNames g).map pascal).Nodup := by
  have hlen : (writtenFiles .perType (api.coreText docs) (api.declarations docs c)).length =
      1 + api.declaredBuiltins.length + api.classes.length := by
    rw [writtenFiles, List.length_append, List.length_map, Api.declarations, List.length_append,
      List.length_map, List.length_map, List.length_singleton]
    omega
  rw [← hlen, Output.size_insertAll_eq_length_iff, nodup_components_iff words]

/-- Of declarations with one path the last remains, which is the last with its Pascal form. -/
theorem lastDeclarations_of_holds {output : Output}
    (hsize : output.size = 1 + ((api.groupNames .builtins).map pascal).dedup.length +
      ((api.groupNames .classes).map pascal).dedup.length)
    (h : HoldsDeclarations .perType (api.coreText docs) (api.declarations docs c) output) :
    LastDeclarations api docs c output := by
  refine ⟨hsize, h.core, fun before t after hsteps hlast => ?_⟩
  have hword : ∀ u ∈ api.typeSteps docs c, IsWord u.typeName := fun u hu =>
    words _ _ (Api.mem_groupNames_of_mem_typeSteps hu)
  have ht : IsWord t.typeName := hword t (hsteps ▸ List.mem_append_right _ List.mem_cons_self)
  have hdeclarations : api.declarations docs c =
      before.map (·.declaration) ++ t.declaration :: after.map (·.declaration) := by
    rw [Api.declarations_eq_map, hsteps, List.map_append, List.map_cons]
  refine h.perType rfl _ t.declaration _ hdeclarations (fun later hlater hsame => ?_) ?_
  · obtain ⟨u, hu, rfl⟩ := List.mem_map.1 hlater
    have hu' : IsWord u.typeName :=
      hword u (hsteps ▸ List.mem_append_right _ (List.mem_cons_of_mem _ hu))
    obtain ⟨hgroup, hpascal⟩ := (same_typeFile_iff hu' ht).1 hsame
    exact hlast u hu hgroup hpascal
  · intro hsame
    exact components_typeFile_ne_coreFile t.group ht hsame.symm

end Words

/-- **A file for each type loses no type exactly if no two types of a group have names with one
Pascal form.** What remains of types that share a file is the last one's declaration; the core
file is never lost. -/
theorem perType_loses_no_type_iff (api : Api) (docs : DocSource) (buildConfiguration : String)
    (words : ∀ g, ∀ n ∈ api.groupNames g, IsWord n)
    (valid : isBlankText buildConfiguration.toList = false) :
    ∃ run, generate api docs ⟨buildConfiguration, .perType⟩ = .ok run ∧
      LastDeclarations api docs run.classification run.output ∧
      (run.output.size = 1 + api.declaredBuiltins.length + api.classes.length ↔
        ∀ g, ((api.groupNames g).map pascal).Nodup) := by
  have hcheck : (⟨buildConfiguration, .perType⟩ : GeneratorConfig).check = .ok () :=
    check_of_not_blank valid .perType
  have hrun := generate_eq_ok hcheck api docs
  refine ⟨_, hrun, ?_, ?_⟩
  · exact lastDeclarations_of_holds words docs _ (size_insertAll_perType words docs _)
      (holdsDeclarations_of_generate hrun)
  · exact size_insertAll_perType_eq_iff words docs _

/-- Two classes whose names differ in an underscore only. -/
theorem perType_loses_no_type_iff_of_classes :
    let api : Api := ⟨none, [], [], [{ name := "Vector2" }],
      [{ name := "Gd_Ui" }, { name := "GdUi" }]⟩
    (∀ g, ∀ n ∈ api.groupNames g, IsWord n) ∧ isBlankText "float_64".toList = false ∧
    ∃ run, generate api .empty ⟨"float_64", .perType⟩ = .ok run ∧
      LastDeclarations api .empty run.classification run.output ∧
      (run.output.size = 1 + api.declaredBuiltins.length + api.classes.length ↔
        ∀ g, ((api.groupNames g).map pascal).Nodup) := by
  intro api
  have words : ∀ g, ∀ n ∈ api.groupNames g, IsWord n := by
    intro g
    cases g <;> decide
  have valid : isBlankText "float_64".toList = false := by decide
  exact ⟨words, valid, perType_loses_no_type_iff api .empty "float_64" words valid⟩

/-- Distinct identifiers are not enough: of the classes `Node` and `node` one is lost, and there
are two files where three are needed. -/
theorem node_shares_file :
    let api : Api := ⟨none, [], [], [], [{ name := "Node" }, { name := "node" }]⟩
    (api.builtins.map (·.name)).Nodup ∧ (api.classes.map (·.name)).Nodup ∧
    (∀ n ∈ api.builtins.map (·.name) ++ api.classes.map (·.name), IsIdentifier n) ∧
    ∃ run, generate api .empty { mode := .perType } = .ok run ∧ run.output.size = 2 ∧
      1 + api.declaredBuiltins.length + api.classes.length = 3 := by
  intro api
  have words : ∀ g, ∀ n ∈ api.groupNames g, IsWord n := by
    intro g
    cases g <;> decide
  have hcheck : ({ mode := .perType } : GeneratorConfig).check = .ok () := by decide
  have hwords : ∀ n ∈ api.builtins.map (·.name) ++ api.classes.map (·.name), IsIdentifier n := by
    decide
  refine ⟨by decide, by decide, hwords, _, generate_eq_ok hcheck api .empty, ?_, by decide⟩
  rw [size_insertAll_perType words]
  decide

end SwiftDecls
