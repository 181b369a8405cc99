import SwiftDecls.Proofs.Classification
import SwiftDecls.Proofs.Declarations.EnumKeys
import SwiftDecls.Proofs.Generation.Modes

/-!
# The order of types in a description

A description lists its built-in types and its classes in some order, and a run takes them in
that order. What it makes of them are maps, and each type puts entries of its own into each map:
its name into the classification and the table of constructors, keys that start with its name
into the index of enums, its file into the output. So a description that lists the same types in
another order makes the same (`generate_order_irrelevant`).

With a single file for each group the files of types follow the order, but the core file does not.
-/

set_option autoImplicit false

namespace SwiftDecls

open Text Naming

/-- Names are words, and no two types of a group share a file. -/
structure Api.HasOwnFiles (api : Api) : Prop where
  words : ∀ g, ∀ n ∈ api.groupNames g, IsWord n
  files : ∀ g, (groupPlaces api g).Nodup

/-- Two descriptions that list the same types, each in its own order. -/
structure Api.Reordered (api api' : Api) : Prop where
  sizeTables : api.sizeTables = api'.sizeTables
  globalEnums : api.globalEnums = api'.globalEnums
  builtins : api.builtins.Perm api'.builtins
  classes : api.classes.Perm api'.classes

namespace Api.HasOwnFiles

variable {api : Api} (own : api.HasOwnFiles)

include own

theorem nodup_groupNames (g : Group) : (api.groupNames g).Nodup := .of_map _ (own.files g)

theorem nodup_pascal (g : Group) : ((api.groupNames g).map pascal).Nodup :=
  (nodup_groupPlaces_iff (own.words g)).1 (own.files g)

/-- All files of a run are different. -/
theorem nodup_writtenFiles (docs : DocSource) (c : Classification) (core : String) :
    ((writtenFiles .perType core (api.declarations docs c)).map (·.1.components)).Nodup :=
  (nodup_components_iff own.words docs c core).2 own.nodup_pascal

end Api.HasOwnFiles

namespace Api.Reordered

variable {api api' : Api} (order : api.Reordered api')

include order

theorem declaredBuiltins : api.declaredBuiltins.Perm api'.declaredBuiltins :=
  order.builtins.filter _

theorem classification_eq (hn : (api.builtins.map (·.name)).Nodup) (buildConfiguration : String) :
    api.classification buildConfiguration = api'.classification buildConfiguration := by
  rw [Api.classification, Api.classification, order.sizeTables]
  exact Classification.ofBuiltins_perm _ _ order.builtins hn

/-- Classes may be registered in any order, even one class twice. -/
theorem referenceTypes_eq : api.referenceTypes = api'.referenceTypes := by
  refine (order.classes.map (·.name)).foldl_eq' (fun n _ m _ types => ?_) (∅ : ReferenceTypes)
  by_cases hnm : n = m
  · rw [hnm]
  · exact types.insert_comm _ _ hnm

/-- The index holds the enums of each type under keys of its own. -/
theorem enumIndex_eq (own : api.HasOwnFiles) : api.enumIndex = api'.enumIndex := by
  have hbuiltins := insertAll_ownedEntries_perm Builtin.name Builtin.enumList
    order.declaredBuiltins (own.words .builtins) (own.nodup_groupNames .builtins)
  have hclasses := insertAll_ownedEntries_perm EngineClass.name EngineClass.enumList
    order.classes (own.words .classes) (own.nodup_groupNames .classes)
  rw [Api.enumIndex, Api.enumIndex, order.globalEnums]
  simp only [SortedMap.insertAll_append, Builtin.indexEntries_eq, EngineClass.indexEntries_eq,
    hbuiltins, hclasses]

theorem coreText_eq (docs : DocSource) : api.coreText docs = api'.coreText docs := by
  rw [Api.coreText, Api.coreText, order.globalEnums, order.referenceTypes_eq]

theorem declarations_perm (docs : DocSource) (c : Classification) :
    (api.declarations docs c).Perm (api'.declarations docs c) :=
  (order.declaredBuiltins.map _).append (order.classes.map _)

/-- The files of types are written in another order. -/
theorem output_eq (own : api.HasOwnFiles) (docs : DocSource) (c : Classification) :
    ({} : Output).insertAll (writtenFiles .perType (api.coreText docs) (api.declarations docs c)) =
      ({} : Output).insertAll
        (writtenFiles .perType (api'.coreText docs) (api'.declarations docs c)) := by
  have hperm : (writtenFiles .perType (api.coreText docs) (api.declarations docs c)).Perm
      (writtenFiles .perType (api'.coreText docs) (api'.declarations docs c)) := by
    rw [order.coreText_eq docs]
    exact ((order.declarations_perm docs c).map _).append_right _
  exact Output.insertAll_perm {} hperm (own.nodup_writtenFiles docs c _)

end Api.Reordered

/-- Two runs made the same. -/
structure SameResult (a b : Generation) : Prop where
  output : a.output = b.output
  enums : a.enums = b.enums
  referenceTypes : a.referenceTypes = b.referenceTypes
  classification : a.classification = b.classification

/-- **The order of types changes nothing.** If names are words, no two built-in types have one
name and no two types of a group share a file, then two descriptions that list the same types
give the same result with a file for each type, and the same core file with a single file for
each group. -/
theorem generate_order_irrelevant (api api' : Api) (docs : DocSource) (buildConfiguration : String)
    (order : api.Reordered api') (own : api.HasOwnFiles)
    (distinct : (api.builtins.map (·.name)).Nodup)
    (valid : isBlankText buildConfiguration.toList = false) :
    (∃ run run', generate api docs ⟨buildConfiguration, .perType⟩ = .ok run ∧
      generate api' docs ⟨buildConfiguration, .perType⟩ = .ok run' ∧ SameResult run run') ∧
    (∃ run run' core, generate api docs ⟨buildConfiguration, .singleFile⟩ = .ok run ∧
      generate api' docs ⟨buildConfiguration, .singleFile⟩ = .ok run' ∧
      run.output.get? coreFile = some core ∧ run'.output.get? coreFile = some core) := by
  have hclassification := order.classification_eq distinct buildConfiguration
  constructor
  · refine ⟨_, _, generate_eq_ok (check_of_not_blank valid _) api docs,
      generate_eq_ok (check_of_not_blank valid _) api' docs, ?_⟩
    constructor
    · rw [← hclassification]
      exact order.output_eq own docs _
    · exact order.enumIndex_eq own
    · exact order.referenceTypes_eq
    · exact hclassification
  · have hrun := generate_eq_ok (check_of_not_blank valid .singleFile) api docs
    have hrun' := generate_eq_ok (check_of_not_blank valid .singleFile) api' docs
    refine ⟨_, _, api.coreText docs, hrun, hrun', (holdsDeclarations_of_generate hrun).core, ?_⟩
    rw [order.coreText_eq docs]
    exact (holdsDeclarations_of_generate hrun').core

/-- Two built-in types of which one has the other as a field, and a class before its base. -/
theorem generate_order_irrelevant_of_swap :
    let rect : Builtin := { name := "Rect2", fields := some [⟨"position", "Vector2"⟩] }
    let vector : Builtin := {
      name := "Vector2"
      fields := some [⟨"x", "float"⟩]
      enums := some [{ name := "Axis", members := [⟨"AXIS_X", 0⟩] }] }
    let node : EngineClass := { name := "Node", inherits := some "Object" }
    let object : EngineClass := { name := "Object" }
    let api : Api := ⟨none, [], [], [rect, vector], [node, object]⟩
    let api' : Api := ⟨none, [], [], [vector, rect], [object, node]⟩
    api.Reordered api' ∧ api.HasOwnFiles ∧ (api.builtins.map (·.name)).Nodup ∧
    isBlankText "float_64".toList = false ∧
    (∃ run run', generate api .empty ⟨"float_64", .perType⟩ = .ok run ∧
      generate api' .empty ⟨"float_64", .perType⟩ = .ok run' ∧ SameResult run run') ∧
    (∃ run run' core, generate api .empty ⟨"float_64", .singleFile⟩ = .ok run ∧
      generate api' .empty ⟨"float_64", .singleFile⟩ = .ok run' ∧
      run.output.get? coreFile = some core ∧ run'.output.get? coreFile = some core) := by
  intro rect vector node object api api'
  have order : api.Reordered api' := ⟨rfl, rfl, .swap .., .swap ..⟩
  have words : ∀ g, ∀ n ∈ api.groupNames g, IsWord n := by
    intro g
    cases g <;> decide
  have forms : ∀ g, ((api.groupNames g).map pascal).Nodup := by
    intro g
    cases g <;> decide
  have own : api.HasOwnFiles := ⟨words, fun g => (nodup_groupPlaces_iff (words g)).2 (forms g)⟩
  have distinct : (api.builtins.map (·.name)).Nodup := by decide
  have valid : isBlankText "float_64".toList = false := by decide
  exact ⟨order, own, distinct, valid,
    generate_order_irrelevant api api' .empty "float_64" order own distinct valid⟩

end SwiftDecls
