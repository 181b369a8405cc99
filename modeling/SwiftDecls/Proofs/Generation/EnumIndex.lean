import SwiftDecls.Proofs.Declarations.EnumKeys
import SwiftDecls.Proofs.Generation.Files

/-!
# The index of enums

A run registers every enum that it declares: a global one under its name, one nested in a type
under the name of the type, a dot and its own name. All of them go into one map, where a later
registration takes the place of an earlier one with its key. The main statement,
`generate_indexes_every_enum`, is that no registration is lost: where names keep the enums apart
(`Api.SeparatesEnums`), the index holds each enum under its key and nothing else.
-/

set_option autoImplicit false

namespace SwiftDecls

namespace Api

/-- The declared types with the enums nested in them, built-in types first. -/
def enumOwners (api : Api) : List (String × List EnumDefinition) :=
  api.declaredBuiltins.map (fun b => (b.name, b.enumList)) ++
    api.classes.map fun e => (e.name, e.enumList)

/-- The enums of a description with the keys that they are registered under. -/
def enumEntries (api : Api) : List (String × EnumDefinition) :=
  (api.globalEnums.map fun e => (e.name, e)) ++
    api.enumOwners.flatMap fun o => ownedEntries o.1 o.2

/-- The names of a description keep its enums apart. -/
structure SeparatesEnums (api : Api) : Prop where
  /-- A global enum has no dot in its name but the one after `Variant`. -/
  globals : ∀ e ∈ api.globalEnums, '.' ∉ e.name.toList ∨
    ∃ inner : String, e.name = "Variant." ++ inner ∧ '.' ∉ inner.toList
  globalsDistinct : (api.globalEnums.map (·.name)).Nodup
  owners : ∀ o ∈ api.enumOwners, '.' ∉ o.1.toList ∧ o.1 ≠ "Variant"
  /-- No name is that of two types, of one group or of both. -/
  ownersDistinct : (api.enumOwners.map (·.1)).Nodup
  nestedDistinct : ∀ o ∈ api.enumOwners, (o.2.map (·.name)).Nodup

/-- All registrations of a run. -/
theorem enumIndex_eq_insertAll (api : Api) :
    api.enumIndex = (∅ : EnumIndex).insertAll api.enumEntries := by
  have hglobals : (EnumScope.globals []).indexEntries api.globalEnums =
      api.globalEnums.map fun e => (e.name, e) := by
    refine List.map_congr_left fun e _ => ?_
    rw [String.empty_append]
  rw [enumIndex, enumEntries, enumOwners, hglobals, Builtin.indexEntries_eq,
    EngineClass.indexEntries_eq, List.flatMap_append, List.flatMap_map, List.flatMap_map,
    List.append_assoc]

/-- No two registrations of a run have one key. -/
theorem SeparatesEnums.nodup_keys {api : Api} (names : api.SeparatesEnums) :
    (api.enumEntries.map (·.1)).Nodup := by
  have hglobal : ∀ e ∈ api.globalEnums, '.' ∉ e.name.toList ∨
      ∃ inner, e.name = "Variant." ++ inner := by
    intro e he
    rcases names.globals e he with hdot | ⟨inner, hname, -⟩
    · exact .inl hdot
    · exact .inr ⟨inner, hname⟩
  exact nodup_keys_append_owned (fun o ho => (names.owners o ho).1) names.ownersDistinct
    names.nestedDistinct (fun o ho => (names.owners o ho).2) names.globalsDistinct hglobal

end Api

/-- An index holds the enums of a description, each once, and nothing else. -/
structure IndexesExactly (api : Api) (index : EnumIndex) : Prop where
  entries : index.entries.Perm ((api.globalEnums.map fun e => (e.name, e)) ++
    (api.declaredBuiltins.flatMap fun b => b.enumList.map fun e => (b.name ++ "." ++ e.name, e)) ++
    api.classes.flatMap fun c => c.enumList.map fun e => (c.name ++ "." ++ e.name, e))
  /-- A global enum is found under its name, -/
  globals : ∀ e ∈ api.globalEnums, index.get? e.name = some e
  /-- and a nested one under the names of its owner and its own. -/
  nested : ∀ o ∈ api.enumOwners, ∀ e ∈ o.2, index.get? (o.1 ++ "." ++ e.name) = some e

theorem indexesExactly_enumIndex {api : Api} (names : api.SeparatesEnums) :
    IndexesExactly api api.enumIndex := by
  have hperm : api.enumIndex.entries.Perm api.enumEntries := by
    have hall := SortedMap.entries_insertAll_perm (m := (∅ : EnumIndex)) names.nodup_keys
      fun _ _ => List.not_mem_nil
    rwa [SortedMap.entries_empty, List.append_nil, ← api.enumIndex_eq_insertAll] at hall
  have hget : ∀ key e, (key, e) ∈ api.enumEntries → api.enumIndex.get? key = some e := by
    intro key e hmem
    exact SortedMap.get?_eq_some_iff.2 (hperm.mem_iff.2 hmem)
  constructor
  · rw [Api.enumEntries, Api.enumOwners, List.flatMap_append, List.flatMap_map,
      List.flatMap_map, ← List.append_assoc] at hperm
    exact hperm
  · intro e he
    exact hget _ _ (List.mem_append_left _ (List.mem_map_of_mem he))
  · intro o ho e he
    refine hget _ _ (List.mem_append_right _ (List.mem_flatMap.2 ⟨o, ho, ?_⟩))
    exact List.mem_map_of_mem he

/-- **No registration is lost.** If names keep the enums of a description apart, then after a run
the index holds each global enum under its name, each enum nested in a declared type under the
names of the type and its own, and nothing else. -/
theorem generate_indexes_every_enum (api : Api) (docs : DocSource) (config : GeneratorConfig)
    (valid : config.check = .ok ()) (names : api.SeparatesEnums) :
    ∃ run, generate api docs config = .ok run ∧ IndexesExactly api run.enums :=
  ⟨_, generate_eq_ok valid api docs, indexesExactly_enumIndex names⟩

/-- A global enum, one inside `Variant` and three types with an enum `Axis` each, of which one is
a primitive that is not declared. -/
theorem generate_indexes_every_enum_of_axis :
    let axis : EnumDefinition := { name := "Axis", members := [⟨"AXIS_X", 0⟩] }
    let dotted : EnumDefinition := { name := "Flags.Axis", bitfield := some true, members := [] }
    let api : Api := ⟨none, [], [axis, { name := "Variant.Axis", members := [] }],
      [{ name := "int", enums := some [axis] }, { name := "Vector2", enums := some [axis] }],
      [{ name := "Node", enums := some [dotted, axis] }]⟩
    ({} : GeneratorConfig).check = .ok () ∧ api.SeparatesEnums ∧
    ∃ run, generate api .empty {} = .ok run ∧ IndexesExactly api run.enums := by
  intro axis dotted api
  have valid : ({} : GeneratorConfig).check = .ok () := by decide
  have names : api.SeparatesEnums := by
    constructor
    · intro e he
      rcases List.mem_pair.1 he with rfl | rfl
      · exact .inl (by decide)
      · exact .inr ⟨"Axis", rfl, by decide⟩
    · decide
    · decide
    · decide
    · decide
  exact ⟨valid, names, generate_indexes_every_enum api .empty {} valid names⟩

end SwiftDecls
