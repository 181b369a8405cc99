import SwiftDecls.Proofs.Declarations.Constructors
import SwiftDecls.Proofs.Declarations.Members
import SwiftDecls.Proofs.Generation.Placement
import SwiftDecls.Proofs.TypeName

/-!
# The core file and its table of constructors

The core file is the header, the declarations of the global enums one by one (`GlobalEnumLines`) and
the table of constructors. A run registers each class as it declares it, and classes may come in any
order and more than once. The main statement, `core_constructor_table`, says what the table has in
the end: a line for each name of a class, in the order of the names' bytes, with the Swift name that
the class is declared under. It holds in both output modes, whatever else shares the directory of
the core file.
-/

set_option autoImplicit false

namespace SwiftDecls

open Source Text

/-- The entries of a table of constructors for the classes of a description. -/
structure ConstructorEntries (api : Api) (docs : DocSource)
    (entries : List (String × String)) : Prop where
  /-- The schema names ascend, so no two entries have one. -/
  ascending : entries.Pairwise fun a b => utf8Bytes a.1 < utf8Bytes b.1
  names : ∀ name, name ∈ entries.map (·.1) ↔ name ∈ api.classes.map (·.name)
  /-- A class has the Swift name of its declaration. -/
  declared : ∀ e ∈ api.classes, ∃ swiftName body,
    Declares (e.steps (docs.doc? e.name)) (.openClass e.base) swiftName body ∧
      (e.name, swiftName) ∈ entries

/-- The lines of a table of constructors. -/
structure ConstructorTable (api : Api) (docs : DocSource) (table : List String) : Prop where
  /-- None is broken. -/
  lines : ∀ line ∈ table, '\n' ∉ line.toList
  empty : table = ["var godotFrameworkCtors: [String: Wrapped.Type] = [:]"] ↔ api.classes = []
  filled : api.classes ≠ [] → ∃ entries, ConstructorEntries api docs entries ∧
    table = "var godotFrameworkCtors: [String: Wrapped.Type] = [" ::
      entries.map (fun e => "    \"" ++ e.1 ++ "\": " ++ e.2 ++ ".self,") ++ ["]"]

/-- The lines that declare a global enum. One inside `Variant` is declared in an extension, by the
rest of its name. -/
inductive GlobalEnumLines (scope : EnumScope) (e : EnumDefinition) : List (List Char) → Prop where
  | outside {lines : List (List Char)} (named : OutsideVariant e.name)
      (declares : EnumLines scope e.name e 0 lines) : GlobalEnumLines scope e lines
  | inside {inner : String} {lines : List (List Char)} (named : e.name = "Variant." ++ inner)
      (declares : EnumLines scope inner e 1 lines) :
      GlobalEnumLines scope e ("extension Variant \x7b".toList :: lines ++ ["\x7d".toList, []])

/-- What the core file of a run holds, and what it speaks of. -/
structure CoreFileTable (api : Api) (docs : DocSource) (config : GeneratorConfig)
    (run : Generation) (core : String) : Prop where
  text : ∃ table, ConstructorTable api docs table ∧
    core = fileHeader ++ render 0 (enumSteps (Api.globalEnumScope docs) api.globalEnums) ++
      unlines (table.map String.toList)
  /-- The global enums are declared one after the other, in the order of the description. -/
  enums : ∃ parts, List.Forall₂ (GlobalEnumLines (Api.globalEnumScope docs)) api.globalEnums parts ∧
    render 0 (enumSteps (Api.globalEnumScope docs) api.globalEnums) = unlines parts.flatten
  found : run.output.get? coreFile = some core
  /-- Beside it the output has the declarations of the types. -/
  output : run.output = partition config.mode core
    ((api.typeSteps docs run.classification).map (·.declaration))

theorem globalEnumLines_enumStep (scope : EnumScope) (e : EnumDefinition) :
    GlobalEnumLines scope e ((enumStep scope e).lines 0) := by
  by_cases hname : OutsideVariant e.name
  · have hlines := enumLines_enumBlock scope e.name e 0
    rw [stepLines_cons, stepLines_nil, List.append_nil] at hlines
    rw [enumStep, variantName?_of_outside hname]
    exact .outside hname hlines
  · obtain ⟨inner, hinner⟩ := exists_inner_of_not_outside hname
    have hopen : linesAt 0 ("extension Variant" ++ " \x7b") = ["extension Variant \x7b".toList] :=
      linesAt_of_not_mem (by decide) 0
    have hclose : linesAt 0 ("\x7d" ++ "") = ["\x7d".toList] := linesAt_of_not_mem (by decide) 0
    have hstep : enumStep scope e = .block "extension Variant" "" [enumBlock scope inner e] := by
      rw [enumStep, hinner, variantName?_append]
    rw [hstep, Step.lines, hopen, hclose, List.append_assoc, List.singleton_append,
      List.singleton_append, List.cons_append]
    exact .inside hinner (enumLines_enumBlock scope inner e 1)

/-- The global enums are declared one by one. -/
theorem exists_globalEnumLines (scope : EnumScope) (enums : List EnumDefinition) :
    ∃ parts, List.Forall₂ (GlobalEnumLines scope) enums parts ∧
      render 0 (enumSteps scope enums) = unlines parts.flatten := by
  refine ⟨enums.map fun e => (enumStep scope e).lines 0, ?_, ?_⟩
  · exact List.forall₂_map_right_iff.2 (List.forall₂_same.2 fun e _ =>
      globalEnumLines_enumStep scope e)
  · rw [render_eq_unlines, stepLines_eq_flatMap, enumSteps, List.flatMap, List.map_map]
    rfl

theorem constructorEntries_referenceTypes (api : Api) (docs : DocSource) :
    ConstructorEntries api docs api.referenceTypes.entries := by
  constructor
  · exact ReferenceTypes.pairwise_utf8Bytes _
  · intro name
    have hkeys : name ∈ api.referenceTypes.keys ↔ name ∈ api.classes.map (·.name) ∨
        name ∈ (∅ : ReferenceTypes).keys := ReferenceTypes.mem_keys_registerAll
    exact hkeys.trans (or_iff_left List.not_mem_nil)
  · intro e he
    refine ⟨_, _, e.declares_steps (docs.doc? e.name), SortedMap.get?_eq_some_iff.1 ?_⟩
    rw [Api.referenceTypes, ReferenceTypes.get?_registerAll, if_pos (List.mem_map_of_mem he)]

/-- Nothing is registered exactly if there is no class. -/
theorem entries_referenceTypes_eq_nil_iff (api : Api) :
    api.referenceTypes.entries = [] ↔ api.classes = [] := by
  have hnames := (constructorEntries_referenceTypes api .empty).names
  constructor
  · intro hentries
    refine List.eq_nil_iff_forall_not_mem.2 fun e he => ?_
    have hname := (hnames e.name).2 (List.mem_map_of_mem he)
    rw [hentries] at hname
    exact List.not_mem_nil hname
  · intro hclasses
    refine List.eq_nil_iff_forall_not_mem.2 fun e he => ?_
    have hname := (hnames e.1).1 (List.mem_map_of_mem he)
    rw [hclasses] at hname
    exact List.not_mem_nil hname

/-- Registered names are on one line if those of the classes are. -/
theorem lineFeed_not_mem_of_mem_entries {api : Api}
    (h : ∀ e ∈ api.classes, '\n' ∉ e.name.toList) :
    ∀ e ∈ api.referenceTypes.entries, '\n' ∉ e.1.toList ∧ '\n' ∉ e.2.toList := by
  intro e he
  have hname := ((constructorEntries_referenceTypes api .empty).names e.1).1
    (List.mem_map_of_mem he)
  have hget := SortedMap.get?_eq_some_iff.2 he
  rw [Api.referenceTypes, ReferenceTypes.get?_registerAll, if_pos hname] at hget
  obtain ⟨c, hc, heq⟩ := List.mem_map.1 hname
  have hfirst : '\n' ∉ e.1.toList := heq ▸ h c hc
  rw [← Option.some.inj hget]
  exact ⟨hfirst, lineFeed_not_mem_swiftTypeName hfirst⟩

theorem constructorTable_tableLines {api : Api} (docs : DocSource)
    (h : ∀ e ∈ api.classes, '\n' ∉ e.name.toList) :
    ConstructorTable api docs (ReferenceTypes.tableLines api.referenceTypes.entries) := by
  have hentries := lineFeed_not_mem_of_mem_entries h
  constructor
  · intro line hline
    have hstep : line.toList ∈ stepLines 0 api.referenceTypes.steps := by
      rw [ReferenceTypes.stepLines_steps hentries]
      exact List.mem_map_of_mem hline
    exact areLines_stepLines 0 _ _ hstep
  · rw [← entries_referenceTypes_eq_nil_iff, ReferenceTypes.tableLines]
    split
    · rename_i hempty
      exact iff_of_true rfl hempty
    · rename_i hempty
      refine iff_of_false (fun htable => ?_) hempty
      simp at htable
  · intro hclasses
    have hfilled : api.referenceTypes.entries ≠ [] :=
      mt (entries_referenceTypes_eq_nil_iff api).1 hclasses
    refine ⟨_, constructorEntries_referenceTypes api docs, ?_⟩
    rw [ReferenceTypes.tableLines, if_neg hfilled]
    rfl

/-- **The table of constructors is complete, sorted and free of duplicates.** If the names of
classes are on one line, the core file of every run is the header, the global enums and a table
that has one line for each name of a class, in the order of their bytes, with the Swift name that
the class is declared under. The table is the empty literal exactly if there is no class. -/
theorem core_constructor_table (api : Api) (docs : DocSource) (config : GeneratorConfig)
    (valid : config.check = .ok ()) (oneLine : ∀ e ∈ api.classes, '\n' ∉ e.name.toList) :
    ∃ run core, generate api docs config = .ok run ∧
      CoreFileTable api docs config run core := by
  have hrun := generate_eq_ok valid api docs
  refine ⟨_, api.coreText docs, hrun, ?_⟩
  constructor
  · refine ⟨_, constructorTable_tableLines docs oneLine, ?_⟩
    have hentries := lineFeed_not_mem_of_mem_entries oneLine
    rw [coreText_eq, Api.coreSteps, stepLines_append, unlines_append, render_eq_unlines,
      ReferenceTypes.stepLines_steps hentries, String.append_assoc]
  · exact exists_globalEnumLines ..
  · exact (holdsDeclarations_of_generate hrun).core
  · rw [← Api.declarations_eq_map]
    exact output_eq_partition hrun

/-- Classes that come out of order, one twice and one with a name that is renamed, beside a
built-in type whose file would be the core file. -/
theorem core_constructor_table_of_repeated :
    let api : Api := ⟨none, [], [{ name := "Error", members := [⟨"OK", 0⟩] }],
      [{ name := "./core-defs" }],
      [{ name := "Node", inherits := some "Object" }, { name := "Error" }, { name := "Node" }]⟩
    ({ mode := .perType } : GeneratorConfig).check = .ok () ∧
    (∀ e ∈ api.classes, '\n' ∉ e.name.toList) ∧
    ∃ run core, generate api .empty { mode := .perType } = .ok run ∧
      CoreFileTable api .empty { mode := .perType } run core := by
  intro api
  have valid : ({ mode := .perType } : GeneratorConfig).check = .ok () := by decide
  have oneLine : ∀ e ∈ api.classes, '\n' ∉ e.name.toList := by decide
  exact ⟨valid, oneLine, core_constructor_table api .empty { mode := .perType } valid oneLine⟩

end SwiftDecls
