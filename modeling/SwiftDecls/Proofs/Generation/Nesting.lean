import SwiftDecls.Proofs.Declarations.Nesting
import SwiftDecls.Proofs.Generation.Files

/-!
# Generated files are well nested

Every file is the header and the lines of balanced steps, so its brackets match and its lines are
indented by their nesting. This holds for both output modes and any documentation, and needs that
the names and types of the description have no line feed and no bracket. The single file of a
group is the lines of its declarations one after the other, each of which starts and ends at
depth zero.
-/

set_option autoImplicit false

namespace SwiftDecls

open Source Text

theorem nestsTo_headerLines : NestsTo 0 headerLines 0 := by
  have hheader : ∀ line ∈ headerLines, line.head? ≠ some ' ' ∧ IsFlat line := by decide
  have hlines : NestsTo 0 (headerLines.flatMap fun line => [line]) 0 := by
    refine NestsTo.flatMap fun line hline => .single ?_
    obtain ⟨hhead, hflat⟩ := hheader line hline
    have hnests := lineNests_of_isFlat hhead hflat 0
    rwa [indented_zero] at hnests
  rwa [List.flatMap_singleton'] at hlines

/-- The header and lines that lead from depth zero back to it. -/
theorem wellNested_of_nestsTo {ls : List (List Char)} (hlines : AreLines ls)
    (h : NestsTo 0 ls 0) : WellNested (fileHeader ++ unlines ls) := by
  refine NestsTo.wellNested ?_
  rw [fileHeader_eq_unlines, ← unlines_append, textLines_unlines (areLines_headerLines.append hlines)]
  exact (nestsTo_headerLines.append h).append (.single (lineNests_nil 0))

section Flat

variable {api : Api} (flat : AreFlat api.names)

include flat

theorem balanced_coreSteps (docs : DocSource) : Balanced (api.coreSteps docs) := by
  have henums : AreFlat (api.globalEnums.flatMap EnumDefinition.names) :=
    flat.of_subset fun n hn => List.mem_append_left _ (List.mem_append_left _ hn)
  have hclasses : AreFlat (api.classes.map (·.name)) := by
    refine flat.of_subset fun n hn => List.mem_append_right _ ?_
    obtain ⟨c, hc, rfl⟩ := List.mem_map.1 hn
    exact List.mem_flatMap.2 ⟨c, hc, List.mem_cons_self⟩
  exact (balanced_enumSteps _ henums).append (ReferenceTypes.balanced_steps hclasses)

theorem balanced_of_mem_groupSteps {docs : DocSource} {c : Classification} {g : Group}
    {t : TypeSteps} (ht : t ∈ api.groupSteps docs c g) : Balanced t.steps := by
  cases g with
  | builtins =>
    obtain ⟨b, hb, rfl⟩ := List.mem_map.1 ht
    have hbuiltins : AreFlat (api.builtins.flatMap Builtin.names) :=
      flat.of_subset fun n hn => List.mem_append_left _ (List.mem_append_right _ hn)
    exact Builtin.balanced_steps c _ (hbuiltins.of_flatMap (List.mem_of_mem_filter hb))
  | classes =>
    obtain ⟨e, he, rfl⟩ := List.mem_map.1 ht
    have hclasses : AreFlat (api.classes.flatMap EngineClass.names) :=
      flat.of_subset (List.subset_append_right _ _)
    exact EngineClass.balanced_steps _ (hclasses.of_flatMap he)

theorem wellNested_groupText (docs : DocSource) (c : Classification) (g : Group) :
    WellNested (groupText g (api.declarations docs c)) := by
  rw [groupText_eq_unlines]
  refine wellNested_of_nestsTo ?_ (NestsTo.flatMap fun t ht => ?_)
  · intro l hl
    obtain ⟨t, -, hl⟩ := List.mem_flatMap.1 hl
    exact t.areLines_lines l hl
  · exact balanced_of_mem_groupSteps flat ht 0

/-- Every text that is written is well nested. -/
theorem wellNested_of_mem_writtenFiles {mode : OutputMode} {docs : DocSource}
    {c : Classification} {f : Path × String}
    (hf : f ∈ writtenFiles mode (api.coreText docs) (api.declarations docs c)) :
    WellNested f.2 := by
  have hcore : WellNested (api.coreText docs) := by
    rw [coreText_eq]
    exact wellNested_of_nestsTo (areLines_stepLines 0 _) (balanced_coreSteps flat docs 0)
  cases mode with
  | singleFile =>
    simp only [writtenFiles, List.mem_cons, List.not_mem_nil, or_false] at hf
    rcases hf with rfl | rfl | rfl
    · exact hcore
    · exact wellNested_groupText flat docs c _
    · exact wellNested_groupText flat docs c _
  | perType =>
    rw [writtenFiles_perType, Api.typeSteps] at hf
    rcases List.mem_append.1 hf with hf | hf
    · obtain ⟨t, ht, rfl⟩ := List.mem_map.1 hf
      refine wellNested_of_nestsTo t.areLines_lines ?_
      rcases List.mem_append.1 ht with ht | ht
      · exact balanced_of_mem_groupSteps flat ht 0
      · exact balanced_of_mem_groupSteps flat ht 0
    · rw [List.mem_singleton.1 hf]
      exact hcore

end Flat

/-- **Every generated file is well nested and indented by its nesting**, in both output modes and
whatever the documentation, if no name or type of the description has a line feed or a
bracket. -/
theorem generate_wellNested (api : Api) (docs : DocSource) (config : GeneratorConfig)
    (flat : AreFlat api.names) (valid : config.check = .ok ()) :
    ∃ run, generate api docs config = .ok run ∧
      ∀ f ∈ run.output.toList, WellNested f.2 := by
  refine ⟨_, generate_eq_ok valid api docs, fun f hf => ?_⟩
  rcases Output.text_of_mem_insertAll hf with htext | hf
  · obtain ⟨g, hg, htext⟩ := List.mem_map.1 htext
    rw [← htext]
    exact wellNested_of_mem_writtenFiles flat hg
  · cases hf

/-- An option set nested in a value type, an enum inside `Variant` with a dead case, and a class
whose brief text has brackets and a line feed. -/
theorem generate_wellNested_of_brackets :
    let api : Api := ⟨none, [],
      [{ name := "Variant.Type", members := [⟨"TYPE_NIL", 0⟩, ⟨"TYPE_NONE", 0⟩] }],
      [{ name := "Vector2", fields := some [⟨"x", "float"⟩, ⟨"all", "typedarray::Node"⟩],
         enums := some [{ name := "Axis", bitfield := some true, members := [⟨"AXIS_X", -1⟩] }] }],
      [{ name := "Node", inherits := some "Object" }]⟩
    let docs : DocSource := .ofList [{ name := "Node", brief := some "A \x7b [node]]\n \x7d\n" }]
    AreFlat api.names ∧ ({ mode := .perType } : GeneratorConfig).check = .ok () ∧
    ∃ run, generate api docs { mode := .perType } = .ok run ∧
      ∀ f ∈ run.output.toList, WellNested f.2 := by
  intro api docs
  have flat : AreFlat api.names := by decide
  have valid : ({ mode := .perType } : GeneratorConfig).check = .ok () := by decide
  exact ⟨flat, valid, generate_wellNested api docs _ flat valid⟩

end SwiftDecls
