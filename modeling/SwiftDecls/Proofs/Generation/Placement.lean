import SwiftDecls.Proofs.Generation.FileNames

/-!
# The files that declarations are in

The core text has a file of its own in both output modes. With a single file for each group, a
declaration is in the file of its group, with the declarations of the group in order around it. With
a file for each type, it is alone in the file of its type, unless that file is written again: by a
later declaration with the same path, or as the core file, which is written last. So whatever is
known of the core text and of declarations is known of files (`holdsDeclarations_of_generate`).
-/

set_option autoImplicit false

namespace SwiftDecls

open Text

/-- The file of the declaration's type. -/
def Declaration.path (d : Declaration) : Path := d.group.typeFile d.typeName

/-- What the files of an output hold, over which declarations are spread. -/
structure HoldsDeclarations (mode : OutputMode) (core : String) (declarations : List Declaration)
    (o : Output) : Prop where
  core : o.get? coreFile = some core
  /-- The single file of a group holds the declarations of the group in order. -/
  single : mode = .singleFile → ∀ g : Group, o.get? g.file = some (fileHeader ++
    String.join ((declarations.filter (·.group = g)).map (·.text)))
  /-- The file of a type holds the last declaration that is written to it. -/
  perType : mode = .perType → ∀ before d after, declarations = before ++ d :: after →
    (∀ later ∈ after, ¬ later.path.Same d.path) → ¬ coreFile.Same d.path →
    o.get? d.path = some (fileHeader ++ d.text)

theorem nodup_components_singleFile (core : String) (declarations : List Declaration) :
    ((writtenFiles .singleFile core declarations).map (·.1.components)).Nodup := by
  simp only [writtenFiles, List.map_cons, List.map_nil, components_coreFile, components_file]
  decide

/-- Declarations of whole lines are held by the files that they are spread over. -/
theorem holdsDeclarations_partition (mode : OutputMode) (core : String)
    {declarations : List Declaration} (h : ∀ d ∈ declarations, wholeLines d.text = d.text) :
    HoldsDeclarations mode core declarations (partition mode core declarations) := by
  rw [partition_eq_insertAll]
  constructor
  · cases mode with
    | singleFile =>
      exact Output.get?_insertAll_of_mem (nodup_components_singleFile core declarations)
        (core_mem_writtenFiles _ core declarations)
    | perType => exact Output.get?_insertAll_of_last fun f hf => absurd hf List.not_mem_nil
  · rintro rfl g
    rw [← groupText_of_wholeLines h g]
    exact Output.get?_insertAll_of_mem (nodup_components_singleFile core declarations)
      (group_mem_writtenFiles g core declarations)
  · rintro rfl before d after rfl hlast hcore
    rw [writtenFiles, List.map_append, List.map_cons, List.append_assoc, List.cons_append]
    refine Output.get?_insertAll_of_last fun f hf hsame => ?_
    rcases List.mem_append.1 hf with hf | hf
    · obtain ⟨later, hlater, rfl⟩ := List.mem_map.1 hf
      dsimp only at hsame
      exact hlast later hlater hsame
    · rw [List.mem_singleton.1 hf] at hsame
      exact hcore hsame

/-- **The files of a run hold its core text and its declarations.** -/
theorem holdsDeclarations_of_generate {api : Api} {docs : DocSource} {config : GeneratorConfig}
    {run : Generation} (h : generate api docs config = .ok run) :
    HoldsDeclarations config.mode (api.coreText docs) (api.declarations docs run.classification)
      run.output := by
  rw [output_eq_partition h]
  exact holdsDeclarations_partition config.mode (api.coreText docs) fun d hd =>
    wholeLines_of_mem_declarations hd

end SwiftDecls
