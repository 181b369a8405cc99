import SwiftDecls.Proofs.Generation.FileNames
import SwiftDecls.Proofs.Run.Writing

/-!
# What the generating command does to a disk

The command reads the settings, the description and the documentation, makes everything, and only
then writes. So a failure before writing leaves the disk as it was, and a success changes the
files of the output below the output directory and nothing else (`generateCommand_effect`).

No assumption is made about the disk: the output directory may be there or not, hold other files,
be reached through `..`, or be the working directory.
-/

set_option autoImplicit false

namespace SwiftDecls

open Disk Naming

/-- What is made for settings from the files of a machine. -/
structure Makes (s : Machine) (settings : RunSettings) (api : Api) (generation : Generation) :
    Prop where
  readsApi : (s.run (loadApi settings.api)).1 = .ok api
  generates : ∃ docs, (s.run (docsFor settings.docRoot api)).1 = .ok docs ∧
    generate api docs settings.generator = .ok generation

/-- What the command does to the disk of a machine, by how it ends. -/
structure GenerateEffect (s : Machine) (config : Option Path) (overrides : Overrides)
    (result : Except RunFailure Unit) (after : Disk) : Prop where
  failed : ∀ failure, result = .error failure →
    (∀ output place, failure ≠ .unwritten output place) → after = s.disk
  succeeded : result = .ok () → ∃ settings api generation,
    (s.run (loadSettings config overrides)).1 = .ok settings ∧ Makes s settings api generation ∧
    ((∀ g, ∀ n ∈ api.groupNames g, IsWord n) →
      WroteOnly settings.output generation.output.toList s.disk after)

/-- What is made depends on the disk alone. -/
theorem Makes.congr {s s' : Machine} {settings : RunSettings} {api : Api}
    {generation : Generation} (h : Makes s settings api generation) (hdisk : s.disk = s'.disk) :
    Makes s' settings api generation := by
  obtain ⟨hapi, docs, hdocs, hmade⟩ := h
  refine ⟨((reads_loadApi settings.api).result s' s hdisk.symm).trans hapi, docs, ?_, hmade⟩
  exact ((reads_docsFor settings.docRoot api).result s' s hdisk.symm).trans hdocs

/-! ## Files of a run -/

section Files

variable {api : Api} {docs : DocSource} {config : GeneratorConfig} {run : Generation}

theorem isFileInDirectory_of_generate (h : generate api docs config = .ok run)
    (words : ∀ g, ∀ n ∈ api.groupNames g, IsWord n) :
    ∀ f ∈ run.output.toList, f.1.IsFileInDirectory := by
  intro f hf
  rw [output_of_generate h] at hf
  rcases Output.mem_paths_insertAll (List.mem_map_of_mem hf) with hpath | hpath
  · obtain ⟨e, he, hpath⟩ := List.mem_map.1 hpath
    rw [← hpath]
    exact isFileInDirectory_of_mem_writtenFiles words he
  · exact absurd hpath List.not_mem_nil

/-- The files of a run are apart wherever they are put. -/
theorem apart_of_generate (h : generate api docs config = .ok run)
    (words : ∀ g, ∀ n ∈ api.groupNames g, IsWord n) (root : Path) :
    run.output.toList.Pairwise fun f g => Apart (root.join f.1) (root.join g.1) := by
  have hdir := isFileInDirectory_of_generate h words
  have hkeyed : run.output.Keyed := by
    rw [output_of_generate h]
    exact Output.keyed_empty.insertAll _
  refine hkeyed.pairwise_toList.imp_of_mem fun {f g} hf hg hsame => ?_
  exact apart_join root (hdir f hf) (hdir g hg) hsame

end Files

/-! ## The command -/

/-- How making declarations for settings can end. -/
inductive GenerateRun (s : Machine) (settings : RunSettings) :
    Except RunFailure Unit × Machine → Prop
  /-- Before anything was written. -/
  | failed (e : RunFailure) {after : Machine} (unchanged : after.disk = s.disk) :
      GenerateRun s settings (.error e, after)
  /-- While files were written. -/
  | unwritten (place : Path) (after : Machine) :
      GenerateRun s settings (.error (.unwritten settings.output place), after)
  /-- With all files written. -/
  | written {api : Api} {generation : Generation} {start after : Machine}
      (makes : Makes s settings api generation) (unchanged : start.disk = s.disk)
      (write : start.run (generation.output.write settings.output) = (.ok (), after)) :
      GenerateRun s settings (.ok (), after)

theorem generateRun_generateAndWrite (s : Machine) (settings : RunSettings) :
    GenerateRun s settings (s.run (generateAndWrite settings)) := by
  unfold generateAndWrite
  rcases (reads_loadApi settings.api).run_bind _ s with
    ⟨e, s₁, hrun, hdisk⟩ | ⟨api, s₁, hapi, hdisk₁, hrun⟩
  · rw [hrun]
    exact .failed e hdisk
  rw [hrun]
  rcases (reads_docsFor settings.docRoot api).run_bind _ s₁ with
    ⟨e, s₂, hrun, hdisk⟩ | ⟨docs, s₂, hdocs, hdisk₂, hrun⟩
  · rw [hrun]
    exact .failed e (hdisk.trans hdisk₁)
  rw [hrun]
  cases hgenerate : generate api docs settings.generator with
  | error e => exact .failed _ (hdisk₂.trans hdisk₁)
  | ok generation =>
    have hdocs' : (s.run (docsFor settings.docRoot api)).1 = .ok docs :=
      ((reads_docsFor settings.docRoot api).result s s₁ hdisk₁.symm).trans hdocs
    have hwarnings := Reads.forM (fun w => reads_tell (.warning w)) generation.warnings
    rcases hwarnings.run_bind _ s₂ with
      ⟨e, s₃, hrun, hdisk⟩ | ⟨_, s₃, -, hdisk₃, hrun⟩
    · dsimp only
      rw [hrun]
      exact .failed e (hdisk.trans (hdisk₂.trans hdisk₁))
    · dsimp only
      rw [hrun, Machine.run_bind, Machine.run_ask_run]
      rcases hend : s₃.run (generation.output.write settings.output) with ⟨place | _, s₄⟩
      · exact .unwritten place s₄
      · exact .written ⟨hapi, docs, hdocs', hgenerate⟩ (hdisk₃.trans (hdisk₂.trans hdisk₁)) hend

/-- **The command writes nothing before it has made everything, and then its own files only.** If
it fails before it writes, whatever the reason, the disk is as it was. If it succeeds and the
names of declared types are words, then below the output directory there is each file of the
output with its text, and all else on the disk is as it was but for new directories. -/
theorem generateCommand_effect (config : Option Path) (overrides : Overrides) (s : Machine) :
    GenerateEffect s config overrides (s.run (generateCommand config overrides)).1
      (s.run (generateCommand config overrides)).2.disk := by
  have hfailed : ∀ (e : RunFailure) {after : Disk}, after = s.disk →
      GenerateEffect s config overrides (.error e) after :=
    fun e after h => ⟨fun _ _ _ => h, fun hok => by cases hok⟩
  unfold generateCommand
  rcases (reads_loadSettings config overrides).run_bind _ s with
    ⟨e, s₁, hrun, hdisk⟩ | ⟨settings, s₁, hsettings, hdisk₁, hrun⟩
  · rw [hrun]
    exact hfailed e hdisk
  rw [hrun, Machine.run_bind]
  have hgenerate := generateRun_generateAndWrite s₁ settings
  generalize s₁.run (generateAndWrite settings) = out at hgenerate
  cases hgenerate with
  | failed e hdisk => exact hfailed e (hdisk.trans hdisk₁)
  | unwritten place after =>
    constructor
    · intro failure hfailure hnot
      exact absurd (Except.error.inj hfailure).symm (hnot _ _)
    · intro hok
      cases hok
  | @written api generation start after makes hdisk write =>
    have hreport : after.run (report ("✓ Generated Swift declarations in " ++
        settings.output.text) : Run (StateM Machine) Unit) =
          (.ok (), { after with notices := after.notices ++
            [.line ("✓ Generated Swift declarations in " ++ settings.output.text)] }) := rfl
    dsimp only
    rw [hreport]
    refine ⟨fun failure hfailure => (by cases hfailure), fun _ => ?_⟩
    refine ⟨settings, api, generation, hsettings, makes.congr hdisk₁, fun words => ?_⟩
    obtain ⟨-, docs, -, hmade⟩ := makes
    have hwrote := wrote_forM_writeFile (apart_of_generate hmade words settings.output) write
    rwa [hdisk, hdisk₁] at hwrote

/-- A machine with a description of one class beside a file of notes. -/
def notesMachine : Machine where
  disk := (({} : Disk).put ["notes"] (.file .bytes)).put ["api"] (.file (.text
    ("\x7b\"builtin_class_sizes\":[],\"global_enums\":[],\"builtin_classes\":[]," ++
      "\"classes\":[\x7b\"name\":\"Node\"\x7d]\x7d")))

/-- A blank build configuration is refused and leaves the disk as it is. Without it the class is
written and nothing else. -/
theorem generateCommand_effect_of_node :
    let blank : Overrides := { api := some ⟨"api"⟩, buildConfiguration := some " " }
    let perType : Overrides := { api := some ⟨"api"⟩, output := some ⟨"out"⟩, perType := true }
    (notesMachine.run (generateCommand none blank)).1 =
      .error (.refusedGeneration .blankBuildConfiguration) ∧
    (notesMachine.run (generateCommand none blank)).2.disk = notesMachine.disk ∧
    (notesMachine.run (generateCommand none perType)).1 = .ok () ∧
    ∃ settings api generation, Makes notesMachine settings api generation ∧
      WroteOnly settings.output generation.output.toList notesMachine.disk
        (notesMachine.run (generateCommand none perType)).2.disk := by
  intro blank perType
  have hblank : (notesMachine.run (generateCommand none blank)).1 =
      .error (.refusedGeneration .blankBuildConfiguration) := by decide +kernel
  have hperType : (notesMachine.run (generateCommand none perType)).1 = .ok () := by
    decide +kernel
  have hsettings : (notesMachine.run (loadSettings none perType)).1 =
      .ok (ConfigFile.resolve {} perType) := by decide +kernel
  have hapi : (notesMachine.run (loadApi ⟨"api"⟩)).1 =
      .ok ⟨none, [], [], [], [{ name := "Node" }]⟩ := by decide +kernel
  obtain ⟨settings, api, generation, hs, hmakes, hwrote⟩ :=
    (generateCommand_effect none perType notesMachine).succeeded hperType
  obtain rfl := Except.ok.inj (hsettings.symm.trans hs)
  obtain rfl := Except.ok.inj (hapi.symm.trans hmakes.readsApi)
  refine ⟨hblank, ?_, hperType, _, _, generation, hmakes, hwrote ?_⟩
  · exact (generateCommand_effect none blank notesMachine).failed _ hblank nofun
  · intro g
    cases g <;> decide

end SwiftDecls
