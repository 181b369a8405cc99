import SwiftDecls.Proofs.Except
import SwiftDecls.Proofs.Generation.Files
import SwiftDecls.Proofs.Run.Evaluation

/-!
# The inputs that commands accept

Both commands begin by reading the settings and the description (`Machine.inputs`). After that the
checking command only reports, so it accepts exactly the inputs that can be read
(`result_checkCommand`). The generating command reads the documentation, which cannot fail, and
makes the declarations, which settings that were read cannot forbid: where nothing overrides it,
the build configuration is that of the file, which was looked through, or the default one
(`check_resolve`). So it fails where the inputs cannot be read and otherwise gets as far as writing
(`pastGeneration_generateCommand`), and the two commands accept the same inputs
(`check_accepts_what_generate_accepts`).
-/

set_option autoImplicit false

namespace SwiftDecls

/-- The settings and the description that a command finds on a machine. -/
def Machine.inputs (s : Machine) (config : Option Path) (overrides : Overrides) :
    Except RunFailure (RunSettings × Api) := do
  let settings ← (s.run (loadSettings config overrides)).1
  let api ← (s.run (loadApi settings.api)).1
  return (settings, api)

/-- A failure to read the settings or the description. -/
def RunFailure.isUnread : RunFailure → Bool
  | refusedGeneration _ | unwritten _ _ => false
  | _ => true

/-- The generating command ended well or failed while it wrote. -/
inductive PastGeneration : Except RunFailure Unit → Prop
  | done : PastGeneration (.ok ())
  | unwritten (output place : Path) : PastGeneration (.error (.unwritten output place))

/-- The verdicts of the checking and of the generating command on the same inputs. -/
structure SameVerdict (checked generated : Except RunFailure Unit) : Prop where
  accepted : checked = .ok () ↔ PastGeneration generated
  /-- What the one refuses, the other refuses for the same reason. -/
  refused : ∀ e, checked = .error e → generated = .error e
  /-- No settings are refused as late as by the generation itself. -/
  settings : ∀ e, generated ≠ .error (.refusedGeneration e)

variable {s : Machine} {config : Option Path} {overrides : Overrides}

/-! ## Reading the inputs -/

/-- The inputs are read one after the other. -/
theorem inputs_eq_ok_iff {settings : RunSettings} {description : Api} :
    s.inputs config overrides = .ok (settings, description) ↔
      (s.run (loadSettings config overrides)).1 = .ok settings ∧
        (s.run (loadApi settings.api)).1 = .ok description := by
  simp only [Machine.inputs, bind_eq_ok_iff, pure, Except.pure, Except.ok.injEq, Prod.mk.injEq]
  constructor
  · rintro ⟨_, hsettings, _, hapi, rfl, rfl⟩
    exact ⟨hsettings, hapi⟩
  · rintro ⟨hsettings, hapi⟩
    exact ⟨settings, hsettings, description, hapi, rfl, rfl⟩

theorem inputs_eq_error_iff {e : RunFailure} :
    s.inputs config overrides = .error e ↔
      (s.run (loadSettings config overrides)).1 = .error e ∨
        ∃ settings, (s.run (loadSettings config overrides)).1 = .ok settings ∧
          (s.run (loadApi settings.api)).1 = .error e := by
  simp only [Machine.inputs, bind_eq_error_iff, pure, Except.pure, reduceCtorEq, and_false,
    exists_false, or_false]

/-- Settings are read, looked through and completed. -/
theorem result_loadSettings (s : Machine) (config : Option Path) (overrides : Overrides) :
    (s.run (loadSettings config overrides)).1 =
      match (s.run (loadConfig config)).1 with
      | .error e => .error e
      | .ok c =>
        match c.check with
        | .error e => .error (.refusedConfig e)
        | .ok () => .ok (c.resolve overrides) := by
  unfold loadSettings
  rw [Machine.run_bind]
  rcases s.run (loadConfig config) with ⟨e | c, s₁⟩
  · rfl
  · dsimp only
    cases c.check <;> rfl

theorem failsOnly_loadConfig (named : Option Path) :
    FailsOnly (·.isUnread = true) (loadConfig named : Run (StateM Machine) ConfigFile) := by
  have hpath : FailsOnly (·.isUnread = true)
      (configPath? named : Run (StateM Machine) (Option Path)) := by
    cases named with
    | some path => exact .pure _
    | none => exact .bind (.lift _) fun _ => .pure _
  refine .bind hpath fun path => ?_
  cases path with
  | none => exact .pure _
  | some path =>
    refine .bind (.lift _) fun text => ?_
    cases text with
    | error _ => exact .throw rfl
    | ok text =>
      dsimp only
      split
      · exact .pure _
      · exact .throw rfl

theorem failsOnly_loadSettings (named : Option Path) (overrides : Overrides) :
    FailsOnly (·.isUnread = true)
      (loadSettings named overrides : Run (StateM Machine) RunSettings) := by
  refine .bind (failsOnly_loadConfig named) fun c => ?_
  split
  · exact .throw rfl
  · exact .pure _

theorem failsOnly_loadApi (path : Path) :
    FailsOnly (·.isUnread = true) (loadApi path : Run (StateM Machine) Api) := by
  refine .bind (.lift _) fun text => ?_
  cases text with
  | error _ => exact .throw rfl
  | ok text =>
    dsimp only
    split
    · exact .throw rfl
    · exact .pure _

/-- Inputs that cannot be read are refused as such. -/
theorem isUnread_of_inputs {e : RunFailure} (h : s.inputs config overrides = .error e) :
    e.isUnread = true := by
  rcases inputs_eq_error_iff.1 h with hsettings | ⟨settings, -, hapi⟩
  · exact failsOnly_loadSettings config overrides s e hsettings
  · exact failsOnly_loadApi settings.api s e hapi

/-- Where the documentation is has no influence on whether the inputs can be read. -/
theorem map_inputs_docRoot (s : Machine) (config api docRoot : Option Path) :
    (s.inputs config { api, docRoot }).map (fun _ => ()) =
      (s.inputs config { api }).map fun _ => () := by
  unfold Machine.inputs
  rw [result_loadSettings, result_loadSettings]
  cases (s.run (loadConfig config)).1 with
  | error e => rfl
  | ok c =>
    dsimp only
    cases c.check with
    | error e => rfl
    | ok u =>
      have hpath : (c.resolve { api, docRoot }).api = (c.resolve { api }).api := rfl
      simp only [bind, Except.bind, hpath]
      cases (s.run (loadApi (c.resolve { api }).api)).1 <;> rfl

/-- Settings that a file may have are fit for a run. -/
theorem check_resolve {c : ConfigFile} (h : c.check = .ok ()) (api docRoot : Option Path) :
    (c.resolve { api, docRoot }).generator.check = .ok () := by
  have hdefault : Text.isBlankText defaultBuildConfiguration.toList = false := by decide
  refine check_of_not_blank ?_ _
  cases hbuild : c.buildConfiguration with
  | none => exact hdefault
  | some name =>
    unfold ConfigFile.check at h
    split at h
    · cases h
    · rename_i hblank
      simpa [hbuild] using hblank

/-- Settings that were read are fit for a run. -/
theorem check_of_inputs {api docRoot : Option Path} {settings : RunSettings} {description : Api}
    (h : s.inputs config { api, docRoot } = .ok (settings, description)) :
    settings.generator.check = .ok () := by
  have hsettings := (inputs_eq_ok_iff.1 h).1
  rw [result_loadSettings] at hsettings
  split at hsettings
  · cases hsettings
  · rename_i c _
    split at hsettings
    · cases hsettings
    · rename_i hcheck
      cases hsettings
      exact check_resolve hcheck api docRoot

/-! ## The two commands -/

/-- **Checking accepts what can be read.** -/
theorem result_checkCommand (s : Machine) (config api : Option Path) :
    (s.run (checkCommand config api)).1 = (s.inputs config { api }).map fun _ => () := by
  have hreport : ∀ text : String, Reads (report text : Run (StateM Machine) Unit).run :=
    fun text => reads_tell (.line text)
  have hlines : ∀ lines : List String,
      (s.run (lines.forM report : Run (StateM Machine) Unit)).1 = .ok () := by
    intro lines
    have hsucceeds : Succeeds (lines.forM report : Run (StateM Machine) Unit) :=
      .forM (fun line => succeeds_tell (.line line)) lines
    obtain ⟨_, hok⟩ := hsucceeds.exists_ok s
    exact hok
  unfold checkCommand Machine.inputs
  rw [Reads.result_bind (reads_loadSettings config { api }) fun settings =>
    .bindExcept (hreport _) fun _ => .bindExcept (reads_loadApi settings.api) fun api =>
      .forM hreport _]
  cases (s.run (loadSettings config { api })).1 with
  | error e => rfl
  | ok settings =>
    show (s.run (report _ >>= fun _ => loadApi settings.api >>= _)).1 = _
    rw [Reads.result_bind (hreport _) fun _ => .bindExcept (reads_loadApi settings.api) fun api =>
      .forM hreport _]
    show (s.run (loadApi settings.api >>= _)).1 = _
    rw [Reads.result_bind (reads_loadApi settings.api) fun api => .forM hreport _]
    simp only [hlines]
    cases hapi : (s.run (loadApi settings.api)).1 <;> simp [bind, Except.bind, hapi] <;> rfl

/-- Generating refuses what cannot be read. -/
theorem result_generateCommand_of_error {e : RunFailure}
    (h : s.inputs config overrides = .error e) :
    (s.run (generateCommand config overrides)).1 = .error e := by
  rcases inputs_eq_error_iff.1 h with hsettings | ⟨settings, hsettings, hapi⟩
  · exact Machine.run_bind_error hsettings _
  · unfold generateCommand
    obtain ⟨s₁, hdisk, hrun⟩ := (reads_loadSettings config overrides).run_bind_ok hsettings _
    rw [hrun]
    have hapi₁ : (s₁.run (loadApi settings.api)).1 = .error e :=
      ((reads_loadApi settings.api).result s₁ s hdisk).trans hapi
    exact Machine.run_bind_error (Machine.run_bind_error hapi₁ _) _

/-- With a description and fit settings, nothing but writing can fail. -/
theorem pastGeneration_generateAndWrite {settings : RunSettings} {description : Api}
    (hapi : (s.run (loadApi settings.api)).1 = .ok description)
    (hcheck : settings.generator.check = .ok ()) :
    PastGeneration (s.run (generateAndWrite settings)).1 := by
  unfold generateAndWrite
  obtain ⟨s₁, -, hrun₁⟩ := (reads_loadApi settings.api).run_bind_ok hapi _
  obtain ⟨docs, hdocs⟩ := (succeeds_docsFor settings.docRoot description).exists_ok s₁
  obtain ⟨s₂, -, hrun₂⟩ := (reads_docsFor settings.docRoot description).run_bind_ok hdocs _
  rw [hrun₁, hrun₂, generate_eq_ok hcheck description docs]
  dsimp only
  have hsaid : Succeeds ((description.warnings docs settings.generator.buildConfiguration).forM
      fun w => tell (.warning w) : Run (StateM Machine) Unit) :=
    .forM (fun w => succeeds_tell (.warning w)) _
  obtain ⟨_, hok⟩ := hsaid.exists_ok s₂
  obtain ⟨s₃, -, hrun₃⟩ := (Reads.forM (fun w => reads_tell (.warning w)) _).run_bind_ok hok _
  rw [hrun₃, Machine.run_bind, Machine.run_ask_run]
  generalize (s₃.run (Output.write _ settings.output)).1 = written
  cases written with
  | ok _ => exact .done
  | error place => exact .unwritten settings.output place

/-- Generating gets past generation with inputs that can be read. -/
theorem pastGeneration_generateCommand {settings : RunSettings} {description : Api}
    (h : s.inputs config overrides = .ok (settings, description))
    (hcheck : settings.generator.check = .ok ()) :
    PastGeneration (s.run (generateCommand config overrides)).1 := by
  obtain ⟨hsettings, hapi⟩ := inputs_eq_ok_iff.1 h
  unfold generateCommand
  obtain ⟨s₁, hdisk, hrun⟩ := (reads_loadSettings config overrides).run_bind_ok hsettings _
  have hapi₁ : (s₁.run (loadApi settings.api)).1 = .ok description :=
    ((reads_loadApi settings.api).result s₁ s hdisk).trans hapi
  have hpast := pastGeneration_generateAndWrite hapi₁ hcheck
  rw [hrun, Machine.run_bind]
  revert hpast
  rcases s₁.run (generateAndWrite settings) with ⟨e | _, s₂⟩
  · exact id
  · exact fun _ => .done

/-- **The two commands accept the same inputs.** With the same configuration file and the same
description, wherever the documentation is and whatever is in it, checking succeeds exactly if
generating succeeds or fails while it writes. What checking refuses, generating refuses for the
same reason, and no settings are refused by the generation itself. -/
theorem check_accepts_what_generate_accepts (config api docRoot : Option Path) (s : Machine) :
    SameVerdict (s.run (checkCommand config api)).1
      (s.run (generateCommand config { api, docRoot })).1 := by
  rw [result_checkCommand, ← map_inputs_docRoot s config api docRoot]
  cases hinputs : s.inputs config { api, docRoot } with
  | error e =>
    have hunread := isUnread_of_inputs hinputs
    rw [result_generateCommand_of_error hinputs]
    constructor
    · refine ⟨nofun, fun hpast => ?_⟩
      cases hpast
      cases hunread
    · intro e' he'
      exact he'
    · intro e' he'
      cases he'
      cases hunread
  | ok found =>
    have hpast := pastGeneration_generateCommand hinputs (check_of_inputs hinputs)
    constructor
    · exact ⟨fun _ => hpast, fun _ => rfl⟩
    · intro e he
      cases he
    · intro e he
      rw [he] at hpast
      cases hpast

end SwiftDecls
