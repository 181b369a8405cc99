import SwiftDecls.Disk
import SwiftDecls.Run

/-!
# Commands on a machine

A part of a command takes a machine to a result and a machine (`Machine.run`). Parts that only ask
and say leave the disk as it is, and what they answer depends on the disk alone (`Reads`); such
parts put together are one again. Everything a command does before it writes is of this kind
(`reads_loadSettings`, `reads_loadApi`, `reads_docsFor`).

How a part can fail is put together from its parts as well (`FailsOnly`). Some cannot fail at all
(`Succeeds`): those that say something, and the one that reads the documentation
(`succeeds_docsFor`).
-/

set_option autoImplicit false

namespace SwiftDecls

variable {ε α β : Type}

/-- The result of a part of a command, and the machine afterwards. -/
def Machine.run (s : Machine) (x : ExceptT ε (StateM Machine) α) : Except ε α × Machine :=
  StateT.run x.run s

namespace Machine

/-- The result of a part with failures of its own. -/
theorem run_ask_run (s : Machine) (x : ExceptT ε (StateM Machine) α) :
    s.run (ask x.run : Run (StateM Machine) (Except ε α)) = (.ok (s.run x).1, (s.run x).2) := rfl

theorem run_lift (s : Machine) (x : StateM Machine α) :
    s.run (ExceptT.lift x : ExceptT ε (StateM Machine) α) = (.ok (x.run s).1, (x.run s).2) := rfl

/-- The second part runs where the first one ends well. -/
theorem run_bind (s : Machine) (x : ExceptT ε (StateM Machine) α)
    (f : α → ExceptT ε (StateM Machine) β) :
    s.run (x >>= f) =
      match s.run x with
      | (.ok a, s') => s'.run (f a)
      | (.error e, s') => (.error e, s') := by
  have hbind : s.run (x >>= f) =
      StateT.run (ExceptT.bindCont f (s.run x).1) (s.run x).2 := rfl
  rw [hbind]
  rcases s.run x with ⟨_ | _, s'⟩ <;> rfl

/-- Where both parts end well, the second runs on the machine that the first leaves. -/
theorem run_bind_ok {s s' : Machine} {x : ExceptT ε (StateM Machine) α}
    {f : α → ExceptT ε (StateM Machine) β} {b : β} (h : s.run (x >>= f) = (.ok b, s')) :
    ∃ a s₁, s.run x = (.ok a, s₁) ∧ s₁.run (f a) = (.ok b, s') := by
  rw [run_bind] at h
  rcases hx : s.run x with ⟨e | a, s₁⟩
  · rw [hx] at h
    cases h
  · rw [hx] at h
    exact ⟨a, s₁, rfl, h⟩

/-- Where the first part fails, both together fail. -/
theorem run_bind_error {s : Machine} {x : ExceptT ε (StateM Machine) α} {e : ε}
    (h : (s.run x).1 = .error e) (f : α → ExceptT ε (StateM Machine) β) :
    (s.run (x >>= f)).1 = .error e := by
  rw [run_bind]
  rcases hx : s.run x with ⟨e' | a, s₁⟩
  · rw [hx] at h
    cases h
    rfl
  · rw [hx] at h
    cases h

end Machine

/-- A part that asks and says: it leaves the disk as it is, and its result depends on the disk
alone. -/
structure Reads (x : StateM Machine α) : Prop where
  disk : ∀ s, (x.run s).2.disk = s.disk
  result : ∀ s s', s.disk = s'.disk → (x.run s).1 = (x.run s').1

namespace Reads

theorem pure (a : α) : Reads (Pure.pure a : StateM Machine α) := ⟨fun _ => rfl, fun _ _ _ => rfl⟩

theorem bind {x : StateM Machine α} {f : α → StateM Machine β} (hx : Reads x)
    (hf : ∀ a, Reads (f a)) : Reads (x >>= f) := by
  have hrun : ∀ s, (x >>= f).run s = (f (x.run s).1).run (x.run s).2 := fun _ => rfl
  refine ⟨fun s => ?_, fun s s' h => ?_⟩
  · rw [hrun, (hf _).disk, hx.disk]
  · rw [hrun, hrun, hx.result s s' h]
    refine (hf _).result _ _ ?_
    rw [hx.disk, hx.disk, h]

/-- An answer that is computed from the disk. -/
theorem of_disk {x : StateM Machine α} (f : Disk → α) (h : ∀ s, x.run s = (f s.disk, s)) :
    Reads x := by
  refine ⟨fun s => by rw [h], fun s s' hdisk => ?_⟩
  rw [h, h, hdisk]

theorem readText (p : Path) : Reads (Host.readText p) := of_disk (·.readText p) fun _ => rfl

theorem pathExists (p : Path) : Reads (Host.pathExists p) :=
  of_disk (fun d => (d.at? p).isSome) fun _ => rfl

theorem isDirectory (p : Path) : Reads (Host.isDirectory p) :=
  of_disk (fun d => d.at? p == some .directory) fun _ => rfl

theorem isFile (p : Path) : Reads (Host.isFile p) := by
  constructor
  · intro s
    simp only [Host.isFile, StateT.run_bind, StateT.run_get, pure_bind]
    split <;> rfl
  · intro s s' h
    simp only [Host.isFile, StateT.run_bind, StateT.run_get, pure_bind, h]
    split <;> rfl

theorem say (n : Notice) : Reads (Host.say n : StateM Machine Unit) :=
  ⟨fun _ => rfl, fun _ _ _ => rfl⟩

theorem mapM {f : α → StateM Machine β} (hf : ∀ a, Reads (f a)) (as : List α) :
    Reads (as.mapM f) := by
  induction as with
  | nil => exact pure []
  | cons a rest ih =>
    rw [List.mapM_cons]
    exact (hf a).bind fun b => ih.bind fun bs => pure _

/-! ## Parts that may fail -/

theorem pureExcept (a : α) : Reads (Pure.pure a : ExceptT ε (StateM Machine) α).run := pure _

theorem throw (e : ε) : Reads (MonadExcept.throw e : ExceptT ε (StateM Machine) α).run := pure _

theorem lift {x : StateM Machine α} (hx : Reads x) :
    Reads (ExceptT.lift x : ExceptT ε (StateM Machine) α).run :=
  ⟨hx.disk, fun s s' h => congrArg Except.ok (hx.result s s' h)⟩

theorem bindExcept {x : ExceptT ε (StateM Machine) α} {f : α → ExceptT ε (StateM Machine) β}
    (hx : Reads x.run) (hf : ∀ a, Reads (f a).run) : Reads (x >>= f).run := by
  have hcont : ∀ r, Reads (ExceptT.bindCont f r) := by
    rintro (e | a)
    · exact pure _
    · exact hf a
  exact hx.bind hcont

theorem forM {f : α → ExceptT ε (StateM Machine) Unit} (hf : ∀ a, Reads (f a).run)
    (as : List α) : Reads (as.forM f).run := by
  induction as with
  | nil => exact pureExcept ()
  | cons a rest ih => exact bindExcept (hf a) fun _ => ih

/-- The results of two parts that ask, one after the other. -/
theorem result_bind {x : ExceptT ε (StateM Machine) α} {f : α → ExceptT ε (StateM Machine) β}
    (hx : Reads x.run) (hf : ∀ a, Reads (f a).run) (s : Machine) :
    (s.run (x >>= f)).1 = (s.run x).1 >>= fun a => (s.run (f a)).1 := by
  have hdisk : (s.run x).2.disk = s.disk := hx.disk s
  rw [Machine.run_bind]
  revert hdisk
  rcases s.run x with ⟨e | a, s₁⟩
  · exact fun _ => rfl
  · exact fun hdisk => (hf a).result s₁ s hdisk

/-- It fails and leaves the disk as it is, or the next part starts from there. -/
theorem run_bind {x : ExceptT ε (StateM Machine) α} (hx : Reads x.run)
    (f : α → ExceptT ε (StateM Machine) β) (s : Machine) :
    (∃ (e : ε) (s₁ : Machine), s.run (x >>= f) = (.error e, s₁) ∧ s₁.disk = s.disk) ∨
      ∃ (a : α) (s₁ : Machine), (s.run x).1 = .ok a ∧ s₁.disk = s.disk ∧
        s.run (x >>= f) = s₁.run (f a) := by
  have hdisk : (s.run x).2.disk = s.disk := hx.disk s
  rw [Machine.run_bind]
  revert hdisk
  rcases s.run x with ⟨e | a, s₁⟩
  · exact fun hdisk => .inl ⟨e, s₁, rfl, hdisk⟩
  · exact fun hdisk => .inr ⟨a, s₁, rfl, hdisk, rfl⟩

/-- The next part starts from the same disk with what was read. -/
theorem run_bind_ok {x : ExceptT ε (StateM Machine) α} (hx : Reads x.run) {s : Machine} {a : α}
    (h : (s.run x).1 = .ok a) (f : α → ExceptT ε (StateM Machine) β) :
    ∃ s₁ : Machine, s₁.disk = s.disk ∧ s.run (x >>= f) = s₁.run (f a) := by
  rcases hx.run_bind f s with ⟨e, s₁, hrun, -⟩ | ⟨a', s₁, ha, hdisk, hrun⟩
  · rcases hend : s.run x with ⟨e' | a', s₂⟩
    · rw [hend] at h
      cases h
    · have hdisk : s₂.disk = s.disk := by
        have hx' : (s.run x).2.disk = s.disk := hx.disk s
        rwa [hend] at hx'
      rw [hend] at h
      obtain rfl := Except.ok.inj h
      exact ⟨s₂, hdisk, by rw [Machine.run_bind, hend]⟩
  · obtain rfl : a' = a := Except.ok.inj (ha.symm.trans h)
    exact ⟨s₁, hdisk, hrun⟩

end Reads

/-- All failures of a part are of one kind. -/
def FailsOnly (p : ε → Prop) (x : ExceptT ε (StateM Machine) α) : Prop :=
  ∀ (s : Machine) (e : ε), (s.run x).1 = .error e → p e

namespace FailsOnly

variable {p : ε → Prop}

theorem pure (a : α) : FailsOnly p (Pure.pure a : ExceptT ε (StateM Machine) α) := by
  intro s e h
  cases h

theorem throw {e : ε} (h : p e) :
    FailsOnly p (MonadExcept.throw e : ExceptT ε (StateM Machine) α) := by
  intro s e' h'
  cases h'
  exact h

theorem lift (x : StateM Machine α) :
    FailsOnly p (ExceptT.lift x : ExceptT ε (StateM Machine) α) := by
  intro s e h
  cases h

theorem bind {x : ExceptT ε (StateM Machine) α} {f : α → ExceptT ε (StateM Machine) β}
    (hx : FailsOnly p x) (hf : ∀ a, FailsOnly p (f a)) : FailsOnly p (x >>= f) := by
  intro s e h
  rw [Machine.run_bind] at h
  rcases hend : s.run x with ⟨e' | a, s₁⟩
  · rw [hend] at h
    cases h
    apply hx s
    rw [hend]
  · rw [hend] at h
    exact hf a s₁ e h

theorem forM {f : α → ExceptT ε (StateM Machine) Unit} (hf : ∀ a, FailsOnly p (f a))
    (as : List α) : FailsOnly p (as.forM f) := by
  induction as with
  | nil => exact pure ()
  | cons a rest ih => exact bind (hf a) fun _ => ih

end FailsOnly

/-- A part that ends well on every machine. -/
abbrev Succeeds (x : ExceptT ε (StateM Machine) α) : Prop := FailsOnly (fun _ => False) x

theorem Succeeds.exists_ok {x : ExceptT ε (StateM Machine) α} (h : Succeeds x) (s : Machine) :
    ∃ a, (s.run x).1 = .ok a := by
  cases hend : (s.run x).1 with
  | error e => exact (h s e hend).elim
  | ok a => exact ⟨a, rfl⟩

/-! ## What comes before writing -/

theorem reads_tell (n : Notice) : Reads (tell n : Run (StateM Machine) Unit).run :=
  .lift (.say n)

theorem reads_configPath? (named : Option Path) :
    Reads (configPath? named : Run (StateM Machine) (Option Path)).run := by
  cases named with
  | some path => exact .pureExcept _
  | none => exact .bindExcept (.lift (.isFile _)) fun _ => .pureExcept _

theorem reads_loadConfig (named : Option Path) :
    Reads (loadConfig named : Run (StateM Machine) ConfigFile).run := by
  refine .bindExcept (reads_configPath? named) fun path => ?_
  cases path with
  | none => exact .pureExcept _
  | some path =>
    refine .bindExcept (.lift (.readText path)) fun text => ?_
    cases text with
    | error _ => exact .throw _
    | ok text =>
      dsimp only
      split
      · exact .pureExcept _
      · exact .throw _

/-- Reading the settings leaves the disk as it is. -/
theorem reads_loadSettings (named : Option Path) (overrides : Overrides) :
    Reads (loadSettings named overrides : Run (StateM Machine) RunSettings).run := by
  refine .bindExcept (reads_loadConfig named) fun config => ?_
  split
  · exact .throw _
  · exact .pureExcept _

/-- Reading the description leaves the disk as it is. -/
theorem reads_loadApi (path : Path) : Reads (loadApi path : Run (StateM Machine) Api).run := by
  refine .bindExcept (.lift (.readText path)) fun text => ?_
  cases text with
  | error _ => exact .throw _
  | ok text =>
    dsimp only
    split
    · exact .throw _
    · exact .pureExcept _

theorem reads_loadDoc (root : Path) (name : String) :
    Reads (loadDoc root name : StateM Machine (Except DocError (Option ClassDoc))) := by
  refine .bind (.pathExists _) fun present => ?_
  split
  · refine .bind (.readText _) fun text => ?_
    cases text with
    | error _ => exact .pure _
    | ok _ => exact .pure _
  · exact .pure _

/-- Reading the documentation leaves the disk as it is. -/
theorem reads_docsFor (root : Option Path) (api : Api) :
    Reads (docsFor root api : Run (StateM Machine) DocSource).run := by
  cases root with
  | none => exact .pureExcept _
  | some root =>
    have hdocs : Reads (loadDocs root api.documentedNames : StateM Machine DocSource) :=
      .bind (.mapM (fun name => .bind (reads_loadDoc root name) fun _ => .pure _) _) fun _ =>
        .pure _
    refine .bindExcept (.lift (.isDirectory root)) fun present => ?_
    cases present with
    | false => exact .bindExcept (reads_tell _) fun _ => .lift hdocs
    | true => exact .lift hdocs

theorem succeeds_tell (n : Notice) : Succeeds (tell n : Run (StateM Machine) Unit) :=
  .lift (Host.say n)

/-- No documentation makes a command fail. -/
theorem succeeds_docsFor (root : Option Path) (api : Api) :
    Succeeds (docsFor root api : Run (StateM Machine) DocSource) := by
  cases root with
  | none => exact .pure _
  | some root =>
    refine .bind (.lift _) fun present => ?_
    cases present with
    | false => exact .bind (succeeds_tell _) fun _ => .lift _
    | true => exact .lift _

end SwiftDecls
