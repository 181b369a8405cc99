import SwiftDecls.Proofs.Disk
import SwiftDecls.Proofs.Run.Evaluation

/-!
# Writing the files of an output

A file is written by making the directories that lead to it and giving it its text, and either can
fail (`fileOutcome_writeFile`). Where it does not, nothing but the file is changed
(`frame_writeFile`). Files that are apart are written one after the
other without getting in each other's way, so at the end each has its text, and nothing but them
is changed (`wrote_forM_writeFile`).
-/

set_option autoImplicit false

namespace SwiftDecls

open Disk

/-- Below a directory there are the files of an output with their texts, and nothing else was
written. -/
structure WroteOnly (root : Path) (files : List (Path × String)) (before after : Disk) : Prop where
  texts : ∀ f ∈ files, after.readText (root.join f.1) = .ok f.2
  others : Frame (fun l => ∃ f ∈ files, after.locate? (root.join f.1) = some l) before after

section Machine

variable {s s' : Machine}

theorem run_createDirectories (s : Machine) (p : Path) :
    (Host.createDirectories p : StateM Machine Bool).run s =
      ((s.disk.createDirectories p).2, { s with disk := (s.disk.createDirectories p).1 }) := rfl

theorem run_writeText (s : Machine) (p : Path) (text : String) :
    (Host.writeText p text : StateM Machine Bool).run s =
      ((s.disk.writeText p text).2, { s with disk := (s.disk.writeText p text).1 }) := rfl

/-- A disk on which the directory that holds a path has been made, if there is one to make. -/
inductive MadeParent (d : Disk) (path : Path) : Disk → Prop where
  | root (none : path.parent? = none) : MadeParent d path d
  | directory {parent : Path} (some : path.parent? = some parent)
      (made : (d.createDirectories parent).2 = true) :
      MadeParent d path (d.createDirectories parent).1

/-- How it can end to write a file. -/
inductive FileOutcome (d : Disk) (path : Path) (text : String) : Except Path Unit → Disk → Prop
  where
  /-- The directory cannot be made. -/
  | noParent {parent : Path} (some : path.parent? = some parent)
      (failed : (d.createDirectories parent).2 = false) :
      FileOutcome d path text (.error parent) (d.createDirectories parent).1
  /-- The file cannot be written. -/
  | noFile {made : Disk} (parent : MadeParent d path made)
      (failed : (made.writeText path text).2 = false) :
      FileOutcome d path text (.error path) (made.writeText path text).1
  | written {made : Disk} (parent : MadeParent d path made)
      (wrote : (made.writeText path text).2 = true) :
      FileOutcome d path text (.ok ()) (made.writeText path text).1

theorem fileOutcome_writeFile (s : Machine) (path : Path) (text : String) :
    FileOutcome s.disk path text (s.run (writeFile path text)).1
      (s.run (writeFile path text)).2.disk := by
  -- The text is given when the directories are there, and also where there are none to make.
  have hwrite : ∀ s₁ : Machine, MadeParent s.disk path s₁.disk →
      FileOutcome s.disk path text
        (s₁.run (do
          if !(← ExceptT.lift (Host.writeText path text)) then throw path :
            ExceptT Path (StateM Machine) Unit)).1
        (s₁.run (do
          if !(← ExceptT.lift (Host.writeText path text)) then throw path :
            ExceptT Path (StateM Machine) Unit)).2.disk := by
    intro s₁ hmade
    rw [Machine.run_bind, Machine.run_lift, run_writeText]
    cases hwritten : (s₁.disk.writeText path text).2 with
    | false => exact .noFile hmade hwritten
    | true => exact .written hmade hwritten
  unfold writeFile
  cases hparent : path.parent? with
  | none => exact hwrite s (.root hparent)
  | some parent =>
    dsimp only
    rw [Machine.run_bind, Machine.run_lift, run_createDirectories]
    cases hmade : (s.disk.createDirectories parent).2 with
    | false => exact .noParent hparent hmade
    | true => exact hwrite _ (.directory hparent hmade)

/-- Making the directory of a file makes only directories. -/
theorem MadeParent.frame {d made : Disk} {path : Path} (h : MadeParent d path made)
    (written : Location → Prop) : Frame written d made := by
  cases h with
  | root _ => exact .refl written d
  | directory _ _ => exact frame_createDirectories written d _

/-- Writing a file changes it alone. -/
theorem frame_writeFile {path : Path} {text : String}
    (h : s.run (writeFile path text) = (.ok (), s')) :
    ∃ l, Frame (· = l) s.disk s'.disk ∧ s'.disk.Holds path text l := by
  have houtcome := fileOutcome_writeFile s path text
  rw [h] at houtcome
  generalize hdisk : s'.disk = after at houtcome ⊢
  cases houtcome with
  | written hparent hwrote =>
    obtain ⟨l, hframe, hholds⟩ := frame_writeText hwrote
    exact ⟨l, (hparent.frame _).trans hframe, hholds⟩

/-- **Files that are apart keep their texts** while the others are written. -/
theorem wrote_forM_writeFile {root : Path} {files : List (Path × String)}
    (apart : files.Pairwise fun f g => Apart (root.join f.1) (root.join g.1))
    (h : s.run (files.forM fun (path, text) => writeFile (root.join path) text) = (.ok (), s')) :
    WroteOnly root files s.disk s'.disk := by
  induction files generalizing s with
  | nil =>
    cases h
    exact ⟨fun f hf => absurd hf List.not_mem_nil, .refl _ _⟩
  | cons f rest ih =>
    obtain ⟨hfirst, hrest⟩ := List.pairwise_cons.1 apart
    obtain ⟨_, s₁, hf, hfiles⟩ := Machine.run_bind_ok h
    obtain ⟨l, hframe, hholds⟩ := frame_writeFile hf
    have hwrote := ih hrest hfiles
    have hlocated := hwrote.others.locate? hholds.located
    have hkept : s'.disk.Holds (root.join f.1) f.2 l := by
      refine hwrote.others.holds hholds ?_
      rintro ⟨g, hg, hsame⟩
      exact hfirst g hg _ l hlocated hsame
    constructor
    · intro g hg
      rcases List.mem_cons.1 hg with rfl | hg
      · exact hkept.readText
      · exact hwrote.texts g hg
    · refine (hframe.mono ?_).trans (hwrote.others.mono ?_)
      · rintro _ rfl
        exact ⟨f, List.mem_cons_self, hlocated⟩
      · rintro k ⟨g, hg, hk⟩
        exact ⟨g, List.mem_cons_of_mem f hg, hk⟩

end Machine

end SwiftDecls
