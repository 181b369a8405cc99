import Mathlib.Data.List.Basic
import SwiftDecls.Proofs.Disk
import SwiftDecls.Proofs.Run.Evaluation

/-!
# Documentation on a disk

What a command reads of the documentation of a name depends on the file of the name alone
(`Disk.doc`), and for the names that a description asks for the source it makes answers just that
(`exists_docsFor`). Documentation fails to load if something is there that is no text or whose text
is refused (`Disk.FailsToLoad`, `Disk.doc_eq_error_iff`).

Failing files can be removed from a disk (`Disk.withoutFailing`). That leaves what every other path
leads to as it is, since no path goes through a file (`Disk.at?_removeFiles`), and so all other
documentation, also where it shares a file (`Disk.losesFailing_withoutFailing`).
-/

set_option autoImplicit false

namespace SwiftDecls

namespace Disk

variable {d d' : Disk} {root : Path} {name : String}

/-- What is read of the documentation of a name. -/
def doc (d : Disk) (root : Path) (name : String) : Except DocError (Option ClassDoc) :=
  if (d.at? (docPath root name)).isSome then
    match d.readText (docPath root name) with
    | .error failure => .error (.unreadable failure)
    | .ok text => (ClassDoc.read text).map some
  else .ok none

/-- There is something under the name of a documentation file, but no documentation. -/
inductive FailsToLoad (d : Disk) (root : Path) (name : String) : DocError → Prop where
  /-- What is there has no text. -/
  | unreadable {failure : ReadFailure} (present : (d.at? (docPath root name)).isSome = true)
      (read : d.readText (docPath root name) = .error failure) :
      FailsToLoad d root name (.unreadable failure)
  /-- The text is refused. -/
  | refused {text : String} {error : DocError} (read : d.readText (docPath root name) = .ok text)
      (refused : ClassDoc.read text = .error error) : FailsToLoad d root name error

theorem present_of_readText {p : Path} {text : String} (h : d.readText p = .ok text) :
    (d.at? p).isSome = true := by
  unfold readText at h
  split at h <;> simp_all

/-- Reading fails exactly where documentation fails to load. -/
theorem doc_eq_error_iff {error : DocError} :
    d.doc root name = .error error ↔ d.FailsToLoad root name error := by
  constructor
  · intro h
    unfold doc at h
    split at h
    · rename_i present
      split at h
      · rename_i failure read
        cases h
        exact .unreadable present read
      · rename_i text read
        cases hread : ClassDoc.read text with
        | ok doc =>
          rw [hread] at h
          cases h
        | error e =>
          rw [hread] at h
          cases h
          exact .refused read hread
    · cases h
  · intro h
    cases h with
    | unreadable present read => rw [doc, if_pos present, read]
    | refused read refused =>
      rw [doc, if_pos (present_of_readText read), read]
      dsimp only
      rw [refused]
      rfl

/-- What is read depends on what is there. -/
theorem doc_congr {name' : String}
    (h : d.at? (docPath root name) = d'.at? (docPath root name')) :
    d.doc root name = d'.doc root name' := by
  rw [doc, doc, readText, readText, h]

end Disk

/-! ## What is read -/

theorem run_loadDoc (s : Machine) (root : Path) (name : String) :
    (loadDoc root name : StateM Machine (Except DocError (Option ClassDoc))).run s =
      (s.disk.doc root name, s) := by
  have hpresent : (Host.pathExists (docPath root name) : StateM Machine Bool).run s =
      ((s.disk.at? (docPath root name)).isSome, s) := rfl
  have hread : (Host.readText (docPath root name) : StateM Machine (Except ReadFailure String)).run
      s = (s.disk.readText (docPath root name), s) := rfl
  rw [loadDoc, StateT.run_bind, hpresent, Disk.doc]
  cases (s.disk.at? (docPath root name)).isSome with
  | false => rfl
  | true =>
    show StateT.run (Host.readText (docPath root name) >>= _) s = _
    rw [StateT.run_bind, hread]
    cases s.disk.readText (docPath root name) <;> rfl

/-- Several answers that leave the machine as it is. -/
theorem run_mapM {α β : Type} {f : α → StateM Machine β} {g : Machine → α → β}
    (h : ∀ a s, (f a).run s = (g s a, s)) (as : List α) (s : Machine) :
    (as.mapM f).run s = (as.map (g s), s) := by
  induction as with
  | nil => rfl
  | cons a rest ih =>
    rw [List.mapM_cons, StateT.run_bind, h]
    show StateT.run (rest.mapM f >>= _) s = _
    rw [StateT.run_bind, ih]
    rfl

/-- **The documentation of the names that a description asks for is read from the disk.** -/
theorem exists_docsFor (s : Machine) (root : Path) (api : Api) :
    ∃ docs, (s.run (docsFor (some root) api)).1 = .ok docs ∧
      ∀ name ∈ api.documentedNames, docs name = s.disk.doc root name := by
  let answers : DocSource := fun name =>
    ((api.documentedNames.map fun n => (n, s.disk.doc root n)).lookup name).getD (.ok none)
  have hdocs : ∀ s' : Machine, s'.disk = s.disk →
      ((loadDocs root api.documentedNames : StateM Machine DocSource).run s').1 = answers := by
    intro s' hdisk
    have hrun : ∀ (n : String) (s : Machine),
        StateT.run (do return (n, ← loadDoc root n) :
          StateM Machine (String × Except DocError (Option ClassDoc))) s =
          ((n, s.disk.doc root n), s) := by
      intro n s
      rw [StateT.run_bind, run_loadDoc]
      rfl
    rw [loadDocs, StateT.run_bind, run_mapM (g := fun s n => (n, s.disk.doc root n)) hrun, hdisk]
    rfl
  refine ⟨answers, ?_, fun name hname => ?_⟩
  · -- Without the directory there is a warning first, which leaves the disk as it is.
    have hask : ∀ s' : Machine, s'.disk = s.disk →
        (s'.run (ask (loadDocs root api.documentedNames) :
          Run (StateM Machine) DocSource)).1 = .ok answers := by
      intro s' hdisk
      rw [← hdocs s' hdisk]
      rfl
    unfold docsFor
    obtain ⟨present, hpresent⟩ : ∃ present, s.run (ask (Host.isDirectory root) :
        Run (StateM Machine) Bool) = (.ok present, s) := ⟨_, rfl⟩
    simp only [Machine.run_bind, hpresent]
    cases present with
    | false => exact hask _ rfl
    | true => exact hask s rfl
  · have hlookup := List.lookup_graph (fun n => s.disk.doc root n) hname
    show (List.lookup name _).getD (Except.ok none) = _
    rw [hlookup, Option.getD_some]

/-! ## Removed files -/

namespace Disk

variable {d : Disk} {root : Path} {name : String} {names : List String}

/-- The disk without the files at some locations. Directories are no files and stay. -/
def removeFiles (d : Disk) (p : Location → Bool) : Disk :=
  { d with nodes := d.nodes.filter fun l n => !p l || n == .directory }

/-- What is at a location fails to load as the documentation of one of some names. -/
def failsAt (d : Disk) (root : Path) (names : List String) (l : Location) : Bool :=
  names.any fun name => d.locate? (docPath root name) == some l && !(d.doc root name).isOk

/-- The disk without the files of documentation that fails to load. -/
def withoutFailing (d : Disk) (root : Path) (names : List String) : Disk :=
  d.removeFiles (d.failsAt root names)

/-- Documentation that failed to load may be gone, and all other documentation is what it was. -/
def LosesFailing (root : Path) (names : List String) (before after : Disk) : Prop :=
  ∀ name ∈ names, after.doc root name = before.doc root name ∨
    after.doc root name = .ok none ∧ ∃ e, before.FailsToLoad root name e

theorem node?_removeFiles (d : Disk) (p : Location → Bool) (l : Location) :
    (d.removeFiles p).node? l = (d.node? l).filter fun n => !p l || n == .directory := by
  have hroot : (some Node.directory).filter (fun n => !p l || n == .directory) =
      some .directory := Option.filter_some_pos (by simp)
  unfold node? removeFiles
  split
  · exact hroot.symm
  · exact SortedMap.get?_filter _ _ _

theorem isDirectoryAt_removeFiles (d : Disk) (p : Location → Bool) (l : Location) :
    (d.removeFiles p).isDirectoryAt l = d.isDirectoryAt l := by
  rw [isDirectoryAt, isDirectoryAt, node?_removeFiles]
  cases d.node? l with
  | none => rfl
  | some n => cases n <;> cases p l <;> rfl

/-- From what is no directory no segment leads on. -/
theorem follow?_of_not_directory {l : Location} {segments : List String}
    (h : d.isDirectoryAt l = false) (hne : segments ≠ []) : d.follow? l segments = none := by
  obtain ⟨segment, rest, rfl⟩ := List.exists_cons_of_ne_nil hne
  rw [follow?_cons, enter?, if_pos (by simp [h]), Option.bind_none]

/-- Where a void or upward segment leads depends on directories only. -/
theorem enter?_removeFiles {l : Location} {segment : String} (p : Location → Bool)
    (h : segment ∈ ["", ".", ".."]) :
    (d.removeFiles p).enter? l segment = d.enter? l segment := by
  simp only [List.mem_cons, List.not_mem_nil, or_false] at h
  rcases h with rfl | rfl | rfl <;> simp [enter?, isDirectoryAt_removeFiles]

/-- Removing files leaves the way to everything else. -/
theorem bind_follow?_removeFiles (d : Disk) (p : Location → Bool) (l : Location)
    (segments : List String) :
    ((d.removeFiles p).follow? l segments).bind (d.removeFiles p).node? =
      (d.follow? l segments).bind (d.removeFiles p).node? := by
  induction segments generalizing l with
  | nil => rfl
  | cons segment rest ih =>
    rw [follow?_cons, follow?_cons, Option.bind_assoc, Option.bind_assoc]
    by_cases hname : segment ∈ ["", ".", ".."]
    · rw [enter?_removeFiles p hname]
      exact Option.bind_congr fun k _ => ih k
    cases hdir : d.isDirectoryAt l with
    | false =>
      have hdir' := (isDirectoryAt_removeFiles d p l).trans hdir
      rw [enter?, enter?, if_pos (by simp [hdir']), if_pos (by simp [hdir])]
      rfl
    | true =>
      have hdir' := (isDirectoryAt_removeFiles d p l).trans hdir
      rw [enter?_name hdir' hname, enter?_name hdir hname]
      have hnode := node?_removeFiles d p (l ++ [segment])
      cases hleft : (d.removeFiles p).node? (l ++ [segment]) with
      | some n =>
        have hthere : (d.node? (l ++ [segment])).isSome = true := by
          rw [hleft] at hnode
          exact Option.isSome_of_isSome_filter _ _ (by rw [← hnode, Option.isSome_some])
        rw [if_pos (Option.isSome_some), if_pos hthere]
        exact ih _
      | none =>
        -- What is gone was a file, so nothing follows it on the way.
        rw [if_neg (by simp), Option.bind_none]
        split
        · rename_i hthere
          rw [Option.bind_some]
          by_cases hrest : rest = []
          · rw [hrest, follow?_nil, Option.bind_some, hleft]
          · have hfile : d.isDirectoryAt (l ++ [segment]) = false := by
              rw [← isDirectoryAt_removeFiles d p, isDirectoryAt, hleft]
              rfl
            rw [follow?_of_not_directory hfile hrest, Option.bind_none]
        · rfl

/-- What a path leads to is what is left there. -/
theorem at?_removeFiles (d : Disk) (p : Location → Bool) (q : Path) :
    (d.removeFiles p).at? q = (d.locate? q).bind (d.removeFiles p).node? := by
  rw [at?, locate?, locate?]
  split
  · exact bind_follow?_removeFiles d p (d.start q) q.segments
  · rfl

/-- Where one documentation fails, every other one in the same place does. -/
theorem failsToLoad_of_failsAt {l : Location} (hl : d.locate? (docPath root name) = some l)
    (h : d.failsAt root names l = true) : ∃ e, d.FailsToLoad root name e := by
  obtain ⟨other, -, hother⟩ := List.any_eq_true.1 h
  rw [Bool.and_eq_true, beq_iff_eq] at hother
  have hsame : d.doc root name = d.doc root other :=
    doc_congr (by rw [at?, at?, hl, hother.1])
  cases hdoc : d.doc root name with
  | error e => exact ⟨e, doc_eq_error_iff.1 hdoc⟩
  | ok found =>
    rw [← hsame, hdoc] at hother
    exact absurd hother.2 (by simp [Except.isOk, Except.toBool])

/-- **Without the files that fail to load, all other documentation is what it was.** -/
theorem losesFailing_withoutFailing (d : Disk) (root : Path) (names : List String) :
    LosesFailing root names d (d.withoutFailing root names) := by
  intro name _
  have hleft : (d.withoutFailing root names).at? (docPath root name) =
      (d.locate? (docPath root name)).bind (d.withoutFailing root names).node? :=
    at?_removeFiles ..
  cases hl : d.locate? (docPath root name) with
  | none =>
    have hat : d.at? (docPath root name) = none := by rw [at?, hl, Option.bind_none]
    exact .inl (doc_congr (by rw [hleft, hl, hat, Option.bind_none]))
  | some l =>
    have hat : d.at? (docPath root name) = d.node? l := by rw [at?, hl, Option.bind_some]
    rw [hl, Option.bind_some, withoutFailing, node?_removeFiles] at hleft
    cases hfails : d.failsAt root names l with
    | false =>
      refine .inl (doc_congr ?_)
      rw [withoutFailing, hleft, hat, hfails]
      cases d.node? l <;> rfl
    | true =>
      have hfailed := failsToLoad_of_failsAt hl hfails
      rw [hfails] at hleft
      cases hnode : d.node? l with
      | none => exact .inl (doc_congr (by rw [withoutFailing, hleft, hat, hnode]; rfl))
      | some n =>
        rw [hnode] at hleft hat
        cases n with
        | directory => exact .inl (doc_congr (by rw [withoutFailing, hleft, hat]; rfl))
        | file content =>
          have hgone : (d.withoutFailing root names).at? (docPath root name) = none := hleft
          refine .inr ⟨?_, hfailed⟩
          rw [doc, hgone]
          rfl

end Disk

end SwiftDecls
