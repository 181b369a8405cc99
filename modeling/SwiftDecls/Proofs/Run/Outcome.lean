import SwiftDecls.Proofs.Disk.Ways
import SwiftDecls.Proofs.Output
import SwiftDecls.Proofs.Run.Writing

/-!
# How writing an output can end

The entries of an output are written in the order of their components, and each one changes the
disk on which the next is tried. Which entry is the first that cannot be written is told from the
disk as it was: an entry is blocked if a file is in the place of a directory that leads to it, from
before or of an entry before it, or if a directory is in its own place (`BlockedAt`). Paths that
the system refuses are blocked as well. Directories made for entries before do not matter, since an
entry whose place leads to another one comes first (`taken_of_later`).

Up to the first blocked entry everything is written, from it on nothing is
(`write_ends_at_first_obstacle`). `Progress.step` is about one entry, `writeOutcome_writeEntries`
about the loop.
-/

set_option autoImplicit false

namespace SwiftDecls

open Disk

/-! ## Where entries are -/

/-- There is a directory in the place of a path, from before or on the way to it. The latter can be
only where the path goes up (`takenByDirectory_iff`). -/
def TakenByDirectory (d : Disk) (path : Path) : Prop :=
  d.isDirectoryAt (d.location path) = true ∨
    ∃ parent, path.parent? = some parent ∧ d.location path ∈ d.wayTo parent

section Places

variable {root p q : Path}

/-- Below a directory a path of names leads down by them from where the directory is. -/
theorem exists_location_join (d : Disk) (root : Path) :
    ∃ stem start, stem <+: root.segments ∧ ∀ p : Path, p.OfNames →
      (root.join p).segments = stem ++ p.segments ∧ d.start (root.join p) = start ∧
      d.location (root.join p) = resolve start stem ++ p.components.map Component.label := by
  obtain ⟨stem, hstem, hjoin⟩ := Path.exists_segments_join root
  refine ⟨stem, d.start root, hstem, fun p hp => ?_⟩
  obtain ⟨hsegments, habsolute⟩ := hjoin p hp.isAbsolute_eq
  have hstart : d.start (root.join p) = d.start root := by rw [start, habsolute, start]
  refine ⟨hsegments, hstart, ?_⟩
  rw [location, hsegments, hstart, resolve_append, resolve_of_up_not_mem _ hp.up_not_mem,
    hp.components_eq_inner]

/-- Paths of names that lead to one location below a directory have the same names. -/
theorem components_eq_of_location_eq {d : Disk} (hp : p.OfNames) (hq : q.OfNames)
    (h : d.location (root.join p) = d.location (root.join q)) : p.components = q.components := by
  obtain ⟨stem, start, -, hjoin⟩ := exists_location_join d root
  rw [(hjoin p hp).2.2, (hjoin q hq).2.2] at h
  rw [← map_name_map_label hp, ← map_name_map_label hq, List.append_cancel_left h]

/-- The way to the directory of a file that is put below another one. -/
theorem exists_parent_join {stem : List String}
    (hsegments : (root.join p).segments = stem ++ p.segments) (hfile : (root.join p).CanBeFile) :
    ∃ leading name parent, p.segments = leading ++ [name] ∧ name ∉ ["", ".", ".."] ∧
      (root.join p).parent? = some parent ∧
      ∀ (d : Disk) (k : Location),
        k ∈ d.wayTo parent ↔ k ∈ way (d.start (root.join p)) (stem ++ leading) := by
  obtain ⟨-, before, name, hsplit, hname, -⟩ := hfile
  obtain ⟨leading, last, hlast⟩ := List.eq_nil_or_concat p.segments |>.resolve_left
    (Text.segments_ne_nil '/' p.text)
  rw [List.concat_eq_append] at hlast
  have hboth : (stem ++ leading) ++ [last] = before ++ [name] := by
    rw [List.append_assoc, ← hlast, ← hsegments, hsplit]
  obtain ⟨rfl, hsame⟩ := List.append_inj' hboth rfl
  obtain rfl : last = name := List.singleton_inj.1 hsame
  obtain ⟨parent, hparent, hway⟩ := exists_parent_way hsplit hname
  exact ⟨leading, last, parent, hlast, hname, hparent, hway⟩

/-- A path that leads to where another one passes on the way to its last name comes before it. -/
theorem compare_of_mem_way {leading : List String} {name : String} {l : Location}
    (hp : p.OfNames) (hq : q.OfNames) (hsplit : p.segments = leading ++ [name])
    (hname : name ∉ ["", ".", ".."])
    (h : l ++ q.components.map Component.label ∈ way l leading) :
    compare q.components p.components = .lt := by
  obtain ⟨passed, hpassed, hlocation⟩ := exists_prefix_of_mem_way h
  have hup : ".." ∉ passed := fun hmem => hp.up_not_mem (by
    rw [hsplit]
    exact List.mem_append_left _ (hpassed.subset hmem))
  rw [resolve_of_up_not_mem _ hup] at hlocation
  obtain ⟨between, hbetween⟩ : Path.innerComponents passed <+: Path.innerComponents leading :=
    hpassed.filterMap _
  have hcomponents : p.components = Path.innerComponents passed ++ (between ++ [.name name]) := by
    rw [hp.components_eq_inner, hsplit, Path.innerComponents, List.filterMap_append,
      List.filterMap_cons_some (ofSegment?_eq_name_iff.2 ⟨rfl, hname⟩), ← List.append_assoc,
      hbetween]
    rfl
  have hpassednames : ∀ c ∈ Path.innerComponents passed, ∃ text, c = .name text := by
    intro c hc
    refine hp c ?_
    rw [hcomponents]
    exact List.mem_append_left _ hc
  rw [hcomponents, ← map_name_map_label hq, List.append_cancel_left hlocation,
    map_name_map_label hpassednames]
  cases between <;> exact compare_append_cons _ _ _

/-- The directories that lead to a file are never in the place of a later one, unless they lead to
that as well. -/
theorem taken_of_later {d : Disk} (hp : p.OfNames) (hq : q.OfNames)
    (hlater : compare p.components q.components = .lt) (hpfile : (root.join p).CanBeFile)
    (hqfile : (root.join q).CanBeFile) {parent : Path} (hparent : (root.join p).parent? = some parent)
    (h : d.location (root.join q) ∈ d.wayTo parent) : TakenByDirectory d (root.join q) := by
  obtain ⟨stem, start, -, hjoin⟩ := exists_location_join d root
  obtain ⟨hpsegments, hpstart, -⟩ := hjoin p hp
  obtain ⟨hqsegments, hqstart, hqlocation⟩ := hjoin q hq
  obtain ⟨leading, name, _, hsplit, hname, hsome, hway⟩ := exists_parent_join hpsegments hpfile
  obtain ⟨_, _, own, -, -, hown, hownway⟩ := exists_parent_join hqsegments hqfile
  obtain rfl := Option.some.inj (hparent.symm.trans hsome)
  rw [hway, hpstart, mem_way_append] at h
  rcases h with hstem | hleading
  · refine .inr ⟨own, hown, ?_⟩
    rw [hownway, hqstart]
    exact mem_way_append.2 (.inl hstem)
  · rw [hqlocation] at hleading
    exact absurd (compare_of_mem_way hp hq hsplit hname hleading)
      (Std.OrientedCmp.not_lt_of_lt hlater)

/-- Below a directory whose path does not go up, nothing on the way to a file is in its place. -/
theorem takenByDirectory_iff {d : Disk} (hroot : ".." ∉ root.segments) (hp : p.OfNames)
    (hfile : (root.join p).CanBeFile) :
    TakenByDirectory d (root.join p) ↔ d.isDirectoryAt (d.location (root.join p)) = true := by
  refine or_iff_left_of_imp ?_
  rintro ⟨own, hown, hmem⟩
  obtain ⟨stem, start, hstem, hjoin⟩ := exists_location_join d root
  obtain ⟨hsegments, hstart, -⟩ := hjoin p hp
  obtain ⟨leading, name, parent, hsplit, hname, hparent, hway⟩ :=
    exists_parent_join hsegments hfile
  obtain rfl := Option.some.inj (hown.symm.trans hparent)
  rw [hway] at hmem
  have hup : ".." ∉ (root.join p).segments := by
    rw [hsegments, List.mem_append, not_or]
    exact ⟨fun hmem => hroot (hstem.subset hmem), hp.up_not_mem⟩
  rw [hsplit, ← List.append_assoc] at hsegments
  -- The last name makes the place longer than all that lead to it.
  obtain ⟨passed, hpassed, hlocation⟩ := exists_prefix_of_mem_way hmem
  rw [location, resolve_of_up_not_mem _ hup, resolve_of_up_not_mem _ fun hmem => hup (by
    rw [hsegments]
    exact List.mem_append_left _ (hpassed.subset hmem))] at hlocation
  have hlength := congrArg List.length (List.append_cancel_left hlocation)
  have hshorter := (hpassed.filterMap Component.ofSegment?).length_le
  have hlast := ofSegment?_eq_name_iff.2 ⟨rfl, hname⟩
  rw [hsegments, List.length_map, List.length_map, Path.innerComponents, Path.innerComponents,
    List.filterMap_append, List.filterMap_cons_some hlast, List.length_append,
    List.length_cons] at hlength
  omega

end Places

/-! ## What blocks an entry -/

/-- There is a file at a location, from before or of an entry that was written. -/
def HoldsFile (d : Disk) (root : Path) (done : List (Path × String)) (l : Location) : Prop :=
  d.IsFileAt l ∨ ∃ f ∈ done, d.location (root.join f.1) = l

/-- A directory that cannot be made: a file is in its place or on the way to it, or its path can be
that of no directory. -/
def Obstructed (d : Disk) (root : Path) (done : List (Path × String)) (directory : Path) : Prop :=
  (∃ l ∈ d.wayTo directory, HoldsFile d root done l) ∨ ¬ directory.CanBeDirectory

/-- The file at a path cannot be written after some entries, and it is told by a place: that of its
directory if it cannot be made, and its own if a directory is there or if it can be that of no
file. -/
inductive BlockedAt (d : Disk) (root : Path) (done : List (Path × String)) (path : Path) :
    Path → Prop where
  | directory {parent : Path} (some : path.parent? = some parent)
      (obstructed : Obstructed d root done parent) : BlockedAt d root done path parent
  | file (clear : ∀ parent, path.parent? = some parent → ¬ Obstructed d root done parent)
      (refused : TakenByDirectory d path ∨ ¬ path.CanBeFile) : BlockedAt d root done path path

/-- No entry is blocked after those before it. -/
def NoneBlocked (d : Disk) (root : Path) (entries : List (Path × String)) : Prop :=
  ∀ done e rest, entries = done ++ e :: rest → ∀ place, ¬ BlockedAt d root done (root.join e.1) place

theorem NoneBlocked.concat {d : Disk} {root : Path} {entries : List (Path × String)}
    {e : Path × String} (h : NoneBlocked d root entries)
    (he : ∀ place, ¬ BlockedAt d root entries (root.join e.1) place) :
    NoneBlocked d root (entries ++ [e]) := by
  intro done f rest hsplit
  rcases List.eq_nil_or_concat rest with rfl | ⟨init, last, rfl⟩
  · obtain ⟨rfl, hsame⟩ := List.append_inj' hsplit rfl
    obtain rfl : e = f := List.singleton_inj.1 hsame
    exact he
  · rw [List.concat_eq_append, ← List.cons_append, ← List.append_assoc] at hsplit
    obtain ⟨hsplit, -⟩ := List.append_inj' hsplit rfl
    exact h done f init hsplit

/-! ## One entry after others -/

/-- A disk on which entries have their texts and nothing else was written. -/
structure Wrote (d : Disk) (root : Path) (done : List (Path × String)) (now : Disk) : Prop where
  frame : Frame (fun l => ∃ f ∈ done, d.location (root.join f.1) = l) d now
  texts : ∀ f ∈ done, now.Holds (root.join f.1) f.2 (d.location (root.join f.1))

/-- A disk on which entries have been written one after the other. -/
structure Progress (d : Disk) (root : Path) (done : List (Path × String)) (now : Disk) : Prop
    extends Wrote d root done now where
  tree : now.IsTree
  files : ∀ f ∈ done, (root.join f.1).CanBeFile
  /-- Directories have been made only to lead to entries. -/
  made : ∀ l, now.isDirectoryAt l = true → d.isDirectoryAt l = true ∨
    ∃ f ∈ done, ∃ parent, (root.join f.1).parent? = some parent ∧ l ∈ d.wayTo parent

section Step

variable {d now made after : Disk} {root path : Path} {done : List (Path × String)}
  {e : Path × String}

theorem Progress.refl (tree : d.IsTree) : Progress d root [] d :=
  ⟨⟨.refl _ d, by simp⟩, tree, by simp, fun _ hl => .inl hl⟩

/-- Directories that are made leave the texts where they are. -/
theorem Wrote.trans (h : Wrote d root done now) (hframe : Frame (fun _ => False) now after) :
    Wrote d root done after :=
  ⟨h.frame.trans (hframe.mono fun _ => False.elim), fun f hf => hframe.holds (h.texts f hf) id⟩

theorem Wrote.wroteOnly (h : Wrote d root done now) : WroteOnly root done d now := by
  refine ⟨fun f hf => (h.texts f hf).readText, h.frame.mono ?_⟩
  rintro l ⟨f, hf, rfl⟩
  exact ⟨f, hf, (h.texts f hf).located⟩

theorem Progress.isFileAt_iff (h : Progress d root done now) {l : Location} :
    now.IsFileAt l ↔ HoldsFile d root done l := by
  by_cases hwritten : ∃ f ∈ done, d.location (root.join f.1) = l
  · refine iff_of_true ?_ (.inr hwritten)
    obtain ⟨f, hf, rfl⟩ := hwritten
    exact ⟨_, (h.texts f hf).node⟩
  · rw [h.frame.isFileAt_iff hwritten, HoldsFile, or_iff_left hwritten]

/-- **A directory can be made unless it is obstructed.** -/
theorem Progress.createDirectories_iff (h : Progress d root done now) (directory : Path) :
    (now.createDirectories directory).2 = true ↔ ¬ Obstructed d root done directory := by
  rw [Disk.createDirectories_iff h.tree, h.frame.wayTo, Obstructed, not_or, not_not, and_comm]
  simp only [h.isFileAt_iff, not_exists, not_and]

/-- Then all directories that lead to a file are there, and nothing else has been made. -/
structure LeadsTo (d : Disk) (root : Path) (done : List (Path × String)) (path : Path)
    (now made : Disk) : Prop where
  tree : made.IsTree
  clear : ∀ parent, path.parent? = some parent → ¬ Obstructed d root done parent
  directories : ∀ parent, path.parent? = some parent → ∀ l ∈ d.wayTo parent,
    made.isDirectoryAt l = true
  made : ∀ l, made.isDirectoryAt l = true → now.isDirectoryAt l = true ∨
    ∃ parent, path.parent? = some parent ∧ l ∈ d.wayTo parent

theorem Progress.leadsTo (h : Progress d root done now) (hmade : MadeParent now path made) :
    LeadsTo d root done path now made := by
  cases hmade with
  | root hnone =>
    refine ⟨h.tree, fun parent hparent => ?_, fun parent hparent => ?_, fun _ hl => .inl hl⟩ <;>
      · rw [hnone] at hparent
        cases hparent
  | @directory parent hsome hok =>
    refine ⟨h.tree.createDirectories parent, fun q hq => ?_, fun q hq l hl => ?_, fun l hl => ?_⟩
    · obtain rfl := Option.some.inj (hsome.symm.trans hq)
      exact (h.createDirectories_iff parent).1 hok
    · obtain rfl := Option.some.inj (hsome.symm.trans hq)
      rw [← h.frame.wayTo] at hl
      exact isDirectoryAt_of_createDirectories h.tree hok hl
    · by_cases hsame : (now.createDirectories parent).1.node? l = now.node? l
      · rw [isDirectoryAt, hsame] at hl
        exact .inl hl
      · have hway := mem_wayTo_of_createDirectories hsame
        rw [h.frame.wayTo] at hway
        exact .inr ⟨parent, hsome, hway⟩

/-- **The file can then be written unless a directory is in its place.** -/
theorem LeadsTo.writeText_iff (h : LeadsTo d root done path now made) (hwrote : Wrote d root done made)
    (text : String) : (made.writeText path text).2 = true ↔
      path.CanBeFile ∧ made.isDirectoryAt (d.location path) = false := by
  rw [← hwrote.frame.location]
  refine Disk.writeText_iff (fun leading name hsegments hname k hk => ?_) text
  obtain ⟨parent, hparent, hway⟩ := exists_parent_way hsegments hname
  rw [hwrote.frame.start] at hk
  exact h.directories parent hparent k ((hway d k).2 hk)

/-- Whether a directory is in its place does not depend on what was made for entries before. -/
theorem LeadsTo.isDirectoryAt_iff (h : LeadsTo d root done path now made)
    (hprogress : Progress d root done now) (hwrote : Wrote d root done made)
    (hbefore : ∀ f ∈ done, ∀ parent, (root.join f.1).parent? = some parent →
      d.location path ∈ d.wayTo parent → TakenByDirectory d path) :
    made.isDirectoryAt (d.location path) = true ↔ TakenByDirectory d path := by
  constructor
  · intro hdirectory
    rcases h.made _ hdirectory with hnow | hown
    · rcases hprogress.made _ hnow with hold | ⟨f, hf, parent, hparent, hway⟩
      · exact .inl hold
      · exact hbefore f hf parent hparent hway
    · exact .inr hown
  · rintro (hold | ⟨parent, hparent, hway⟩)
    · exact hwrote.frame.directory _ hold
    · exact h.directories parent hparent _ hway

/-- How it ends to write one more entry. -/
inductive StepOutcome (d : Disk) (root : Path) (done : List (Path × String)) (e : Path × String) :
    Except Path Unit → Disk → Prop where
  | stopped {place : Path} {after : Disk} (blocked : BlockedAt d root done (root.join e.1) place)
      (wrote : Wrote d root done after) : StepOutcome d root done e (.error place) after
  | written {after : Disk} (clear : ∀ place, ¬ BlockedAt d root done (root.join e.1) place)
      (progress : Progress d root (done ++ [e]) after) : StepOutcome d root done e (.ok ()) after

/-- A further text is written where no entry is. -/
theorem Progress.concat (h : Progress d root done now) (hmade : MadeParent now (root.join e.1) made)
    (hfile : (root.join e.1).CanBeFile)
    (hapart : ∀ f ∈ done, d.location (root.join f.1) ≠ d.location (root.join e.1))
    (hwritten : (made.writeText (root.join e.1) e.2).2 = true) :
    Progress d root (done ++ [e]) (made.writeText (root.join e.1) e.2).1 := by
  have hleads := h.leadsTo hmade
  have hwrote := h.toWrote.trans (hmade.frame _)
  obtain ⟨l, hframe, hholds⟩ := frame_writeText hwritten
  obtain rfl : l = d.location (root.join e.1) := by
    rw [hholds.eq_location, hframe.location, hwrote.frame.location]
  refine ⟨⟨?_, ?_⟩, hleads.tree.writeText _ _, ?_, fun l hl => ?_⟩
  · refine (hwrote.frame.mono ?_).trans (hframe.mono ?_)
    · rintro l ⟨f, hf, rfl⟩
      exact ⟨f, List.mem_append_left _ hf, rfl⟩
    · rintro l rfl
      exact ⟨e, List.mem_concat_self, rfl⟩
  · refine List.forall_mem_append.2 ⟨fun f hf => ?_, List.forall_mem_singleton.2 hholds⟩
    exact hframe.holds (hwrote.texts f hf) (hapart f hf)
  · exact List.forall_mem_append.2 ⟨h.files, List.forall_mem_singleton.2 hfile⟩
  · rcases hleads.made l (isDirectoryAt_of_writeText hl) with hnow | ⟨parent, hparent, hway⟩
    · rcases h.made l hnow with hold | ⟨f, hf, parent, hparent, hway⟩
      · exact .inl hold
      · exact .inr ⟨f, List.mem_append_left _ hf, parent, hparent, hway⟩
    · exact .inr ⟨e, List.mem_concat_self, parent, hparent, hway⟩

/-- An entry that comes after others in the order of the components. -/
def ComesAfter (done : List (Path × String)) (e : Path × String) : Prop :=
  ∀ f ∈ done, f.1.OfNames ∧ compare f.1.components e.1.components = .lt

theorem ComesAfter.location_ne (h : ComesAfter done e) (he : e.1.OfNames) :
    ∀ f ∈ done, d.location (root.join f.1) ≠ d.location (root.join e.1) := by
  intro f hf hsame
  obtain ⟨hnames, hlater⟩ := h f hf
  rw [components_eq_of_location_eq hnames he hsame] at hlater
  exact Std.OrientedCmp.not_lt_of_lt hlater hlater

/-- **When its directories are there, an entry can be written unless a directory is in its place.**
Its path must be one of a file. -/
theorem Progress.writeText_iff (h : Progress d root done now) (he : e.1.OfNames)
    (hlater : ComesAfter done e) (hmade : MadeParent now (root.join e.1) made) :
    (made.writeText (root.join e.1) e.2).2 = true ↔
      ¬ (TakenByDirectory d (root.join e.1) ∨ ¬ (root.join e.1).CanBeFile) := by
  have hleads := h.leadsTo hmade
  have hwrote := h.toWrote.trans (hmade.frame _)
  rw [hleads.writeText_iff hwrote, not_or, not_not, and_comm]
  refine and_congr_left fun hfile => ?_
  rw [← Bool.not_eq_true, hleads.isDirectoryAt_iff h hwrote]
  intro f hf parent hparent hway
  obtain ⟨hnames, hafter⟩ := hlater f hf
  exact taken_of_later hnames he hafter (h.files f hf) hfile hparent hway

/-- **One more entry.** It is written unless it is blocked. -/
theorem Progress.step (h : Progress d root done now) (he : e.1.OfNames) (hlater : ComesAfter done e)
    {result : Except Path Unit} (houtcome : FileOutcome now (root.join e.1) e.2 result after) :
    StepOutcome d root done e result after := by
  cases houtcome with
  | @noParent parent hsome hfailed =>
    refine .stopped (.directory hsome ?_) (h.toWrote.trans (frame_createDirectories _ now parent))
    rw [← Bool.not_eq_true, h.createDirectories_iff, not_not] at hfailed
    exact hfailed
  | @noFile made hmade hfailed =>
    rw [writeText_of_failed hfailed]
    rw [← Bool.not_eq_true, h.writeText_iff he hlater hmade, not_not] at hfailed
    exact .stopped (.file (h.leadsTo hmade).clear hfailed) (h.toWrote.trans (hmade.frame _))
  | @written made hmade hwritten =>
    have hfree := (h.writeText_iff he hlater hmade).1 hwritten
    have hfile : (root.join e.1).CanBeFile := not_not.1 (not_or.1 hfree).2
    refine .written (fun place hblocked => ?_)
      (h.concat hmade hfile (hlater.location_ne he) hwritten)
    cases hblocked with
    | directory hsome hobstructed => exact (h.leadsTo hmade).clear _ hsome hobstructed
    | file _ hrefused => exact hfree hrefused

end Step

/-! ## All entries -/

/-- What the entries that come before the end of writing are and what becomes of the others. -/
inductive WriteOutcome (d : Disk) (root : Path) (entries : List (Path × String)) :
    Except Path Unit → Disk → Prop where
  | written {after : Disk} (clear : NoneBlocked d root entries)
      (wrote : WroteOnly root entries d after) : WriteOutcome d root entries (.ok ()) after
  /-- An entry is blocked. Those before it are not and have their texts, and where it and those
  behind it lead no file is made or changed. -/
  | stopped {done rest : List (Path × String)} {e : Path × String} {place : Path} {after : Disk}
      (split : entries = done ++ e :: rest) (clear : NoneBlocked d root done)
      (blocked : BlockedAt d root done (root.join e.1) place) (wrote : WroteOnly root done d after)
      (untouched : ∀ f ∈ e :: rest, ∀ c : Content,
        after.node? (d.location (root.join f.1)) = some (.file c) ↔
          d.node? (d.location (root.join f.1)) = some (.file c)) :
      WriteOutcome d root entries (.error place) after

/-- Entries in the order of the components of their paths. -/
def InOrder (entries : List (Path × String)) : Prop :=
  entries.Pairwise fun f g => compare f.1.components g.1.components = .lt

variable {d : Disk} {root : Path}

theorem InOrder.comesAfter {done rest : List (Path × String)} {e : Path × String}
    (h : InOrder (done ++ rest)) (hnames : ∀ f ∈ done, f.1.OfNames) (he : e ∈ rest) :
    ComesAfter done e := fun f hf =>
  ⟨hnames f hf, (List.pairwise_append.1 h).2.2 f hf e he⟩

/-- Writing entries below a directory. -/
def writeEntries (root : Path) (entries : List (Path × String)) :
    ExceptT Path (StateM Machine) Unit :=
  entries.forM fun (path, text) => writeFile (root.join path) text

theorem writeEntries_cons (root : Path) (e : Path × String) (rest : List (Path × String)) :
    writeEntries root (e :: rest) =
      (writeFile (root.join e.1) e.2 >>= fun _ => writeEntries root rest) := rfl

/-- **The loop over the entries**, from any one of them on. -/
theorem writeOutcome_writeEntries {done rest : List (Path × String)} {s : Machine}
    (hprogress : Progress d root done s.disk) (hclear : NoneBlocked d root done)
    (hnames : ∀ f ∈ done ++ rest, f.1.OfNames) (horder : InOrder (done ++ rest)) :
    WriteOutcome d root (done ++ rest) (s.run (writeEntries root rest)).1
      (s.run (writeEntries root rest)).2.disk := by
  induction rest generalizing done s with
  | nil =>
    rw [List.append_nil]
    exact .written hclear hprogress.wroteOnly
  | cons e rest ih =>
    obtain ⟨hdone, hrest⟩ := List.forall_mem_append.1 hnames
    have he := hrest e List.mem_cons_self
    have hstep := hprogress.step he (horder.comesAfter hdone List.mem_cons_self)
      (fileOutcome_writeFile s (root.join e.1) e.2)
    rw [writeEntries_cons, Machine.run_bind]
    generalize s.run (writeFile (root.join e.1) e.2) = out at hstep
    obtain ⟨result, s₁⟩ := out
    generalize hdisk : s₁.disk = after at hstep
    cases hstep with
    | stopped hblocked hwrote =>
      dsimp only
      rw [hdisk]
      refine .stopped rfl hclear hblocked hwrote.wroteOnly fun f hf => hwrote.frame.file_iff ?_
      rintro ⟨g, hg, hsame⟩
      exact (horder.comesAfter hdone hf).location_ne (hrest f hf) g hg hsame
    | written hfree hnext =>
      have hsplit : done ++ e :: rest = (done ++ [e]) ++ rest := by simp
      rw [hsplit] at hnames horder ⊢
      rw [← hdisk] at hnext
      exact ih hnext (hclear.concat hfree) hnames horder

/-- It fails if and only if an entry is blocked. -/
theorem WriteOutcome.exists_error_iff {entries : List (Path × String)} {after : Disk}
    {result : Except Path Unit} (h : WriteOutcome d root entries result after) :
    (∃ place, result = .error place) ↔ ∃ done e rest place, entries = done ++ e :: rest ∧
      BlockedAt d root done (root.join e.1) place := by
  cases h with
  | written clear _ =>
    refine iff_of_false nofun ?_
    rintro ⟨done, e, rest, place, split, blocked⟩
    exact clear done e rest split place blocked
  | stopped split _ blocked _ _ => exact iff_of_true ⟨_, rfl⟩ ⟨_, _, _, _, split, blocked⟩

/-- **Where writing an output ends.** Its entries are in the order of their components, and all of
them are written if none is blocked. Otherwise it fails at the first blocked one: it names its
directory or itself, the entries before have their texts, and no other file is made or changed. -/
theorem write_ends_at_first_obstacle (files : List (Path × String))
    (names : ∀ f ∈ files, f.1.OfNames) (root : Path) (s : Machine) (tree : s.disk.IsTree) :
    let o := ({} : Output).insertAll files
    InOrder o.toList ∧
    WriteOutcome s.disk root o.toList (s.run (o.write root)).1 (s.run (o.write root)).2.disk ∧
    ((∃ place, (s.run (o.write root)).1 = .error place) ↔
      ∃ done e rest place, o.toList = done ++ e :: rest ∧
        BlockedAt s.disk root done (root.join e.1) place) := by
  intro o
  have hpaths : ∀ f ∈ o.toList, f.1.OfNames := by
    intro f hf
    rcases Output.mem_paths_insertAll (List.mem_map_of_mem hf) with hwritten | hnone
    · obtain ⟨g, hg, hpath⟩ := List.mem_map.1 hwritten
      rw [← hpath]
      exact names g hg
    · exact absurd hnone List.not_mem_nil
  have horder : InOrder o.toList := (Output.keyed_empty.insertAll files).ascending_toList
  have hnone : NoneBlocked s.disk root [] := fun done e rest hsplit => by simp at hsplit
  have houtcome := writeOutcome_writeEntries (.refl tree) hnone hpaths horder
  exact ⟨horder, houtcome, houtcome.exists_error_iff⟩

/-- Two files, of which the second needs a directory where the first is. -/
def fileAndBelow : List (Path × String) := [(⟨"a"⟩, "x"), (⟨"a/b"⟩, "y")]

/-- Of these the first is written, and the second is blocked by it. -/
theorem write_ends_at_written_file :
    (∀ f ∈ fileAndBelow, f.1.OfNames) ∧ ({} : Disk).IsTree ∧
    ∃ after, WriteOutcome {} ⟨"out"⟩ fileAndBelow (.error ⟨"out/a"⟩) after := by
  have hnames : ∀ f ∈ fileAndBelow, f.1.OfNames := by
    have hfirst : (⟨"a"⟩ : Path).components = [.name "a"] := by decide
    have hsecond : (⟨"a/b"⟩ : Path).components = [.name "a", .name "b"] := by decide
    simp [fileAndBelow, Path.OfNames, hfirst, hsecond]
  have hlist : (({} : Output).insertAll fileAndBelow).toList = fileAndBelow := by decide +kernel
  have hrun : (({ disk := {} } : Machine).run
      ((({} : Output).insertAll fileAndBelow).write ⟨"out"⟩)).1 = .error ⟨"out/a"⟩ := by
    decide +kernel
  obtain ⟨-, houtcome, -⟩ :=
    write_ends_at_first_obstacle fileAndBelow hnames ⟨"out"⟩ { disk := {} } isTree_empty
  rw [hlist, hrun] at houtcome
  exact ⟨hnames, isTree_empty, _, houtcome⟩

/-- A path that ends with a slash has the components of a file, and there is neither a file in the
way nor a directory in its place. Still it cannot be written. -/
theorem slash_at_end_fails :
    let path : Path := ⟨"a/"⟩
    let root : Path := ⟨"out"⟩
    let s : Machine := { disk := {} }
    let o := ({} : Output).insert path "x"
    path.components = [.name "a"] ∧ o.toList = [(path, "x")] ∧ s.disk.IsTree ∧
    (s.run (o.write root)).1 = .error ⟨"out/a/"⟩ ∧
    ¬ ((∃ place, (s.run (o.write root)).1 = .error place) ↔
      (∃ parent, (root.join path).parent? = some parent ∧
        ∃ l ∈ s.disk.wayTo parent, HoldsFile s.disk root [] l) ∨
      s.disk.isDirectoryAt (s.disk.location (root.join path)) = true) := by
  intro path root s o
  have hrun : (s.run (o.write root)).1 = .error ⟨"out/a/"⟩ := by decide +kernel
  refine ⟨by decide, by decide +kernel, isTree_empty, hrun, fun hiff => ?_⟩
  rcases hiff.1 ⟨_, hrun⟩ with ⟨parent, -, l, -, ⟨c, hc⟩ | ⟨f, hf, -⟩⟩ | hdirectory
  · cases l <;> cases hc
  · cases hf
  · revert hdirectory
    decide +kernel

end SwiftDecls
