import Mathlib.Data.List.Basic
import SwiftDecls.Proofs.Disk

/-!
# Where paths lead and what is in the way

A path leads through a list of locations, which does not depend on what is there (`Disk.way`), and
to the last of them. On a disk that is a tree (`Disk.IsTree`) directories can be made along a way
exactly if no file is in it and no name is too long, and then all of it is directories
(`makesWay_makeDirectories`). A text can be given to a file exactly if the path can name a file and
leads to no directory (`writeText_iff`).
-/

set_option autoImplicit false

namespace SwiftDecls.Disk

/-! ## Ways -/

/-- Where a segment leads from a directory. -/
def stepTo (l : Location) (segment : String) : Location :=
  if IsVoid segment then l else if segment = ".." then l.dropLast else l ++ [segment]

/-- Where segments lead from a directory. -/
def resolve (l : Location) (segments : List String) : Location := segments.foldl stepTo l

/-- The locations that segments lead through, with the first and the last. -/
def way (l : Location) : List String → List Location
  | [] => [l]
  | segment :: rest => l :: way (stepTo l segment) rest

@[simp] theorem resolve_nil (l : Location) : resolve l [] = l := rfl

@[simp] theorem resolve_cons (l : Location) (segment : String) (rest : List String) :
    resolve l (segment :: rest) = resolve (stepTo l segment) rest := rfl

theorem resolve_append (l : Location) (as bs : List String) :
    resolve l (as ++ bs) = resolve (resolve l as) bs := List.foldl_append

theorem mem_way_self (l : Location) (segments : List String) : l ∈ way l segments := by
  cases segments <;> exact List.mem_cons_self

theorem resolve_mem_way (l : Location) (segments : List String) :
    resolve l segments ∈ way l segments := by
  induction segments generalizing l with
  | nil => exact List.mem_cons_self
  | cons segment rest ih => exact List.mem_cons_of_mem l (ih (stepTo l segment))

theorem mem_way_append {l k : Location} {as bs : List String} :
    k ∈ way l (as ++ bs) ↔ k ∈ way l as ∨ k ∈ way (resolve l as) bs := by
  induction as generalizing l with
  | nil =>
    refine ⟨.inr, fun h => h.elim (fun hk => ?_) id⟩
    rw [List.mem_singleton.1 hk]
    exact mem_way_self l bs
  | cons segment rest ih =>
    rw [List.cons_append, way, List.mem_cons, ih, way, List.mem_cons, or_assoc, resolve_cons]

/-- Void segments lead nowhere. -/
theorem stepTo_of_void (l : Location) {segment : String} (h : IsVoid segment) :
    stepTo l segment = l := if_pos h

theorem stepTo_of_name (l : Location) {name : String} (h : name ∉ ["", ".", ".."]) :
    stepTo l name = l ++ [name] := by
  simp only [List.mem_cons, List.not_mem_nil, or_false, not_or] at h
  rw [stepTo, if_neg (by simp [IsVoid, h]), if_neg h.2.2]

theorem mem_way_of_void {l k : Location} {segments : List String}
    (h : ∀ s ∈ segments, IsVoid s) : k ∈ way l segments ↔ k = l := by
  induction segments with
  | nil => exact List.mem_singleton
  | cons segment rest ih =>
    obtain ⟨hsegment, hrest⟩ := List.forall_mem_cons.1 h
    rw [way, stepTo_of_void l hsegment, List.mem_cons, ih hrest, or_self]

/-- Void segments at the end of a way add nothing to it. -/
theorem mem_way_append_void {l k : Location} {as bs : List String} (h : ∀ s ∈ bs, IsVoid s) :
    k ∈ way l (as ++ bs) ↔ k ∈ way l as := by
  rw [mem_way_append, mem_way_of_void h]
  refine or_iff_left_of_imp fun hk => ?_
  rw [hk]
  exact resolve_mem_way l as

/-- Every location of a way is where a beginning of it leads. -/
theorem exists_prefix_of_mem_way {l k : Location} {segments : List String}
    (h : k ∈ way l segments) : ∃ leading, leading <+: segments ∧ k = resolve l leading := by
  induction segments generalizing l with
  | nil => exact ⟨[], List.nil_prefix, List.mem_singleton.1 h⟩
  | cons segment rest ih =>
    rcases List.mem_cons.1 h with rfl | hrest
    · exact ⟨[], List.nil_prefix, rfl⟩
    · obtain ⟨leading, hleading, rfl⟩ := ih hrest
      exact ⟨segment :: leading, List.cons_prefix_cons.2 ⟨rfl, hleading⟩, rfl⟩

/-- Segments that do not go up lead down by their names. -/
theorem resolve_of_up_not_mem (l : Location) {segments : List String} (h : ".." ∉ segments) :
    resolve l segments = l ++ (Path.innerComponents segments).map Component.label := by
  induction segments generalizing l with
  | nil => exact (List.append_nil l).symm
  | cons segment rest ih =>
    obtain ⟨hup, hrest⟩ : ".." ≠ segment ∧ ".." ∉ rest := by simpa using h
    rw [resolve_cons, ih _ hrest]
    by_cases hvoid : IsVoid segment
    · have hnone := ofSegment?_eq_none_iff.2 hvoid
      rw [stepTo_of_void l hvoid, Path.innerComponents, Path.innerComponents,
        List.filterMap_cons_none hnone]
    · have hname : segment ∉ ["", ".", ".."] := by
        simpa [IsVoid, hup.symm, not_or] using hvoid
      have hsome := ofSegment?_eq_name_iff.2 ⟨rfl, hname⟩
      rw [stepTo_of_name l hname, Path.innerComponents, Path.innerComponents,
        List.filterMap_cons_some hsome, List.map_cons, List.append_assoc]
      rfl

theorem eq_stepTo_of_enter? {d : Disk} {l k : Location} {segment : String}
    (h : d.enter? l segment = some k) : k = stepTo l segment := by
  have hdir := isDirectoryAt_of_enter? h
  by_cases hname : segment ∈ ["", ".", ".."]
  · simp only [List.mem_cons, List.not_mem_nil, or_false] at hname
    rcases hname with rfl | rfl | rfl <;> simpa [enter?, hdir, stepTo, IsVoid] using h.symm
  · rw [enter?_name hdir hname] at h
    split at h
    · rw [stepTo_of_name l hname, Option.some.inj h]
    · cases h

/-- Where segments lead on a disk is where they lead. -/
theorem eq_resolve_of_follow? {d : Disk} {l k : Location} {segments : List String}
    (h : d.follow? l segments = some k) : k = resolve l segments := by
  induction segments generalizing l with
  | nil => exact (Option.some.inj h).symm
  | cons segment rest ih =>
    rw [follow?_cons] at h
    obtain ⟨l', hl', hrest⟩ := Option.bind_eq_some_iff.1 h
    rw [ih hrest, resolve_cons, eq_stepTo_of_enter? hl']

/-- The location that a path leads to. -/
def location (d : Disk) (p : Path) : Location := resolve (d.start p) p.segments

/-- The locations that a path leads through. -/
def wayTo (d : Disk) (p : Path) : List Location := way (d.start p) p.segments

section Frame

variable {d d' : Disk} {written : Location → Prop}

theorem Frame.location (h : Frame written d d') (p : Path) : d'.location p = d.location p := by
  rw [Disk.location, h.start, Disk.location]

theorem Frame.wayTo (h : Frame written d d') (p : Path) : d'.wayTo p = d.wayTo p := by
  rw [Disk.wayTo, h.start, Disk.wayTo]

end Frame

/-! ## Trees -/

/-- There is a file at a location. -/
def IsFileAt (d : Disk) (l : Location) : Prop := ∃ c, d.node? l = some (.file c)

/-- A disk is a tree of directories with files: everything is in a directory, and no name is too
long. -/
structure IsTree (d : Disk) : Prop where
  here : d.isDirectoryAt d.here = true
  parent : ∀ l, (d.node? l).isSome = true → d.isDirectoryAt l.dropLast = true
  names : ∀ l, (d.node? l).isSome = true → ∀ name ∈ l, isUsableName name = true

variable {d : Disk} {l : Location}

theorem isFileAt_iff :
    d.IsFileAt l ↔ (d.node? l).isSome = true ∧ d.isDirectoryAt l = false := by
  rw [IsFileAt, isDirectoryAt]
  cases d.node? l with
  | none => simp
  | some n => cases n <;> simp

theorem isSome_node?_of_isDirectoryAt (h : d.isDirectoryAt l = true) :
    (d.node? l).isSome = true := by
  rw [isDirectoryAt_iff.1 h]
  rfl

theorem not_isFileAt_of_isDirectoryAt (h : d.isDirectoryAt l = true) : ¬ d.IsFileAt l := by
  rw [isFileAt_iff, h]
  exact fun hfile => nomatch hfile.2

/-- From a directory a segment that is no name leads on. -/
theorem enter?_of_not_name (hl : d.isDirectoryAt l = true) {segment : String}
    (hname : segment ∈ ["", ".", ".."]) : d.enter? l segment = some (stepTo l segment) := by
  simp only [List.mem_cons, List.not_mem_nil, or_false] at hname
  rcases hname with rfl | rfl | rfl <;> simp [enter?, hl, stepTo, IsVoid]

/-- The disk with nothing on it is a tree. -/
theorem isTree_empty : ({} : Disk).IsTree := by
  have hroot : ∀ l : Location, (({} : Disk).node? l).isSome = true → l = [] := by
    intro l hl
    cases l with
    | nil => rfl
    | cons name rest => cases hl
  refine ⟨rfl, fun l hl => ?_, fun l hl => ?_⟩ <;> rw [hroot l hl]
  · rfl
  · exact fun _ hname => absurd hname List.not_mem_nil

namespace IsTree

theorem start (h : d.IsTree) (p : Path) : d.isDirectoryAt (d.start p) = true := by
  unfold Disk.start
  split
  · rfl
  · exact h.here

/-- From a directory a segment that is no name leads to a directory. -/
theorem stepTo_of_not_name (h : d.IsTree) (hl : d.isDirectoryAt l = true) {segment : String}
    (hname : segment ∈ ["", ".", ".."]) : d.isDirectoryAt (stepTo l segment) = true := by
  have hparent := h.parent l (isSome_node?_of_isDirectoryAt hl)
  simp only [List.mem_cons, List.not_mem_nil, or_false] at hname
  rcases hname with rfl | rfl | rfl <;> simp [hl, stepTo, IsVoid, hparent]

/-- What is put into a directory under a usable name leaves a tree, if no directory is replaced. -/
theorem put (h : d.IsTree) {name : String} (hl : d.isDirectoryAt l = true)
    (hname : isUsableName name = true) (hnew : d.isDirectoryAt (l ++ [name]) = false) (n : Node) :
    (d.put (l ++ [name]) n).IsTree := by
  have hdirectory : ∀ k, d.isDirectoryAt k = true →
      (d.put (l ++ [name]) n).isDirectoryAt k = true := by
    intro k hk
    have hne : k ≠ l ++ [name] := by
      rintro rfl
      rw [hnew] at hk
      cases hk
    rwa [isDirectoryAt, node?_put_of_ne _ _ hne]
  have hpresent : ∀ k, ((d.put (l ++ [name]) n).node? k).isSome = true →
      k = l ++ [name] ∨ (d.node? k).isSome = true := by
    intro k hk
    by_cases hne : k = l ++ [name]
    · exact .inl hne
    · rw [node?_put_of_ne _ _ hne] at hk
      exact .inr hk
  refine ⟨hdirectory _ h.here, fun k hk => ?_, fun k hk => ?_⟩
  · rcases hpresent k hk with rfl | hk
    · rw [List.dropLast_concat]
      exact hdirectory l hl
    · exact hdirectory _ (h.parent k hk)
  · rcases hpresent k hk with rfl | hk
    · intro m hm
      rcases List.mem_append.1 hm with hm | hm
      · exact h.names l (isSome_node?_of_isDirectoryAt hl) m hm
      · rwa [List.mem_singleton.1 hm]
    · exact h.names k hk

end IsTree

/-- Outside of what is written no file is made or changed. -/
theorem Frame.file_iff {d' : Disk} {written : Location → Prop} (h : Frame written d d')
    (hl : ¬ written l) (c : Content) :
    d'.node? l = some (.file c) ↔ d.node? l = some (.file c) := by
  rcases h.outside l hl with hsame | ⟨hnone, hdirectory⟩
  · rw [hsame]
  · rw [hdirectory, hnone]
    exact iff_of_false nofun nofun

theorem Frame.isFileAt_iff {d' : Disk} {written : Location → Prop} (h : Frame written d d')
    (hl : ¬ written l) : d'.IsFileAt l ↔ d.IsFileAt l := exists_congr (h.file_iff hl)

/-! ## Making directories -/

/-- Directories that are made along a way. -/
structure MakesWay (d : Disk) (l : Location) (segments : List String) (made : Disk × Bool) :
    Prop where
  /-- No name is too long and no file is in the way. -/
  iff : made.2 = true ↔ (∀ s ∈ segments, isUsableName s = true) ∧
    ∀ k ∈ way l segments, ¬ d.IsFileAt k
  directories : made.2 = true → ∀ k ∈ way l segments, made.1.isDirectoryAt k = true
  tree : made.1.IsTree

theorem makeDirectories_of_not_directory (h : d.isDirectoryAt l = false) (segments : List String) :
    d.makeDirectories l segments = (d, false) := by
  cases segments with
  | nil => rw [makeDirectories, h]
  | cons segment rest =>
    have hnone : d.enter? l segment = none := by rw [enter?, if_pos (by simp [h])]
    rw [makeDirectories, hnone]
    dsimp only
    rw [if_neg (by simp [h])]

/-- One segment further, perhaps into a new directory. -/
theorem MakesWay.cons {d' : Disk} {segment : String} {rest : List String}
    (h : MakesWay d' (stepTo l segment) rest (d'.makeDirectories (stepTo l segment) rest))
    (hname : isUsableName segment = true) (hl : d.isDirectoryAt l = true)
    (hframe : Frame (fun _ => False) d d') :
    MakesWay d l (segment :: rest) (d'.makeDirectories (stepTo l segment) rest) := by
  have hmade := hframe.trans (frame_makeDirectories (fun _ => False) d' (stepTo l segment) rest)
  refine ⟨?_, fun hok => List.forall_mem_cons.2 ⟨hmade.directory l hl, h.directories hok⟩, h.tree⟩
  rw [h.iff, List.forall_mem_cons, way, List.forall_mem_cons]
  simp only [hname, true_and, not_isFileAt_of_isDirectoryAt hl, not_false_eq_true,
    hframe.isFileAt_iff id]

/-- It ends where a file is in the way or a name is too long. -/
theorem MakesWay.blocked {segments : List String} (tree : d.IsTree)
    (h : (∃ s ∈ segments, isUsableName s = false) ∨ ∃ k ∈ way l segments, d.IsFileAt k) :
    MakesWay d l segments (d, false) := by
  refine ⟨iff_of_false (by simp) fun hall => ?_, fun hok => (nomatch hok), tree⟩
  rcases h with ⟨s, hs, hlong⟩ | ⟨k, hk, hfile⟩
  · rw [hall.1 s hs] at hlong
    cases hlong
  · exact hall.2 k hk hfile

/-- **Directories can be made along a way exactly if nothing is in it.** -/
theorem makesWay_makeDirectories (tree : d.IsTree) (hl : d.isDirectoryAt l = true)
    (segments : List String) : MakesWay d l segments (d.makeDirectories l segments) := by
  induction segments generalizing d l with
  | nil =>
    rw [makeDirectories, hl]
    refine ⟨iff_of_true rfl ⟨by simp, ?_⟩, fun _ => ?_, tree⟩ <;>
      simp [way, hl, not_isFileAt_of_isDirectoryAt hl]
  | cons segment rest ih =>
    by_cases hname : segment ∈ ["", ".", ".."]
    · have husable : ∀ s ∈ ["", ".", ".."], isUsableName s = true := by decide
      rw [makeDirectories, enter?_of_not_name hl hname]
      exact (ih tree (tree.stepTo_of_not_name hl hname)).cons (husable segment hname) hl (.refl _ d)
    have hstep := stepTo_of_name l hname
    have hnext : l ++ [segment] ∈ way l (segment :: rest) := by
      rw [way, hstep]
      exact List.mem_cons_of_mem l (mem_way_self _ rest)
    rw [makeDirectories, enter?_name hl hname]
    cases hnode : d.node? (l ++ [segment]) with
    | some n =>
      rw [if_pos (by simp)]
      cases n with
      | directory =>
        have hdirectory := isDirectoryAt_iff.2 hnode
        have husable := tree.names _ (isSome_node?_of_isDirectoryAt hdirectory) segment (by simp)
        rw [← hstep] at hdirectory ⊢
        exact (ih tree hdirectory).cons husable hl (.refl _ d)
      | file content =>
        have hnot : d.isDirectoryAt (l ++ [segment]) = false := by
          rw [isDirectoryAt, hnode]
          rfl
        dsimp only
        rw [makeDirectories_of_not_directory hnot]
        exact .blocked tree (.inr ⟨_, hnext, content, hnode⟩)
    | none =>
      rw [if_neg (by simp)]
      dsimp only
      cases husable : isUsableName segment with
      | false =>
        rw [if_neg (by simp)]
        exact .blocked tree (.inl ⟨segment, List.mem_cons_self, husable⟩)
      | true =>
        have hne : l ++ [segment] ≠ [] := by simp
        have hnew : d.isDirectoryAt (l ++ [segment]) = false := by
          rw [isDirectoryAt, hnode]
          rfl
        have hdirectory : (d.put (l ++ [segment]) .directory).isDirectoryAt (l ++ [segment]) =
            true := isDirectoryAt_iff.2 (d.node?_put_self hne .directory)
        rw [if_pos ⟨hl, rfl⟩]
        have hmade := ih (tree.put hl husable hnew .directory) hdirectory
        rw [← hstep] at hmade hnode hne ⊢
        exact hmade.cons husable hl (.put_directory hne hnode)

end Disk

/-- A path that can be made a directory: the empty one, for which there is nothing to make, or one
that can name something by names of which none is too long. -/
def Path.CanBeDirectory (p : Path) : Prop :=
  p.text = "" ∨ p.isUsable = true ∧ ∀ s ∈ p.segments, isUsableName s = true

/-- A path that can be made a file: it can name something, and it ends with a name that is not too
long. -/
def Path.CanBeFile (p : Path) : Prop :=
  p.isUsable = true ∧ ∃ leading name, p.segments = leading ++ [name] ∧ name ∉ ["", ".", ".."] ∧
    isUsableName name = true

namespace Disk

variable {d : Disk}

/-- **The directory at a path can be made exactly if nothing is in the way.** -/
theorem createDirectories_iff (tree : d.IsTree) (p : Path) :
    (d.createDirectories p).2 = true ↔
      p.CanBeDirectory ∧ ∀ k ∈ d.wayTo p, ¬ d.IsFileAt k := by
  have hstart := tree.start p
  have hmakes := makesWay_makeDirectories tree hstart p.segments
  unfold createDirectories Path.CanBeDirectory
  split
  · rename_i hempty
    have htext : p.text = "" := String.isEmpty_iff.1 hempty
    have hway : d.wayTo p = [d.start p, d.start p] := by
      rw [wayTo, Path.segments, htext]
      rfl
    refine iff_of_true rfl ⟨.inl htext, ?_⟩
    simp [hway, not_isFileAt_of_isDirectoryAt hstart]
  · rename_i hempty
    have htext : p.text ≠ "" := fun h => hempty (String.isEmpty_iff.2 h)
    split
    · rename_i husable
      rw [hmakes.iff, husable]
      simp [htext, wayTo]
    · rename_i husable
      simp [htext, husable]

/-- Then the whole way is directories. -/
theorem isDirectoryAt_of_createDirectories (tree : d.IsTree) {p : Path}
    (h : (d.createDirectories p).2 = true) {k : Location} (hk : k ∈ d.wayTo p) :
    (d.createDirectories p).1.isDirectoryAt k = true := by
  have hmakes := makesWay_makeDirectories tree (tree.start p) p.segments
  unfold createDirectories at h ⊢
  split at h
  · rename_i hempty
    rw [if_pos hempty]
    rw [wayTo, Path.segments, String.isEmpty_iff.1 hempty] at hk
    have hstart : k = d.start p := by
      have hmem : k ∈ [d.start p, d.start p] := hk
      simpa using hmem
    rw [hstart]
    exact tree.start p
  · rename_i hempty
    rw [if_neg hempty]
    split at h
    · rename_i husable
      rw [if_pos husable]
      exact hmakes.directories h k hk
    · cases h

theorem IsTree.createDirectories (tree : d.IsTree) (p : Path) :
    (d.createDirectories p).1.IsTree := by
  unfold Disk.createDirectories
  split
  · exact tree
  · split
    · exact (makesWay_makeDirectories tree (tree.start p) p.segments).tree
    · exact tree

/-- What is made is on the way. -/
theorem mem_wayTo_of_createDirectories {p : Path} {k : Location}
    (h : (d.createDirectories p).1.node? k ≠ d.node? k) : k ∈ d.wayTo p := by
  obtain ⟨-, leading, ⟨rest, hrest⟩, hfollow⟩ := exists_follow?_createDirectories h
  rw [eq_resolve_of_follow? hfollow, wayTo, ← hrest]
  exact mem_way_append.2 (.inl (resolve_mem_way _ leading))

/-! ## Writing texts -/

theorem follow?_of_directories {l : Location} {segments : List String}
    (h : ∀ k ∈ way l segments, d.isDirectoryAt k = true) :
    d.follow? l segments = some (resolve l segments) := by
  induction segments generalizing l with
  | nil => rfl
  | cons segment rest ih =>
    obtain ⟨hl, hrest⟩ := List.forall_mem_cons.1 h
    have hnext := hrest (stepTo l segment) (mem_way_self _ rest)
    have henter : d.enter? l segment = some (stepTo l segment) := by
      by_cases hname : segment ∈ ["", ".", ".."]
      · exact enter?_of_not_name hl hname
      · rw [stepTo_of_name l hname] at hnext ⊢
        rw [enter?_name hl hname, if_pos (isSome_node?_of_isDirectoryAt hnext)]
    rw [follow?_cons, henter, Option.bind_some, ih hrest, resolve_cons]

/-- **A text can be given to a file exactly if the path leads to no directory.** The directories on
the way have to be there. -/
theorem writeText_iff {p : Path} (h : ∀ leading name, p.segments = leading ++ [name] →
    name ∉ ["", ".", ".."] → ∀ k ∈ way (d.start p) leading, d.isDirectoryAt k = true)
    (text : String) :
    (d.writeText p text).2 = true ↔ p.CanBeFile ∧ d.isDirectoryAt (d.location p) = false := by
  have hsome : (d.writeText p text).2 = (d.fileLocation? p).isSome := by
    unfold writeText
    split <;> rename_i hl <;> rw [hl] <;> rfl
  obtain ⟨leading, name, hsegments⟩ := List.eq_nil_or_concat p.segments |>.resolve_left
    (Text.segments_ne_nil '/' p.text)
  rw [List.concat_eq_append] at hsegments
  have hfile : p.CanBeFile ↔ p.isUsable = true ∧ name ∉ ["", ".", ".."] ∧
      isUsableName name = true := by
    refine and_congr_right fun _ => ⟨?_, fun ⟨hname, hshort⟩ => ⟨leading, name, hsegments, hname,
      hshort⟩⟩
    rintro ⟨leading', name', hsegments', hname, hshort⟩
    obtain ⟨-, hsame⟩ := List.append_inj' (hsegments.symm.trans hsegments') rfl
    obtain rfl : name = name' := List.singleton_inj.1 hsame
    exact ⟨hname, hshort⟩
  rw [hsome, hfile, fileLocation?, hsegments, List.getLast?_concat, List.dropLast_concat]
  dsimp only
  by_cases husable : p.isUsable = true
  · rw [if_pos husable]
    by_cases hname : name ∈ ["", ".", ".."]
    · simp [hname]
    · have hway := h leading name hsegments hname
      have hlocation : d.location p = resolve (d.start p) leading ++ [name] := by
        rw [location, hsegments, resolve_append, resolve_cons, stepTo_of_name _ hname, resolve_nil]
      rw [follow?_of_directories hway, hlocation]
      have hbase := hway _ (resolve_mem_way _ leading)
      simp [husable, hname, hbase]
  · simp [husable]

theorem exists_of_fileLocation? {p : Path} {l : Location} (h : d.fileLocation? p = some l) :
    ∃ base name, l = base ++ [name] ∧ d.isDirectoryAt base = true ∧ isUsableName name = true ∧
      d.isDirectoryAt l = false := by
  unfold fileLocation? at h
  split at h
  · split at h
    · cases h
    · rename_i name _
      obtain ⟨base, -, hl⟩ := Option.bind_eq_some_iff.1 h
      split at hl
      · rename_i hname
        obtain rfl : base ++ [name] = l := Option.some.inj hl
        exact ⟨base, name, rfl, hname.2.2.1, hname.2.1, by simpa using hname.2.2.2⟩
      · cases hl
  · cases h

theorem IsTree.writeText (tree : d.IsTree) (p : Path) (text : String) :
    (d.writeText p text).1.IsTree := by
  unfold Disk.writeText
  split
  · rename_i l hl
    obtain ⟨base, name, rfl, hbase, hname, hnot⟩ := exists_of_fileLocation? hl
    exact tree.put hbase hname hnot _
  · exact tree

/-- Writing a text makes no directory. -/
theorem isDirectoryAt_of_writeText {p : Path} {text : String} {l : Location}
    (h : (d.writeText p text).1.isDirectoryAt l = true) : d.isDirectoryAt l = true := by
  unfold Disk.writeText at h
  split at h
  · rename_i k hk
    obtain ⟨base, name, rfl, -⟩ := exists_of_fileLocation? hk
    by_cases hne : l = base ++ [name]
    · rw [isDirectoryAt, hne, node?_put_self d (by simp)] at h
      cases h
    · rwa [isDirectoryAt, node?_put_of_ne d _ hne] at h
  · exact h

theorem writeText_of_failed {p : Path} {text : String} (h : (d.writeText p text).2 = false) :
    (d.writeText p text).1 = d := by
  unfold Disk.writeText at h ⊢
  split at h
  · cases h
  · rfl

theorem Holds.eq_location {p : Path} {text : String} {l : Location} (h : d.Holds p text l) :
    l = d.location p := by
  have hlocated := h.located
  unfold locate? at hlocated
  split at hlocated
  · exact eq_resolve_of_follow? hlocated
  · cases hlocated

/-- The way to the directory of a file is the way up to the file's name. -/
theorem exists_parent_way {p : Path} {leading : List String} {name : String}
    (h : p.segments = leading ++ [name]) (hname : name ∉ ["", ".", ".."]) :
    ∃ parent, p.parent? = some parent ∧
      ∀ (d : Disk) (k : Location), k ∈ d.wayTo parent ↔ k ∈ way (d.start p) leading := by
  obtain ⟨parent, hparent, habsolute, kept, between, rest, hleading, hsegments, hbetween, hrest⟩ :=
    Path.exists_parent h hname
  refine ⟨parent, hparent, fun d k => ?_⟩
  rw [wayTo, hsegments, mem_way_append_void hrest, hleading, mem_way_append_void hbetween, start,
    habsolute, start]

end SwiftDecls.Disk
