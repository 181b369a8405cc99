import Mathlib.Data.List.Basic
import SwiftDecls.Disk
import SwiftDecls.Proofs.Path
import SwiftDecls.Proofs.SortedMap

/-!
# What operations change on a disk

An operation may change what is at some locations and make directories where nothing was; all
else stays (`Disk.Frame`). No directory is ever replaced and nothing is removed, so a path that
leads somewhere leads there ever after (`Frame.locate?`).

Making directories writes at no location (`frame_createDirectories`), and they are made nowhere
but on the way to the last one (`exists_follow?_createDirectories`). Writing a text writes at one
location, and the text is found under the path (`frame_writeText`). Files in directories with
different components are never at one location, whatever directory they are put below
(`apart_join`).
-/

set_option autoImplicit false

namespace SwiftDecls.Disk

variable {d d₁ d₂ d₃ : Disk}

theorem node?_put_self (d : Disk) {l : Location} (hl : l ≠ []) (n : Node) :
    (d.put l n).node? l = some n := by
  rw [node?, if_neg (by simpa using hl), put, SortedMap.get?_insert_self]

theorem node?_put_of_ne (d : Disk) {l l' : Location} (n : Node) (h : l' ≠ l) :
    (d.put l n).node? l' = d.node? l' := by
  rw [node?, node?, put, SortedMap.get?_insert_of_ne _ _ h]

theorem isDirectoryAt_iff {l : Location} :
    d.isDirectoryAt l = true ↔ d.node? l = some .directory := by
  rw [isDirectoryAt, beq_iff_eq]

/-- Every operation starts from a directory. -/
theorem isDirectoryAt_of_enter? {l l' : Location} {segment : String}
    (h : d.enter? l segment = some l') : d.isDirectoryAt l = true := by
  unfold enter? at h
  split at h
  · cases h
  · rename_i hdir
    simpa using hdir

/-- From a directory a name leads to what is there under it. -/
theorem enter?_name {l : Location} {segment : String} (hdir : d.isDirectoryAt l = true)
    (hname : segment ∉ ["", ".", ".."]) :
    d.enter? l segment =
      if (d.node? (l ++ [segment])).isSome then some (l ++ [segment]) else none := by
  simp only [List.mem_cons, List.not_mem_nil, or_false, not_or] at hname
  rw [enter?, if_neg (by simp [hdir]), if_neg (by simp [hname]), if_neg hname.2.2]

/-- From a directory only a name can lead nowhere. -/
theorem name_of_enter?_eq_none {l : Location} {segment : String}
    (hdir : d.isDirectoryAt l = true) (h : d.enter? l segment = none) :
    segment ∉ ["", ".", ".."] := by
  intro hmem
  unfold enter? at h
  simp only [List.mem_cons, List.not_mem_nil, or_false] at hmem
  rcases hmem with rfl | rfl | rfl <;> simp [hdir] at h

theorem node?_of_enter?_eq_none {l : Location} {segment : String}
    (hdir : d.isDirectoryAt l = true) (h : d.enter? l segment = none) :
    d.node? (l ++ [segment]) = none := by
  rw [enter?_name hdir (name_of_enter?_eq_none hdir h)] at h
  simpa using h

theorem follow?_append (d : Disk) (l : Location) (as bs : List String) :
    d.follow? l (as ++ bs) = (d.follow? l as).bind fun l' => d.follow? l' bs := List.foldlM_append

theorem follow?_cons (d : Disk) (l : Location) (segment : String) (rest : List String) :
    d.follow? l (segment :: rest) = (d.enter? l segment).bind fun l' => d.follow? l' rest := rfl

@[simp] theorem follow?_nil (d : Disk) (l : Location) : d.follow? l [] = some l := rfl

/-- Names lead down. -/
theorem eq_append_of_follow? {l l' : Location} {names : List String}
    (hnames : ∀ n ∈ names, n ∉ ["", ".", ".."]) (h : d.follow? l names = some l') :
    l' = l ++ names := by
  induction names generalizing l with
  | nil =>
    rw [List.append_nil]
    exact (Option.some.inj h).symm
  | cons name rest ih =>
    rw [follow?_cons] at h
    obtain ⟨k, hk, hrest⟩ := Option.bind_eq_some_iff.1 h
    rw [enter?_name (isDirectoryAt_of_enter? hk) (hnames name List.mem_cons_self)] at hk
    split at hk
    · obtain rfl : l ++ [name] = k := Option.some.inj hk
      have hl' := ih (fun n hn => hnames n (List.mem_cons_of_mem _ hn)) hrest
      rwa [List.append_assoc] at hl'
    · cases hk

/-- Void segments stay. -/
theorem eq_of_follow?_of_void {l l' : Location} {segments : List String}
    (hvoid : ∀ s ∈ segments, IsVoid s) (h : d.follow? l segments = some l') : l' = l := by
  induction segments with
  | nil => exact (Option.some.inj h).symm
  | cons segment rest ih =>
    rw [follow?_cons] at h
    obtain ⟨k, hk, hrest⟩ := Option.bind_eq_some_iff.1 h
    have hdir := isDirectoryAt_of_enter? hk
    have hstay : d.enter? l segment = some l := by
      have hsegment : segment = "" ∨ segment = "." := hvoid segment List.mem_cons_self
      rw [enter?, if_neg (by simp [hdir]), if_pos hsegment]
    obtain rfl : l = k := Option.some.inj (hstay.symm.trans hk)
    exact ih (fun s hs => hvoid s (List.mem_cons_of_mem segment hs)) hrest

/-! ## Frames -/

/-- One disk is another but for what was written at some locations and for directories made
where nothing was. -/
structure Frame (written : Location → Prop) (before after : Disk) : Prop where
  /-- The working directory stays. -/
  here : after.here = before.here
  /-- No directory is replaced. -/
  directory : ∀ l, before.isDirectoryAt l = true → after.isDirectoryAt l = true
  /-- Nothing is removed. -/
  present : ∀ l, (before.node? l).isSome = true → (after.node? l).isSome = true
  outside : ∀ l, ¬ written l → after.node? l = before.node? l ∨
    before.node? l = none ∧ after.node? l = some .directory

namespace Frame

variable {written written' : Location → Prop}

theorem refl (written : Location → Prop) (d : Disk) : Frame written d d :=
  ⟨rfl, fun _ h => h, fun _ h => h, fun _ _ => .inl rfl⟩

theorem mono (h : Frame written d₁ d₂) (himp : ∀ l, written l → written' l) :
    Frame written' d₁ d₂ :=
  ⟨h.here, h.directory, h.present, fun l hl => h.outside l fun hw => hl (himp l hw)⟩

theorem trans (h : Frame written d₁ d₂) (h' : Frame written d₂ d₃) : Frame written d₁ d₃ := by
  refine ⟨h'.here.trans h.here, fun l hl => h'.directory l (h.directory l hl),
    fun l hl => h'.present l (h.present l hl), fun l hl => ?_⟩
  rcases h.outside l hl with hsame | ⟨hnone, hnew⟩
  · rw [← hsame]
    exact h'.outside l hl
  · have hdir := isDirectoryAt_iff.1 (h'.directory l (isDirectoryAt_iff.2 hnew))
    exact .inr ⟨hnone, hdir⟩

/-- A directory where nothing was. -/
theorem put_directory {l : Location} (hl : l ≠ []) (h : d.node? l = none) :
    Frame written d (d.put l .directory) := by
  have hself := d.node?_put_self hl .directory
  refine ⟨rfl, fun k hk => ?_, fun k hk => ?_, fun k _ => ?_⟩ <;> by_cases hkl : k = l
  · rw [hkl, isDirectoryAt_iff, hself]
  · rwa [isDirectoryAt, d.node?_put_of_ne _ hkl]
  · rw [hkl, hself]
    rfl
  · rwa [d.node?_put_of_ne _ hkl]
  · rw [hkl]
    exact .inr ⟨h, hself⟩
  · exact .inl (d.node?_put_of_ne _ hkl)

/-- A file where no directory was. -/
theorem put_file {l : Location} (hl : l ≠ []) (h : d.isDirectoryAt l = false) (c : Content) :
    Frame (· = l) d (d.put l (.file c)) := by
  have hself := d.node?_put_self hl (.file c)
  refine ⟨rfl, fun k hk => ?_, fun k hk => ?_, fun k hk => ?_⟩
  · have hkl : k ≠ l := by
      rintro rfl
      simp [h] at hk
    rwa [isDirectoryAt, d.node?_put_of_ne _ hkl]
  · by_cases hkl : k = l
    · rw [hkl, hself]
      rfl
    · rwa [d.node?_put_of_ne _ hkl]
  · exact .inl (d.node?_put_of_ne _ hk)

/-- A file outside of what is written stays what it is. -/
theorem file (h : Frame written d₁ d₂) {l : Location} {c : Content} (hl : ¬ written l)
    (hfile : d₁.node? l = some (.file c)) : d₂.node? l = some (.file c) := by
  rcases h.outside l hl with hsame | ⟨hnone, -⟩
  · rw [hsame, hfile]
  · rw [hfile] at hnone
    cases hnone

theorem enter? (h : Frame written d₁ d₂) {l l' : Location} {segment : String}
    (he : d₁.enter? l segment = some l') : d₂.enter? l segment = some l' := by
  have hdir := isDirectoryAt_of_enter? he
  have hdir' := h.directory l hdir
  by_cases hname : segment ∈ ["", ".", ".."]
  · simp only [List.mem_cons, List.not_mem_nil, or_false] at hname
    rcases hname with rfl | rfl | rfl <;> simpa [Disk.enter?, hdir, hdir'] using he
  · rw [enter?_name hdir hname] at he
    rw [enter?_name hdir' hname]
    split at he
    · rename_i hsome
      rwa [if_pos (h.present _ hsome)]
    · cases he

theorem follow? (h : Frame written d₁ d₂) {l l' : Location} {segments : List String}
    (hf : d₁.follow? l segments = some l') : d₂.follow? l segments = some l' := by
  induction segments generalizing l with
  | nil => exact hf
  | cons segment rest ih =>
    rw [follow?_cons] at hf ⊢
    obtain ⟨k, hk, hrest⟩ := Option.bind_eq_some_iff.1 hf
    exact Option.bind_eq_some_iff.2 ⟨k, h.enter? hk, ih hrest⟩

theorem start (h : Frame written d₁ d₂) (p : Path) : d₂.start p = d₁.start p := by
  rw [Disk.start, Disk.start, h.here]

/-- **What a path leads to it leads to ever after.** -/
theorem locate? (h : Frame written d₁ d₂) {p : Path} {l : Location} (hl : d₁.locate? p = some l) :
    d₂.locate? p = some l := by
  unfold Disk.locate? at hl ⊢
  split at hl
  · rename_i husable
    rw [if_pos husable, h.start]
    exact h.follow? hl
  · cases hl

end Frame

/-! ## Making directories -/

theorem frame_makeDirectories (written : Location → Prop) (d : Disk) (l : Location)
    (segments : List String) : Frame written d (d.makeDirectories l segments).1 := by
  induction segments generalizing d l with
  | nil => exact .refl written d
  | cons segment rest ih =>
    unfold makeDirectories
    split
    · exact ih d _
    · rename_i hnone
      split
      · rename_i hdir
        have hnew := node?_of_enter?_eq_none hdir.1 hnone
        exact (Frame.put_directory (by simp) hnew).trans (ih _ _)
      · exact .refl written d

/-- Making directories makes only directories. -/
theorem frame_createDirectories (written : Location → Prop) (d : Disk) (p : Path) :
    Frame written d (d.createDirectories p).1 := by
  unfold createDirectories
  split
  · exact .refl written d
  · split
    · exact frame_makeDirectories written d _ _
    · exact .refl written d

/-- Directories are made on the way only. -/
theorem exists_follow?_makeDirectories {l k : Location} {segments : List String}
    (h : (d.makeDirectories l segments).1.node? k ≠ d.node? k) :
    ∃ leading, leading <+: segments ∧
      (d.makeDirectories l segments).1.follow? l leading = some k := by
  induction segments generalizing d l with
  | nil => exact absurd rfl h
  | cons segment rest ih =>
    -- What leads one segment further leads on from there.
    have hstep : ∀ (d' : Disk) (l' : Location),
        (d'.makeDirectories l' rest).1.enter? l segment = some l' →
        (d'.makeDirectories l' rest).1.node? k ≠ d'.node? k →
        ∃ leading, leading <+: segment :: rest ∧
          (d'.makeDirectories l' rest).1.follow? l leading = some k := by
      intro d' l' henter hchanged
      obtain ⟨leading, hleading, hfollow⟩ := ih hchanged
      refine ⟨segment :: leading, List.cons_prefix_cons.2 ⟨rfl, hleading⟩, ?_⟩
      rw [follow?_cons, henter, Option.bind_some, hfollow]
    unfold makeDirectories at h ⊢
    split at h
    · rename_i l' henter
      have hframe := frame_makeDirectories (fun _ => False) d l' rest
      exact hstep d l' (hframe.enter? henter) h
    · rename_i hnone
      split at h
      · rename_i hdir
        rw [if_pos hdir]
        generalize hmade : d.put (l ++ [segment]) .directory = made at h ⊢
        have hne : l ++ [segment] ≠ [] := by simp
        have hnew := node?_of_enter?_eq_none hdir.1 hnone
        have hput : Frame (fun _ => False) d made := hmade ▸ .put_directory hne hnew
        have hframe := frame_makeDirectories (fun _ => False) made (l ++ [segment]) rest
        have hnode : made.node? (l ++ [segment]) = some .directory := by
          rw [← hmade, d.node?_put_self hne]
        have hthere : (made.makeDirectories (l ++ [segment]) rest).1.enter? l segment =
            some (l ++ [segment]) := by
          have hname := name_of_enter?_eq_none hdir.1 hnone
          have hl := hframe.directory _ (hput.directory _ hdir.1)
          rw [enter?_name hl hname, if_pos (hframe.present _ (by simp [hnode]))]
        by_cases hk : k = l ++ [segment]
        · refine ⟨[segment], ⟨rest, rfl⟩, ?_⟩
          rw [follow?_cons, hthere, hk]
          rfl
        · refine hstep made _ hthere fun hsame => h ?_
          rw [hsame, ← hmade, d.node?_put_of_ne _ hk]
      · exact absurd rfl h

theorem exists_follow?_createDirectories {p : Path} {k : Location}
    (h : (d.createDirectories p).1.node? k ≠ d.node? k) : p.isUsable = true ∧
      ∃ leading, leading <+: p.segments ∧
        (d.createDirectories p).1.follow? (d.start p) leading = some k := by
  unfold createDirectories at h ⊢
  split at h
  · exact absurd rfl h
  · rename_i hempty
    rw [if_neg hempty]
    split at h
    · rename_i husable
      rw [if_pos husable]
      exact ⟨husable, exists_follow?_makeDirectories h⟩
    · exact absurd rfl h

/-! ## Writing texts -/

/-- Where a path can name a file: in a directory that is there, under a name. -/
structure FilePlace (d : Disk) (p : Path) (l : Location) : Prop where
  usable : p.isUsable = true
  path : ∃ leading name base, p.segments = leading ++ [name] ∧ name ∉ ["", ".", ".."] ∧
    d.follow? (d.start p) leading = some base ∧ d.isDirectoryAt base = true ∧ l = base ++ [name]
  notDirectory : d.isDirectoryAt l = false

theorem filePlace_of_fileLocation? {p : Path} {l : Location} (h : d.fileLocation? p = some l) :
    d.FilePlace p l := by
  unfold fileLocation? at h
  split at h
  · rename_i husable
    split at h
    · cases h
    · rename_i name hlast
      obtain ⟨base, hbase, hl⟩ := Option.bind_eq_some_iff.1 h
      split at hl
      · rename_i hname
        obtain rfl : base ++ [name] = l := Option.some.inj hl
        refine ⟨husable, ⟨_, name, base, ?_, hname.1, hbase, hname.2.2.1, rfl⟩, ?_⟩
        · exact (List.dropLast_append_getLast? name hlast).symm
        · simpa using hname.2.2.2
      · cases hl
  · cases h

/-- There is a file with a text at a path. -/
structure Holds (d : Disk) (p : Path) (text : String) (l : Location) : Prop where
  located : d.locate? p = some l
  node : d.node? l = some (.file (.text text))

theorem Holds.readText {p : Path} {text : String} {l : Location} (h : d.Holds p text l) :
    d.readText p = .ok text := by
  rw [Disk.readText, at?, h.located, Option.bind_some, h.node]

/-- What is written elsewhere leaves a file as it is. -/
theorem Frame.holds {written : Location → Prop} (h : Frame written d₁ d₂) {p : Path}
    {text : String} {l : Location} (hp : d₁.Holds p text l) (hl : ¬ written l) :
    d₂.Holds p text l :=
  ⟨h.locate? hp.located, h.file hl hp.node⟩

/-- **Writing a text changes one file**, which is then found under the path. -/
theorem frame_writeText {p : Path} {text : String} (h : (d.writeText p text).2 = true) :
    ∃ l, Frame (· = l) d (d.writeText p text).1 ∧ (d.writeText p text).1.Holds p text l := by
  unfold writeText at h ⊢
  split at h
  · rename_i l hl
    obtain ⟨husable, ⟨leading, name, base, hsegments, hname, hbase, hdir, rfl⟩, hnot⟩ :=
      filePlace_of_fileLocation? hl
    have hne : base ++ [name] ≠ [] := by simp
    have hframe := Frame.put_file hne hnot (.text text)
    have hnode := d.node?_put_self hne (.file (.text text))
    have henter := enter?_name (hframe.directory _ hdir) hname
    rw [hnode, Option.isSome_some, if_pos rfl] at henter
    refine ⟨_, hframe, ⟨?_, hnode⟩⟩
    rw [locate?, if_pos husable, hsegments, follow?_append, hframe.start, hframe.follow? hbase,
      Option.bind_some, follow?_cons, henter, Option.bind_some, follow?_nil]
  · cases h

/-! ## Different files -/

/-- On no disk do two paths lead to one location. -/
def Apart (p q : Path) : Prop :=
  ∀ (d : Disk) (l : Location), d.locate? p = some l → d.locate? q ≠ some l

/-- Files with different components are apart, whatever directory they are put below. -/
theorem apart_join (root : Path) {p q : Path} (hp : p.IsFileInDirectory)
    (hq : q.IsFileInDirectory) (h : ¬ p.Same q) : Apart (root.join p) (root.join q) := by
  obtain ⟨stem, -, hstem⟩ := Path.exists_segments_join root
  -- The location of a file is that of the directory, followed by its two names.
  have hlocated : ∀ (d : Disk) (l : Location) {dir file : String}, IsFileName dir →
      IsFileName file → d.locate? (root.join ((⟨dir⟩ : Path).join ⟨file⟩)) = some l →
      ∃ base, d.follow? (d.start root) stem = some base ∧ l = base ++ [dir, file] := by
    intro d l dir file hdir hfile hl
    obtain ⟨hsegments, habsolute⟩ := hstem _ (Path.isAbsolute_join hdir hfile)
    unfold locate? at hl
    split at hl
    · rw [start, habsolute, ← start, hsegments, Path.segments_join hdir hfile,
        follow?_append] at hl
      obtain ⟨base, hbase, hnames⟩ := Option.bind_eq_some_iff.1 hl
      refine ⟨base, hbase, eq_append_of_follow? ?_ hnames⟩
      simp only [List.forall_mem_cons]
      exact ⟨hdir.not_step, hfile.not_step, fun _ hn => absurd hn List.not_mem_nil⟩
    · cases hl
  intro d l hlp hlq
  obtain ⟨dir, file, hdir, hfile, rfl⟩ := hp
  obtain ⟨dir', file', hdir', hfile', rfl⟩ := hq
  obtain ⟨base, hbase, hl⟩ := hlocated d l hdir hfile hlp
  obtain ⟨base', hbase', hl'⟩ := hlocated d l hdir' hfile' hlq
  obtain rfl : base = base' := Option.some.inj (hbase.symm.trans hbase')
  have hnames : [dir, file] = [dir', file'] := List.append_cancel_left (hl.symm.trans hl')
  refine h ?_
  rw [Path.Same, Path.components_join hdir hfile, Path.components_join hdir' hfile']
  simpa using hnames

end SwiftDecls.Disk
