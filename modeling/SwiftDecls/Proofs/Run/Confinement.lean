import SwiftDecls.Proofs.Generation.Confinement
import SwiftDecls.Proofs.Run.Writing

/-!
# What writing leaves alone

An output is written below a root directory. If its files are in the directories of the groups,
then nothing else changes, whether or not all files can be written: what is written is below these
two directories, and elsewhere directories are made on the way to the root and nothing else
(`WritesInside`). The statement for one file, `writesInside_writeFile`, looks at where its path
leads from the root, which is through the directory of its group and then nowhere but to the file.

The files of a run are there exactly if no name of a type leads to another directory, or if there
are no files of types (`generate_stays_inside_iff`). Names are not checked, so the file of the class
`/x` is written at the root of the disk (`slash_leaves_root`).
-/

set_option autoImplicit false

namespace SwiftDecls

open Disk Naming

/-- A location in one of the two directories below a root. -/
def Disk.InGroupDirectory (d : Disk) (root : Path) (l : Location) : Prop :=
  ∃ (g : Group) (base : Location), d.locate? (root.join g.directory) = some base ∧ base <+: l

/-- A location on the way to a root, or the root. -/
def Disk.OnWayTo (d : Disk) (root : Path) (l : Location) : Prop :=
  ∃ leading, leading <+: root.segments ∧ d.follow? (d.start root) leading = some l

/-- One disk is another but for what is in the two directories below a root, and for directories
that were made on the way to it. -/
structure WritesInside (root : Path) (before after : Disk) : Prop where
  frame : Frame (after.InGroupDirectory root) before after
  made : ∀ l, ¬ after.InGroupDirectory root l → after.node? l ≠ before.node? l →
    after.OnWayTo root l

namespace WritesInside

variable {root : Path} {d₁ d₂ d₃ : Disk}

theorem refl (root : Path) (d : Disk) : WritesInside root d d :=
  ⟨.refl _ d, fun _ _ h => absurd rfl h⟩

theorem trans (h : WritesInside root d₁ d₂) (h' : WritesInside root d₂ d₃) :
    WritesInside root d₁ d₃ := by
  -- What a path leads to it leads to ever after.
  have hinside : ∀ l, d₂.InGroupDirectory root l → d₃.InGroupDirectory root l := by
    rintro l ⟨g, base, hbase, hl⟩
    exact ⟨g, base, h'.frame.locate? hbase, hl⟩
  have hway : ∀ l, d₂.OnWayTo root l → d₃.OnWayTo root l := by
    rintro l ⟨leading, hleading, hl⟩
    refine ⟨leading, hleading, ?_⟩
    rw [h'.frame.start]
    exact h'.frame.follow? hl
  refine ⟨(h.frame.mono hinside).trans h'.frame, fun l hl hchanged => ?_⟩
  by_cases hsame : d₂.node? l = d₁.node? l
  · apply h'.made l hl
    rwa [hsame]
  · exact hway l (h.made l (mt (hinside l) hl) hsame)

end WritesInside

/-! ## Paths below a root -/

/-- The path of a group's directory leads to the root and one name further. -/
theorem exists_segments_directory (root : Path) (g : Group) :
    ∃ stem, stem <+: root.segments ∧
      (root.join g.directory).segments = stem ++ [g.directory.text] ∧
      (root.join g.directory).isAbsolute = root.isAbsolute := by
  obtain ⟨stem, hstem, hjoin⟩ := Path.exists_segments_join root
  have hname := isFileName_directory g
  obtain ⟨hsegments, habsolute⟩ := hjoin g.directory hname.isAbsolute_eq
  refine ⟨stem, hstem, ?_, habsolute⟩
  rw [hsegments, Path.segments_file hname]

/-- The path of a file in a group's directory goes on with void segments but for the file. -/
theorem exists_segments_groupFile (root : Path) {p : Path} {g : Group} {file : String}
    (h : p.components = [.name g.directory.text, .name file]) :
    ∃ between behind, (root.join p).segments =
        (root.join g.directory).segments ++ (between ++ file :: behind) ∧
      (root.join p).isAbsolute = (root.join g.directory).isAbsolute ∧
      (∀ s ∈ between, IsVoid s) ∧ (∀ s ∈ behind, IsVoid s) ∧ file ∉ ["", ".", ".."] := by
  obtain ⟨stem, -, hjoin⟩ := Path.exists_segments_join root
  have hname := isFileName_directory g
  obtain ⟨between, behind, hsegments, hvoid⟩ := Path.exists_segments_of_components h
  have hrelative : p.isAbsolute = false := by
    cases habsolute : p.isAbsolute with
    | false => rfl
    | true =>
      obtain ⟨rest, hrest⟩ := Path.exists_segments_of_isAbsolute habsolute
      rw [hsegments] at hrest
      exact absurd (List.cons.inj hrest).1 hname.ne_empty
  obtain ⟨hfile, hfileAbsolute⟩ := hjoin p hrelative
  obtain ⟨hdir, hdirAbsolute⟩ := hjoin g.directory hname.isAbsolute_eq
  refine ⟨between, behind, ?_, hfileAbsolute.trans hdirAbsolute.symm, hvoid⟩
  rw [hfile, hdir, hsegments, Path.segments_file hname, List.append_assoc]
  rfl

/-- The directory of such a file is that of the group. -/
theorem parent?_groupFile (root : Path) {p : Path} {g : Group} {file : String}
    (h : p.components = [.name g.directory.text, .name file]) :
    (root.join p).parent? = some (root.join g.directory) := by
  obtain ⟨stem, -, hdir, -⟩ := exists_segments_directory root g
  obtain ⟨between, behind, hfile, -, hbetween, hbehind, hname⟩ := exists_segments_groupFile root h
  have hnot : ¬ IsVoid g.directory.text := by
    cases g <;> decide
  rw [hdir, List.append_assoc, List.singleton_append] at hfile
  rw [Path.parent?_eq hfile hnot hname hbetween hbehind, ← hdir, Path.segments,
    Text.joinSegments_segments]

/-- Such a file is in the directory of the group. -/
theorem prefix_fileLocation? {d : Disk} {root p : Path} {g : Group} {file : String} {l : Location}
    (h : p.components = [.name g.directory.text, .name file])
    (hl : d.fileLocation? (root.join p) = some l) :
    ∃ base, d.follow? (d.start (root.join g.directory)) (root.join g.directory).segments =
      some base ∧ base <+: l := by
  obtain ⟨between, behind, hfile, habsolute, hbetween, hbehind, -⟩ :=
    exists_segments_groupFile root h
  obtain ⟨-, ⟨leading, name, base, hsegments, hname, hbase, -, rfl⟩, -⟩ :=
    filePlace_of_fileLocation? hl
  refine ⟨base, ?_, List.prefix_append _ _⟩
  -- The last segment is a name, so it is the file's.
  rcases List.eq_nil_or_concat behind with rfl | ⟨init, last, rfl⟩
  · have hsplit : (root.join g.directory).segments ++ between ++ [file] = leading ++ [name] := by
      rw [← hsegments, hfile, List.append_assoc]
    obtain ⟨hleading, -⟩ := List.append_inj' hsplit rfl
    rw [start, habsolute, ← start, ← hleading, follow?_append] at hbase
    obtain ⟨k, hk, hrest⟩ := Option.bind_eq_some_iff.1 hbase
    obtain rfl := eq_of_follow?_of_void hbetween hrest
    exact hk
  · have hsplit : (root.join g.directory).segments ++ (between ++ file :: init) ++ [last] =
        leading ++ [name] := by
      rw [← hsegments, hfile]
      simp
    obtain ⟨-, hlast⟩ := List.append_inj' hsplit rfl
    obtain rfl : last = name := List.singleton_inj.1 hlast
    rcases hbehind last (by simp) with rfl | rfl <;> simp at hname

/-! ## Writing -/

theorem isUsable_of_createDirectories {d : Disk} {p : Path} (hp : p.text ≠ "")
    (h : (d.createDirectories p).2 = true) : p.isUsable = true := by
  unfold createDirectories at h
  split at h
  · rename_i hempty
    exact absurd (String.isEmpty_iff.1 hempty) hp
  · split at h
    · assumption
    · cases h

/-- Making the directory of a group. -/
theorem writesInside_createDirectories (root : Path) (g : Group) (d : Disk) :
    WritesInside root d (d.createDirectories (root.join g.directory)).1 := by
  have hframe := frame_createDirectories
    ((d.createDirectories (root.join g.directory)).1.InGroupDirectory root) d
    (root.join g.directory)
  refine ⟨hframe, fun l hl hchanged => ?_⟩
  obtain ⟨stem, hstem, hdir, habsolute⟩ := exists_segments_directory root g
  obtain ⟨husable, leading, hleading, hfollow⟩ := exists_follow?_createDirectories hchanged
  rw [hdir] at hleading
  rcases List.prefix_concat_iff.1 hleading with hall | hway
  · -- All segments lead to the directory itself.
    refine absurd ⟨g, l, ?_, List.prefix_rfl⟩ hl
    rw [locate?, if_pos husable, hframe.start, hdir, ← hall, hfollow]
  · refine ⟨leading, hway.trans hstem, ?_⟩
    rw [hframe.start, start, ← habsolute, ← start, hfollow]

/-- Giving a file in the directory of a group its text. -/
theorem writesInside_writeText {d : Disk} {root p : Path} {g : Group} {file : String}
    (h : p.components = [.name g.directory.text, .name file])
    (husable : (root.join g.directory).isUsable = true) (text : String) :
    WritesInside root d (d.writeText (root.join p) text).1 := by
  unfold writeText
  split
  · rename_i l hl
    obtain ⟨base, hbase, hprefix⟩ := prefix_fileLocation? h hl
    obtain ⟨-, ⟨_, name, leading, -, -, -, -, rfl⟩, hnot⟩ := filePlace_of_fileLocation? hl
    have hput := Frame.put_file (by simp) hnot (.text text)
    have hinside : (d.put (leading ++ [name]) (.file (.text text))).InGroupDirectory root
        (leading ++ [name]) := by
      refine ⟨g, base, hput.locate? ?_, hprefix⟩
      rw [locate?, if_pos husable, hbase]
    constructor
    · apply hput.mono
      rintro _ rfl
      exact hinside
    · intro k hk hchanged
      refine absurd (d.node?_put_of_ne _ ?_) hchanged
      rintro rfl
      exact hk hinside
  · exact .refl root d

/-- The directory of a file is made, and then the file gets its text. -/
theorem disk_writeFile (s : Machine) {path parent : Path} (h : path.parent? = some parent)
    (text : String) : (s.run (writeFile path text)).2.disk =
      if (s.disk.createDirectories parent).2 then
        ((s.disk.createDirectories parent).1.writeText path text).1
      else (s.disk.createDirectories parent).1 := by
  unfold writeFile
  simp only [h]
  rw [Machine.run_bind, Machine.run_lift, run_createDirectories]
  cases (s.disk.createDirectories parent).2 with
  | false => rfl
  | true =>
    show (Machine.run _ (ExceptT.lift (Host.writeText path text) >>= _)).2.disk = _
    rw [Machine.run_bind, Machine.run_lift, run_writeText]
    cases (((s.disk.createDirectories parent).1.writeText path text).2) <;> rfl

/-- **Writing a file of a group writes in the directory of the group**, whether or not it
succeeds. -/
theorem writesInside_writeFile (root : Path) {p : Path} (hp : p.IsGroupFile) (s : Machine)
    (text : String) :
    WritesInside root s.disk (s.run (writeFile (root.join p) text)).2.disk := by
  obtain ⟨g, file, hcomponents⟩ := hp
  rw [disk_writeFile s (parent?_groupFile root hcomponents) text]
  have hmade := writesInside_createDirectories root g s.disk
  split
  · rename_i hcreated
    have hne : (root.join g.directory).text ≠ "" := by
      intro hempty
      obtain ⟨stem, -, hdir, -⟩ := exists_segments_directory root g
      rw [Path.segments, hempty] at hdir
      obtain ⟨-, hname⟩ := List.append_inj' (show [] ++ [""] = stem ++ _ from hdir) rfl
      exact (isFileName_directory g).ne_empty (List.singleton_inj.1 hname).symm
    have husable := isUsable_of_createDirectories hne hcreated
    exact hmade.trans (writesInside_writeText hcomponents husable text)
  · exact hmade

/-- Files of groups are written one after the other as long as it succeeds. -/
theorem writesInside_forM_writeFile (root : Path) {files : List (Path × String)}
    (h : ∀ f ∈ files, f.1.IsGroupFile) (s : Machine) :
    WritesInside root s.disk (s.run
      (files.forM fun (path, text) => writeFile (root.join path) text)).2.disk := by
  induction files generalizing s with
  | nil => exact .refl root s.disk
  | cons f rest ih =>
    have hfirst := writesInside_writeFile root (h f List.mem_cons_self) s f.2
    show WritesInside root s.disk
      (s.run (writeFile (root.join f.1) f.2 >>= fun _ => rest.forM _)).2.disk
    rw [Machine.run_bind]
    revert hfirst
    rcases s.run (writeFile (root.join f.1) f.2) with ⟨e | _, s₁⟩
    · exact id
    · intro hfirst
      exact hfirst.trans (ih (fun g hg => h g (List.mem_cons_of_mem f hg)) s₁)

/-! ## Runs -/

/-- Which files of a run are in the directories of the groups, and what writing them changes. -/
structure StaysInside (api : Api) (config : GeneratorConfig) (run : Generation) : Prop where
  paths : (∀ p ∈ run.output.paths, p.IsGroupFile) ↔
    config.mode = .singleFile ∨ ∀ g, ∀ n ∈ api.groupNames g, StaysInDirectory (pascal n)
  /-- The names that types usually have lead nowhere else. -/
  words : (∀ g, ∀ n ∈ api.groupNames g, IsWord n) → ∀ p ∈ run.output.paths, p.IsGroupFile
  writes : (∀ p ∈ run.output.paths, p.IsGroupFile) → ∀ (root : Path) (s : Machine),
    WritesInside root s.disk (s.run (run.output.write root)).2.disk

/-- **A run stays in the directories of the groups exactly if the names of types do**, or if each
group has a single file. Then, wherever its output is written, and also if that fails on the way,
nothing is written but below these directories. -/
theorem generate_stays_inside_iff (api : Api) (docs : DocSource) (config : GeneratorConfig)
    (valid : config.check = .ok ()) :
    ∃ run, generate api docs config = .ok run ∧ StaysInside api config run := by
  refine ⟨_, generate_eq_ok valid api docs, ?_⟩
  have hiff := (Output.forall_mem_paths_insertAll_iff Path.IsGroupFile.of_same _).trans
    (isGroupFile_writtenFiles_iff config.mode api docs
      (api.classification config.buildConfiguration) (api.coreText docs))
  constructor
  · exact hiff
  · intro words
    apply hiff.2
    right
    intro g n hn
    exact staysInDirectory_of_slash_not_mem (slash_not_mem_pascal (words g n hn))
  · intro hpaths root s
    exact writesInside_forM_writeFile root
      (fun f hf => hpaths f.1 (List.mem_map_of_mem hf)) s

/-- A slash in a name is no harm where it leads to no other directory. -/
theorem generate_stays_inside_of_void :
    let api : Api := ⟨none, [], [], [{ name := "Vector2" }], [{ name := ".//Node" }]⟩
    ({ mode := .perType } : GeneratorConfig).check = .ok () ∧
    ∃ run, generate api .empty { mode := .perType } = .ok run ∧
      StaysInside api { mode := .perType } run ∧ ∀ p ∈ run.output.paths, p.IsGroupFile := by
  intro api
  have valid : ({ mode := .perType } : GeneratorConfig).check = .ok () := by decide
  obtain ⟨run, hrun, hstays⟩ := generate_stays_inside_iff api .empty { mode := .perType } valid
  refine ⟨valid, run, hrun, hstays, hstays.paths.2 (.inr ?_)⟩
  intro g
  cases g <;> decide

/-- A description whose only class has a slash before its name. -/
def rootedClass : String :=
  "\x7b\"builtin_class_sizes\":[],\"global_enums\":[],\"builtin_classes\":[]," ++
    "\"classes\":[\x7b\"name\":\"/x\"\x7d]\x7d"

/-- A name with a slash leaves the output directory. The description of a class `/x` can be read,
and with a file for each type its file is `/x.swift`, whatever the output directory is. -/
theorem slash_leaves_root :
    ∃ api run, Api.ofJson rootedClass = .ok api ∧
      generate api .empty { mode := .perType } = .ok run ∧
      ¬ (∀ p ∈ run.output.paths, p.IsGroupFile) ∧
      let written := ({ disk := {} } : Machine).run (run.output.write ⟨"out"⟩)
      written.1 = .ok () ∧ ¬ WritesInside ⟨"out"⟩ {} written.2.disk := by
  have hapi : Api.ofJson rootedClass = .ok ⟨none, [], [], [], [{ name := "/x" }]⟩ := by
    decide +kernel
  have valid : ({ mode := .perType } : GeneratorConfig).check = .ok () := by decide
  refine ⟨_, _, hapi, generate_eq_ok valid _ .empty, ?_, ?_⟩
  · rw [Output.forall_mem_paths_insertAll_iff Path.IsGroupFile.of_same,
      isGroupFile_writtenFiles_iff]
    rintro (hmode | hstays)
    · cases hmode
    · exact absurd (hstays .classes "/x" (by decide)) (by decide)
  · intro written
    -- The disk afterwards: the class is at the root, and the classes' directory is not made.
    have hend : written.1 = .ok () ∧ written.2.disk.node? ["x.swift"] ≠ none ∧
        written.2.disk.node? ["x.swift"] ≠ some .directory ∧
        written.2.disk.locate? ((⟨"out"⟩ : Path).join Group.classes.directory) = none ∧
        written.2.disk.locate? ((⟨"out"⟩ : Path).join Group.builtins.directory) =
          some ["out", "generated-builtin"] := by decide +kernel
    obtain ⟨hwritten, hpresent, hfile, hclasses, hbuiltins⟩ := hend
    refine ⟨hwritten, fun hwrites => ?_⟩
    have houtside : ¬ written.2.disk.InGroupDirectory ⟨"out"⟩ ["x.swift"] := by
      rintro ⟨g, base, hbase, hprefix⟩
      cases g with
      | builtins =>
        rw [hbuiltins] at hbase
        cases hbase
        revert hprefix
        decide
      | classes =>
        rw [hclasses] at hbase
        cases hbase
    rcases hwrites.frame.outside _ houtside with hsame | ⟨-, hdirectory⟩
    · exact hpresent hsame
    · exact hfile hdirectory

end SwiftDecls
