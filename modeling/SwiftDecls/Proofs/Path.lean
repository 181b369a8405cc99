import Mathlib.Data.List.TakeWhile
import SwiftDecls.Path
import SwiftDecls.Proofs.Text.Pieces

/-!
# Components of joined paths

A file name is a text that is one component wherever it stands: it holds no slash and is not
empty, `.` or `..`. A file below a directory has two components (`components_join`), so it is
another place than any file with another directory or another name. Put below a further
directory, a path adds its segments to those that lead there (`exists_segments_join`). A path of
names (`OfNames`) is told by them.

Some segments are no components (`IsVoid`). Between the names of a directory and of a file, and
behind them, they change nothing: the directory of the file is the one named (`parent?_eq`).
-/

set_option autoImplicit false

namespace SwiftDecls

theorem Path.isAbsolute_eq_false_of_slash_not_mem {p : Path} (h : '/' ∉ p.text.toList) :
    p.isAbsolute = false := by
  rw [Path.isAbsolute, beq_eq_false_iff_ne]
  intro hhead
  exact h (List.mem_of_mem_head? hhead)

/-- A text that names one component. -/
structure IsFileName (text : String) : Prop where
  slash_not_mem : '/' ∉ text.toList
  ne_empty : text ≠ ""
  ne_here : text ≠ "."
  ne_up : text ≠ ".."

/-- The path of a file in a directory. -/
def Path.IsFileInDirectory (p : Path) : Prop :=
  ∃ dir file : String, IsFileName dir ∧ IsFileName file ∧ p = (⟨dir⟩ : Path).join ⟨file⟩

namespace IsFileName

theorem not_step {text : String} (h : IsFileName text) : text ∉ ["", ".", ".."] := by
  simp [h.ne_empty, h.ne_here, h.ne_up]

theorem ofSegment?_eq {text : String} (h : IsFileName text) :
    Component.ofSegment? text = some (.name text) := by
  simp [Component.ofSegment?, h.ne_empty, h.ne_here, h.ne_up]

theorem isAbsolute_eq {text : String} (h : IsFileName text) :
    (⟨text⟩ : Path).isAbsolute = false :=
  Path.isAbsolute_eq_false_of_slash_not_mem h.slash_not_mem

end IsFileName

/-- A segment that is no component: a path stays where it is there. -/
def IsVoid (segment : String) : Prop := segment = "" ∨ segment = "."

instance (segment : String) : Decidable (IsVoid segment) :=
  inferInstanceAs (Decidable (segment = "" ∨ segment = "."))

theorem ofSegment?_eq_none_iff {segment : String} :
    Component.ofSegment? segment = none ↔ IsVoid segment := by
  unfold Component.ofSegment? IsVoid
  split
  · rename_i hvoid
    exact iff_of_true rfl hvoid
  · rename_i hvoid
    refine iff_of_false (fun h => ?_) hvoid
    split at h <;> cases h

theorem ofSegment?_eq_name_iff {segment text : String} :
    Component.ofSegment? segment = some (.name text) ↔
      segment = text ∧ segment ∉ ["", ".", ".."] := by
  simp only [Component.ofSegment?, List.mem_cons, List.not_mem_nil, or_false, not_or]
  split
  · rename_i hvoid
    refine iff_of_false nofun fun h => ?_
    rcases hvoid with he | he
    · exact h.2.1 he
    · exact h.2.2.1 he
  · rename_i hvoid
    rw [not_or] at hvoid
    split
    · rename_i hup
      exact iff_of_false nofun fun h => h.2.2.2 hup
    · rename_i hup
      simp [hvoid, hup]

/-- Components that are names are told by their texts. -/
theorem map_name_map_label {cs : List Component} (h : ∀ c ∈ cs, ∃ text, c = .name text) :
    (cs.map Component.label).map .name = cs := by
  have hsame : ∀ c ∈ cs, (Component.name ∘ Component.label) c = id c := by
    intro c hc
    obtain ⟨text, rfl⟩ := h c hc
    rfl
  rw [List.map_map, List.map_congr_left hsame, List.map_id]

/-- What goes on is behind its beginning. -/
theorem compare_append_cons (cs : List Component) (c : Component) (rest : List Component) :
    compare cs (cs ++ c :: rest) = .lt := by
  induction cs with
  | nil => rfl
  | cons first cs ih =>
    have hfirst : compare first first = .eq := Std.ReflCmp.compare_self
    rw [List.cons_append, List.compare_cons_cons, hfirst, ih]
    rfl

namespace Path

theorem innerComponents_eq_nil_iff {segments : List String} :
    innerComponents segments = [] ↔ ∀ s ∈ segments, IsVoid s := by
  rw [innerComponents, List.filterMap_eq_nil_iff]
  exact forall₂_congr fun _ _ => ofSegment?_eq_none_iff

/-- An absolute path starts with an empty segment. -/
theorem exists_segments_of_isAbsolute {p : Path} (h : p.isAbsolute = true) :
    ∃ rest, p.segments = "" :: rest := by
  obtain ⟨cs, hcs⟩ := List.head?_eq_some_iff.1 (beq_iff_eq.1 h)
  refine ⟨(cs.splitOn '/').map String.ofList, ?_⟩
  rw [segments, Text.segments, hcs, List.splitOn_cons_eq_if_modifyHead]
  simp

/-- Only an absolute path starts with an empty segment and goes on. -/
theorem isAbsolute_of_segments {p : Path} {next : String} {rest : List String}
    (h : p.segments = "" :: next :: rest) : p.isAbsolute = true := by
  have htext : p.text = Text.joinSegments '/' ("" :: next :: rest) := by
    rw [← h, segments, Text.joinSegments_segments]
  rw [isAbsolute, htext, Text.joinSegments, String.toList_ofList]
  simp [List.intercalate_cons_cons]

/-- A path is absolute if it starts with an empty segment and goes on. -/
theorem isAbsolute_iff {p : Path} :
    p.isAbsolute = true ↔ ∃ next rest, p.segments = "" :: next :: rest := by
  constructor
  · intro h
    obtain ⟨rest, hrest⟩ := exists_segments_of_isAbsolute h
    cases rest with
    | cons next rest => exact ⟨next, rest, hrest⟩
    | nil =>
      -- A single empty segment is the empty text.
      have htext : p.text = Text.joinSegments '/' [""] := by
        rw [← hrest, segments, Text.joinSegments_segments]
      rw [isAbsolute, htext] at h
      cases h
  · rintro ⟨next, rest, h⟩
    exact isAbsolute_of_segments h

/-! ## Joined paths -/

theorem join_of_isAbsolute (p : Path) {q : Path} (h : q.isAbsolute = true) : p.join q = q := by
  simp [join, h]

section Relative

variable {dir : String} (hd : IsFileName dir) {q : Path} (hq : q.isAbsolute = false)

include hd hq

theorem join_eq : (⟨dir⟩ : Path).join q = ⟨dir ++ "/" ++ q.text⟩ := by
  have hempty : dir.isEmpty = false := by
    rw [Bool.eq_false_iff, ne_eq, String.isEmpty_iff]
    exact hd.ne_empty
  have hlast : dir.toList.getLast? ≠ some '/' := fun h =>
    hd.slash_not_mem (List.mem_of_getLast? h)
  rw [join, hq]
  simp [hempty, hlast]

/-- A path below a directory has the directory's name before its own segments. -/
theorem segments_join_of_relative : ((⟨dir⟩ : Path).join q).segments = dir :: q.segments := by
  have hsplit : (dir ++ "/" ++ q.text).toList = dir.toList ++ '/' :: q.text.toList := by simp
  rw [join_eq hd hq, segments, Text.segments, hsplit,
    List.splitOn_append_cons_self_of_not_mem hd.slash_not_mem, List.map_cons,
    String.ofList_toList]
  rfl

theorem isAbsolute_join_of_relative : ((⟨dir⟩ : Path).join q).isAbsolute = false := by
  rw [join_eq hd hq, isAbsolute, beq_eq_false_iff_ne]
  obtain ⟨c, cs, hc⟩ := List.exists_cons_of_ne_nil (mt String.toList_eq_nil_iff.1 hd.ne_empty)
  intro hhead
  have hslash : c = '/' := by simpa [hc] using hhead
  exact hd.slash_not_mem (by simp [hc, hslash])

/-- A path below a directory has the directory's name before its own components. -/
theorem components_join_of_relative :
    ((⟨dir⟩ : Path).join q).components = .name dir :: innerComponents q.segments := by
  rw [components, segments_join_of_relative hd hq]
  split
  · rename_i h
    exact absurd (List.cons.inj h).1 hd.ne_empty
  · rename_i h
    exact absurd (List.cons.inj h).1 hd.ne_here
  · simp [innerComponents, hd.ofSegment?_eq]

end Relative

section File

variable {dir file : String} (hd : IsFileName dir) (hf : IsFileName file)

include hf in
theorem segments_file : (⟨file⟩ : Path).segments = [file] := by
  rw [segments, Text.segments, List.splitOn_eq_singleton hf.slash_not_mem, List.map_singleton,
    String.ofList_toList]

include hd hf

/-- A file below a directory has two segments. -/
theorem segments_join : ((⟨dir⟩ : Path).join ⟨file⟩).segments = [dir, file] := by
  rw [segments_join_of_relative hd hf.isAbsolute_eq, segments_file hf]

theorem isAbsolute_join : ((⟨dir⟩ : Path).join ⟨file⟩).isAbsolute = false :=
  isAbsolute_join_of_relative hd hf.isAbsolute_eq

/-- A file below a directory has two components. -/
theorem components_join : ((⟨dir⟩ : Path).join ⟨file⟩).components = [.name dir, .name file] := by
  rw [components_join_of_relative hd hf.isAbsolute_eq, segments_file hf]
  simp [innerComponents, hf.ofSegment?_eq]

end File

/-- Below a directory every relative path adds its segments to the same ones, with which the
path of the directory itself starts. -/
theorem exists_segments_join (root : Path) :
    ∃ stem, stem <+: root.segments ∧ ∀ q : Path, q.isAbsolute = false →
      (root.join q).segments = stem ++ q.segments ∧
      (root.join q).isAbsolute = root.isAbsolute := by
  by_cases hempty : root.text = ""
  · refine ⟨[], List.nil_prefix, fun q hq => ?_⟩
    have hjoin : root.join q = q := by simp [join, hempty]
    have hroot : root.isAbsolute = false := by simp [isAbsolute, hempty]
    rw [hjoin, hq, hroot]
    exact ⟨rfl, rfl⟩
  -- What stands before the slash that is at the end of the directory or added to it.
  have hbefore : ∃ before : String, Text.segments '/' before <+: root.segments ∧
      (∀ q : Path, q.isAbsolute = false → root.join q = ⟨before ++ "/" ++ q.text⟩) ∧
      ∀ rest : List Char, (before.toList ++ '/' :: rest).head? = root.text.toList.head? := by
    by_cases hlast : root.text.toList.getLast? = some '/'
    · obtain ⟨before, hsplit⟩ := List.getLast?_eq_some_iff.1 hlast
      have htext : root.text = String.ofList before ++ "/" := by
        rw [← String.toList_inj, hsplit, String.toList_append, String.toList_ofList]
        rfl
      refine ⟨String.ofList before, ?_, fun q hq => ?_, fun rest => ?_⟩
      · have hsegments := Text.segments_append_sep '/' (String.ofList before) ""
        rw [String.append_empty, show String.singleton '/' = "/" from rfl, ← htext] at hsegments
        exact ⟨_, hsegments.symm⟩
      · rw [join, hq, Bool.false_or, if_neg (by simpa using hempty), if_pos hlast, htext]
      · rw [hsplit, String.toList_ofList, List.head?_append, List.head?_append]
        rfl
    · refine ⟨root.text, List.prefix_rfl, fun q hq => ?_, fun rest => ?_⟩
      · simp [join, hq, hempty, hlast]
      · obtain ⟨c, cs, hc⟩ :=
          List.exists_cons_of_ne_nil (mt String.toList_eq_nil_iff.1 hempty)
        simp [hc]
  obtain ⟨before, hprefix, hjoin, hhead⟩ := hbefore
  refine ⟨Text.segments '/' before, hprefix, fun q hq => ?_⟩
  rw [hjoin q hq]
  refine ⟨Text.segments_append_sep '/' before q.text, ?_⟩
  have hchars : (before ++ "/" ++ q.text).toList = before.toList ++ '/' :: q.text.toList := by simp
  rw [isAbsolute, hchars, hhead, isAbsolute]

/-! ## The directory of a file -/

/-- A name among the segments is a component. -/
theorem name_mem_components {p : Path} {name : String} (h : name ∈ p.segments)
    (hname : name ∉ ["", ".", ".."]) : .name name ∈ p.components := by
  have hinner : ∀ {segments : List String}, name ∈ segments →
      Component.name name ∈ innerComponents segments := by
    intro segments hmem
    exact List.mem_filterMap.2 ⟨name, hmem, ofSegment?_eq_name_iff.2 ⟨rfl, hname⟩⟩
  simp only [List.mem_cons, List.not_mem_nil, or_false, not_or] at hname
  unfold components
  split
  · rename_i rest hsegments
    rw [hsegments] at h
    have hrest : name ∈ rest := (List.mem_cons.1 h).resolve_left hname.1
    obtain ⟨next, rest, rfl⟩ := List.exists_cons_of_ne_nil (List.ne_nil_of_mem hrest)
    rw [if_pos (isAbsolute_of_segments hsegments)]
    exact List.mem_cons_of_mem _ (hinner hrest)
  · rename_i rest hsegments
    rw [hsegments] at h
    exact List.mem_cons_of_mem _ (hinner ((List.mem_cons.1 h).resolve_left hname.2.1))
  · exact hinner h

/-- Two names as components are two segments with void ones between and behind them. -/
theorem exists_segments_of_components {p : Path} {dir file : String}
    (h : p.components = [.name dir, .name file]) :
    ∃ between behind, p.segments = dir :: (between ++ file :: behind) ∧
      (∀ s ∈ between, IsVoid s) ∧ (∀ s ∈ behind, IsVoid s) ∧ file ∉ ["", ".", ".."] := by
  unfold components at h
  split at h
  · split at h <;> cases h
  · cases h
  · rename_i segments hempty hhere
    cases hsegments : p.segments with
    | nil =>
      rw [hsegments] at h
      cases h
    | cons first rest =>
      rw [hsegments] at h
      have hvoid : ¬ IsVoid first := by
        rintro (rfl | rfl)
        · exact hempty rest hsegments
        · exact hhere rest hsegments
      obtain ⟨c, hc⟩ := Option.ne_none_iff_exists'.1 (mt ofSegment?_eq_none_iff.1 hvoid)
      rw [innerComponents, List.filterMap_cons_some hc] at h
      obtain ⟨hfirst, hrest⟩ := List.cons.inj h
      subst hfirst
      obtain rfl : first = dir := (ofSegment?_eq_name_iff.1 hc).1
      obtain ⟨between, segment, behind, rfl, hbetween, hfile, hbehind⟩ :=
        List.filterMap_eq_cons_iff.1 hrest
      obtain ⟨rfl, hname⟩ := ofSegment?_eq_name_iff.1 hfile
      refine ⟨between, behind, rfl, fun s hs => ?_, ?_, hname⟩
      · exact ofSegment?_eq_none_iff.1 (hbetween s hs)
      · exact innerComponents_eq_nil_iff.1 hbehind

theorem dropVoid_append {segments rest : List String} {last : String}
    (h : ∀ s ∈ segments, IsVoid s) (hlast : ¬ IsVoid last) :
    dropVoid (segments.reverse ++ last :: rest) = last :: rest := by
  rw [dropVoid, List.dropWhile_append_of_pos, List.dropWhile_cons_of_neg]
  · simpa [IsVoid] using hlast
  · intro s hs
    simpa [IsVoid] using h s (List.mem_reverse.1 hs)

/-- The directory of a path is named by the segments before the last name. -/
theorem parent?_of_name {p : Path} {leading behind : List String} {name : String}
    (h : p.segments = leading ++ name :: behind) (hname : name ∉ ["", ".", ".."])
    (hbehind : ∀ s ∈ behind, IsVoid s) :
    p.parent? = some ⟨directoryText p.isAbsolute p.segments.head? leading.reverse⟩ := by
  have hnot : ¬ IsVoid name := by
    rintro (rfl | rfl) <;> simp at hname
  have hmem : Component.name name ∈ p.components := name_mem_components (by simp [h]) hname
  have hreverse : p.segments.reverse = behind.reverse ++ name :: leading.reverse := by simp [h]
  have hdrop : dropVoid (behind.reverse ++ name :: leading.reverse) = name :: leading.reverse :=
    dropVoid_append hbehind hnot
  unfold parent?
  split
  · rename_i hnil
    rw [hnil] at hmem
    cases hmem
  · rename_i hroot
    rw [hroot] at hmem
    simp at hmem
  · rename_i hhere
    rw [hhere] at hmem
    simp at hmem
  · rw [hreverse, hdrop, List.drop_one, List.tail_cons]

/-- The directory of a file is what its path names up to the segment before the file's name and
void ones. -/
theorem parent?_eq {p : Path} {leading between behind : List String} {dir file : String}
    (h : p.segments = leading ++ dir :: (between ++ file :: behind))
    (hdir : ¬ IsVoid dir) (hfile : file ∉ ["", ".", ".."]) (hbetween : ∀ s ∈ between, IsVoid s)
    (hbehind : ∀ s ∈ behind, IsVoid s) :
    p.parent? = some ⟨Text.joinSegments '/' (leading ++ [dir])⟩ := by
  have hsegments : p.segments = (leading ++ dir :: between) ++ file :: behind := by simp [h]
  have hreverse : (leading ++ dir :: between).reverse =
      between.reverse ++ dir :: leading.reverse := by simp
  rw [parent?_of_name hsegments hfile hbehind, hreverse, directoryText,
    dropVoid_append hbetween hdir]
  show some (⟨Text.joinSegments '/' (dir :: leading.reverse).reverse⟩ : Path) = _
  rw [List.reverse_cons, List.reverse_reverse]

/-- The directory of a path that ends with a name: up to void segments it is named by the segments
before the name. -/
theorem exists_parent {p : Path} {leading : List String} {name : String}
    (h : p.segments = leading ++ [name]) (hname : name ∉ ["", ".", ".."]) :
    ∃ parent, p.parent? = some parent ∧ parent.isAbsolute = p.isAbsolute ∧
      ∃ kept between rest, leading = kept ++ between ∧ parent.segments = kept ++ rest ∧
        (∀ s ∈ between, IsVoid s) ∧ ∀ s ∈ rest, IsVoid s := by
  rw [parent?_of_name h hname (by simp), directoryText]
  cases hfind : leading.reverse.find? (fun s => !decide (IsVoid s)) with
  | none =>
    have hvoid : ∀ s ∈ leading, IsVoid s := fun s hs => by
      simpa using List.find?_eq_none.1 hfind s (List.mem_reverse.2 hs)
    have hdrop : dropVoid leading.reverse = [] := List.dropWhile_eq_nil_iff.2 fun s hs => by
      simpa [IsVoid] using hvoid s (List.mem_reverse.1 hs)
    rw [hdrop]
    dsimp only
    cases p.isAbsolute with
    | true =>
      rw [if_pos rfl]
      exact ⟨_, rfl, rfl, [], leading, _, rfl, rfl, hvoid, by decide⟩
    | false =>
      rw [if_neg (by simp)]
      split <;> exact ⟨_, rfl, rfl, [], leading, _, rfl, rfl, hvoid, by decide⟩
  | some dir =>
    obtain ⟨hdir, behind, before, hsplit, hbehind⟩ := List.find?_eq_some_iff_append.1 hfind
    have hdir : ¬ IsVoid dir := by simpa using hdir
    have hbehind : ∀ s ∈ behind, IsVoid s := fun s hs => by simpa using hbehind s hs
    have hleading : leading = (before.reverse ++ [dir]) ++ behind.reverse := by
      rw [← List.reverse_reverse leading, hsplit]
      simp
    have hdrop : dropVoid leading.reverse = dir :: before := by
      rw [hsplit, ← List.reverse_reverse behind]
      exact dropVoid_append (fun s hs => hbehind s (List.mem_reverse.1 hs)) hdir
    have hkept : ∀ s ∈ before.reverse ++ [dir], '/' ∉ s.toList := fun s hs =>
      Text.not_mem_of_mem_segments (s := p.text) (by
        show s ∈ p.segments
        rw [h, hleading]
        exact List.mem_append_left _ (List.mem_append_left _ hs))
    have hsegments : (⟨Text.joinSegments '/' (dir :: before).reverse⟩ : Path).segments =
        before.reverse ++ [dir] := by
      rw [List.reverse_cons]
      exact Text.segments_joinSegments '/' (by simp) hkept
    rw [hdrop]
    dsimp only
    refine ⟨_, rfl, ?_, before.reverse ++ [dir], behind.reverse, [], hleading,
      hsegments.trans (List.append_nil _).symm, fun s hs => hbehind s (List.mem_reverse.1 hs),
      by simp⟩
    have hempty : dir ≠ "" := fun he => hdir (.inl he)
    rw [Bool.eq_iff_iff, isAbsolute_iff, isAbsolute_iff, hsegments, h, hleading]
    rcases before.reverse with _ | ⟨first, _ | ⟨second, others⟩⟩ <;> simp [hempty]

/-! ## Paths of names -/

/-- A path of names only: it starts where it is put, and it never goes up. -/
def OfNames (p : Path) : Prop := ∀ c ∈ p.components, ∃ name, c = .name name

namespace OfNames

variable {p : Path} (h : p.OfNames)

include h

theorem isAbsolute_eq : p.isAbsolute = false := by
  rw [Bool.eq_false_iff]
  intro habsolute
  obtain ⟨next, rest, hsegments⟩ := isAbsolute_iff.1 habsolute
  have hroot : Component.root ∈ p.components := by
    simp [components, hsegments, habsolute]
  obtain ⟨name, hname⟩ := h _ hroot
  cases hname

theorem components_eq_inner : p.components = innerComponents p.segments := by
  have hrelative := h.isAbsolute_eq
  unfold components
  split
  · rename_i rest hsegments
    cases rest with
    | nil =>
      rw [hsegments, if_neg (by simp [hrelative])]
      rfl
    | cons next rest =>
      rw [isAbsolute_of_segments hsegments] at hrelative
      cases hrelative
  · rename_i rest hsegments
    have hhere : Component.here ∈ p.components := by
      rw [components, hsegments]
      exact List.mem_cons_self
    obtain ⟨name, hname⟩ := h _ hhere
    cases hname
  · rfl

theorem up_not_mem : ".." ∉ p.segments := by
  intro hmem
  have hup : Component.up ∈ p.components := by
    rw [h.components_eq_inner]
    exact List.mem_filterMap.2 ⟨"..", hmem, rfl⟩
  obtain ⟨name, hname⟩ := h _ hup
  cases hname

end OfNames

end Path

end SwiftDecls
