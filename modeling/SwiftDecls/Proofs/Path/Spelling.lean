import SwiftDecls.Proofs.Path
import SwiftDecls.Proofs.Text.ByteOrder

/-!
# Spellings and the order of paths

What a path is spelled like counts only in part: whether it starts at the root or with a `.`, and
its segments that are neither empty nor `.` (`Path.same_iff`). So slashes may be repeated or stand at
the end, and a `.` may stand anywhere but at the start.

Paths are in the order of their components, compared one after the other (`lex_of_compare`).
Components are in the order of their kinds, and names in the order of their bytes
(`Component.Before`).
-/

set_option autoImplicit false

namespace SwiftDecls

/-! ## Spellings -/

namespace Path

instance (p q : Path) : Decidable (p.Same q) :=
  inferInstanceAs (Decidable (p.components = q.components))

/-- The segments of a path that are components. -/
def steps (p : Path) : List String := p.segments.filter fun s => !decide (IsVoid s)

/-- A path that starts with a `.`, which is a component there. -/
def startsHere (p : Path) : Bool := p.segments.head? == some "."

/-- The component that starts a path besides its segments. -/
def origin (p : Path) : List Component :=
  if p.isAbsolute then [.root] else if p.startsHere then [.here] else []

/-- The component of a segment that is one. -/
def component (segment : String) : Component := if segment = ".." then .up else .name segment

theorem innerComponents_eq (segments : List String) :
    innerComponents segments = (segments.filter fun s => !decide (IsVoid s)).map component := by
  induction segments with
  | nil => rfl
  | cons s rest ih =>
    rw [innerComponents, List.filterMap_cons, ← innerComponents, ih]
    by_cases hvoid : IsVoid s
    · simp [ofSegment?_eq_none_iff.2 hvoid, hvoid]
    · have hsome : Component.ofSegment? s = some (component s) := by
        have hneither : ¬ (s = "" ∨ s = ".") := hvoid
        rw [Component.ofSegment?, if_neg hneither, component]
        split <;> rfl
      simp [hsome, hvoid]

theorem startsHere_of_isAbsolute {p : Path} (h : p.isAbsolute = true) : p.startsHere = false := by
  obtain ⟨rest, hsegments⟩ := exists_segments_of_isAbsolute h
  rw [startsHere, hsegments]
  rfl

/-- The components of a path are its origin and its steps. -/
theorem components_eq (p : Path) : p.components = p.origin ++ p.steps.map component := by
  have hvoid : IsVoid "" ∧ IsVoid "." := by decide
  unfold components
  split
  · rename_i rest hsegments
    split
    · rename_i habsolute
      simp [origin, steps, habsolute, hsegments, hvoid.1, innerComponents_eq]
    · rename_i habsolute
      have hrest : rest = [] := by
        by_contra hne
        obtain ⟨next, rest, rfl⟩ := List.exists_cons_of_ne_nil hne
        exact habsolute (isAbsolute_of_segments hsegments)
      simp [origin, steps, startsHere, habsolute, hsegments, hvoid.1, hrest]
  · rename_i rest hsegments
    have hhere : p.startsHere = true := by simp [startsHere, hsegments]
    have hrelative : p.isAbsolute = false := by
      by_contra habsolute
      rw [startsHere_of_isAbsolute (by simpa using habsolute)] at hhere
      cases hhere
    simp [origin, steps, hrelative, hhere, hsegments, hvoid.2, innerComponents_eq]
  · rename_i hroot hhere
    have hrelative : p.isAbsolute ≠ true := fun habsolute =>
      (exists_segments_of_isAbsolute habsolute).elim hroot
    have hnothere : p.startsHere ≠ true := fun hstarts =>
      (List.head?_eq_some_iff.1 (beq_iff_eq.1 hstarts)).elim hhere
    simp [origin, steps, hrelative, hnothere, innerComponents_eq]

theorem component_injective : Function.Injective component := by
  intro s t h
  unfold component at h
  split at h <;> split at h <;> simp_all

theorem component_ne (segment : String) :
    component segment ≠ .root ∧ component segment ≠ .here := by
  unfold component
  split <;> simp

theorem isAbsolute_iff_root_mem {p : Path} : p.isAbsolute = true ↔ .root ∈ p.components := by
  rw [components_eq, List.mem_append, origin]
  have hsteps : .root ∉ p.steps.map component := fun hmem => by
    obtain ⟨s, -, hs⟩ := List.mem_map.1 hmem
    exact (component_ne s).1 hs
  split
  · simp [*]
  · split <;> simp [*]

theorem startsHere_iff_here_mem {p : Path} : p.startsHere = true ↔ .here ∈ p.components := by
  rw [components_eq, List.mem_append, origin]
  have hsteps : .here ∉ p.steps.map component := fun hmem => by
    obtain ⟨s, -, hs⟩ := List.mem_map.1 hmem
    exact (component_ne s).2 hs
  split
  · rename_i habsolute
    simp [startsHere_of_isAbsolute habsolute, hsteps]
  · split <;> simp [*]

/-- **Paths are the same exactly if they start alike and have the same steps.** -/
theorem same_iff {p q : Path} :
    p.Same q ↔ p.isAbsolute = q.isAbsolute ∧ p.startsHere = q.startsHere ∧ p.steps = q.steps := by
  constructor
  · intro h
    have h : p.components = q.components := h
    have habsolute : p.isAbsolute = q.isAbsolute := by
      rw [Bool.eq_iff_iff, isAbsolute_iff_root_mem, isAbsolute_iff_root_mem, h]
    have hhere : p.startsHere = q.startsHere := by
      rw [Bool.eq_iff_iff, startsHere_iff_here_mem, startsHere_iff_here_mem, h]
    have horigin : p.origin = q.origin := by rw [origin, origin, habsolute, hhere]
    rw [components_eq, components_eq, horigin] at h
    have hsteps : p.steps = q.steps :=
      (List.map_inj_right fun _ _ hst => component_injective hst).1 (List.append_cancel_left h)
    exact ⟨habsolute, hhere, hsteps⟩
  · rintro ⟨habsolute, hhere, hsteps⟩
    rw [Same, components_eq, components_eq, origin, origin, habsolute, hhere, hsteps]

example : (⟨"a//b/./c/"⟩ : Path).Same ⟨"a/b/c"⟩ ∧ ¬ (⟨"./a"⟩ : Path).Same ⟨"a"⟩ := by
  decide +kernel

end Path

/-! ## Order -/

/-- The order of components: by their kinds, and names by their bytes. -/
def Component.Before (c d : Component) : Prop :=
  c.kind < d.kind ∨ (c.kind = d.kind ∧ Text.utf8Bytes c.label < Text.utf8Bytes d.label)

theorem Component.before_of_compare {c d : Component} (h : compare c d = .lt) : c.Before d := by
  have h : (compare c.kind d.kind).then (compare c.label d.label) = .lt := h
  rcases Ordering.then_eq_lt.1 h with hkind | ⟨hkind, hlabel⟩
  · exact .inl (Nat.compare_eq_lt.1 hkind)
  · have hlt : c.label < d.label := compareOfLessAndEq_eq_lt.1 hlabel
    exact .inr ⟨Nat.compare_eq_eq.1 hkind, Text.utf8Bytes_lt_of_lt hlt⟩

/-- Lists of components are compared component by component. -/
theorem lex_of_compare {cs ds : List Component} (h : compare cs ds = .lt) :
    List.Lex Component.Before cs ds := by
  induction cs generalizing ds with
  | nil =>
    cases ds with
    | nil => cases h
    | cons d ds => exact .nil
  | cons c cs ih =>
    cases ds with
    | nil => cases h
    | cons d ds =>
      rw [List.compare_cons_cons, Ordering.then_eq_lt] at h
      rcases h with hfirst | ⟨hfirst, hrest⟩
      · exact .rel (Component.before_of_compare hfirst)
      · obtain rfl : c = d := Std.LawfulEqCmp.eq_of_compare hfirst
        exact .cons (ih hrest)

end SwiftDecls
