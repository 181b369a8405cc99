import Mathlib.Data.List.Dedup
import Mathlib.Data.List.Perm.Basic
import Mathlib.Order.Basic
import SwiftDecls.SortedMap

/-!
# What a sorted map holds

The view of a map is its entries: a look-up finds a value exactly if the entry is there
(`get?_eq_some_iff`), no two entries have one key (`keys_nodup`), and an insertion under a new
key adds one entry wherever the order puts it (`entries_insert_perm`), so that insertions under
different keys are all kept (`entries_insertAll_perm`). `mapValues` changes values and commutes
with insertion.

Maps that answer all look-ups alike are equal (`ext_get?`), so insertions under different keys
commute, and a map does not depend on the order in which entries with different keys come
(`insertAll_flatMap_perm`). Of insertions under one key the last counts
(`get?_insertAll_map_eq_some_iff`), where `IsLast` says what it is to be the last of a list.
-/

set_option autoImplicit false

namespace SwiftDecls

section Entries

variable {κ α : Type} [Ord κ]

theorem mem_keys_insertEntry [Std.LawfulEqOrd κ] {k k' : κ} {v : α} {entries : List (κ × α)} :
    k' ∈ (insertEntry k v entries).map (·.1) ↔ k' = k ∨ k' ∈ entries.map (·.1) := by
  induction entries with
  | nil => simp [insertEntry]
  | cons e rest ih =>
    unfold insertEntry
    split
    · simp
    · rename_i heq
      obtain rfl : k = e.1 := Std.LawfulEqCmp.eq_of_compare heq
      simp
    · rw [List.map_cons, List.mem_cons, ih, List.map_cons, List.mem_cons]
      exact or_left_comm

theorem mem_of_mem_insertEntry {k : κ} {v : α} {entries : List (κ × α)} {e : κ × α}
    (h : e ∈ insertEntry k v entries) : e = (k, v) ∨ e ∈ entries := by
  induction entries with
  | nil => exact .inl (List.mem_singleton.1 h)
  | cons a rest ih =>
    unfold insertEntry at h
    split at h
    · exact List.mem_cons.1 h
    · exact (List.mem_cons.1 h).imp_right (List.mem_cons_of_mem a)
    · rcases List.mem_cons.1 h with rfl | h
      · exact .inr List.mem_cons_self
      · exact (ih h).imp_right (List.mem_cons_of_mem a)

/-- A new key adds one entry. -/
theorem insertEntry_perm [Std.LawfulEqOrd κ] {k : κ} (v : α) {entries : List (κ × α)}
    (h : k ∉ entries.map (·.1)) : (insertEntry k v entries).Perm ((k, v) :: entries) := by
  induction entries with
  | nil => exact .refl _
  | cons e rest ih =>
    rw [List.map_cons, List.mem_cons, not_or] at h
    unfold insertEntry
    split
    · exact .refl _
    · rename_i heq
      exact absurd (Std.LawfulEqCmp.eq_of_compare heq) h.1
    · exact ((ih h.2).cons e).trans (.swap ..)

theorem insertEntry_map {β : Type} (f : α → β) (k : κ) (v : α) (entries : List (κ × α)) :
    (insertEntry k v entries).map (fun e => (e.1, f e.2)) =
      insertEntry k (f v) (entries.map fun e => (e.1, f e.2)) := by
  induction entries with
  | nil => rfl
  | cons e rest ih =>
    rw [insertEntry, List.map_cons, insertEntry]
    cases compare k e.1 with
    | lt => rfl
    | eq => rfl
    | gt => simp only [List.map_cons, ih]

end Entries

section Last

variable {α : Type} {p : α → Prop}

/-- The last of a list that has a property. -/
def IsLast (p : α → Prop) (as : List α) (a : α) : Prop :=
  ∃ before after, as = before ++ a :: after ∧ p a ∧ ∀ b ∈ after, ¬ p b

theorem IsLast.mem {as : List α} {a : α} (h : IsLast p as a) : a ∈ as := by
  obtain ⟨before, after, rfl, -⟩ := h
  exact List.mem_append_right before List.mem_cons_self

theorem IsLast.prop {as : List α} {a : α} (h : IsLast p as a) : p a := by
  obtain ⟨_, _, -, ha, -⟩ := h
  exact ha

@[simp] theorem not_isLast_nil (a : α) : ¬ IsLast p [] a := fun h => List.not_mem_nil h.mem

theorem isLast_cons_iff {a b : α} {rest : List α} :
    IsLast p (b :: rest) a ↔ IsLast p rest a ∨ (a = b ∧ p b ∧ ∀ c ∈ rest, ¬ p c) := by
  constructor
  · rintro ⟨before, after, hsplit, ha, hafter⟩
    cases before with
    | nil =>
      obtain ⟨rfl, rfl⟩ := List.cons.inj hsplit
      exact .inr ⟨rfl, ha, hafter⟩
    | cons c before =>
      obtain ⟨rfl, rfl⟩ := List.cons.inj hsplit
      exact .inl ⟨before, after, rfl, ha, hafter⟩
  · rintro (⟨before, after, rfl, ha, hafter⟩ | ⟨rfl, ha, hafter⟩)
    · exact ⟨b :: before, after, rfl, ha, hafter⟩
    · exact ⟨[], rest, rfl, ha, hafter⟩

theorem exists_isLast_iff {as : List α} : (∃ a, IsLast p as a) ↔ ∃ a ∈ as, p a := by
  constructor
  · rintro ⟨a, ha⟩
    exact ⟨a, ha.mem, ha.prop⟩
  · intro h
    induction as with
    | nil => simp at h
    | cons b rest ih =>
      by_cases hrest : ∃ c ∈ rest, p c
      · obtain ⟨a, ha⟩ := ih hrest
        exact ⟨a, isLast_cons_iff.2 (.inl ha)⟩
      · have hnone : ∀ c ∈ rest, ¬ p c := fun c hc hp => hrest ⟨c, hc, hp⟩
        obtain ⟨a, hmem, ha⟩ := h
        rcases List.mem_cons.1 hmem with rfl | hmem
        · exact ⟨a, isLast_cons_iff.2 (.inr ⟨rfl, ha, hnone⟩)⟩
        · exact absurd ha (hnone a hmem)

end Last

namespace SortedMap

variable {κ α β : Type} [Ord κ]

/-- The keys in order. -/
def keys (m : SortedMap κ α) : List κ := m.entries.map (·.1)

/-- The map with changed values. -/
def mapValues (f : α → β) (m : SortedMap κ α) : SortedMap κ β where
  entries := m.entries.map fun e => (e.1, f e.2)
  ascending := List.pairwise_map.2 (m.ascending.imp fun h => h)

/-- The entries with a property. -/
def filter (p : κ → α → Bool) (m : SortedMap κ α) : SortedMap κ α where
  entries := m.entries.filter fun e => p e.1 e.2
  ascending := m.ascending.filter _

@[simp] theorem length_keys (m : SortedMap κ α) : m.keys.length = m.size := List.length_map _

theorem get?_mapValues (f : α → β) (m : SortedMap κ α) (k : κ) :
    (m.mapValues f).get? k = (m.get? k).map f := by
  simp only [get?, mapValues, List.find?_map, Option.map_map]
  rfl

variable [Std.LawfulEqOrd κ]

theorem keys_nodup (m : SortedMap κ α) : m.keys.Nodup := by
  refine List.pairwise_map.2 (m.ascending.imp ?_)
  intro a b hlt heq
  simp [heq] at hlt

/-- A look-up finds exactly the entries. -/
theorem get?_eq_some_iff {m : SortedMap κ α} {k : κ} {v : α} :
    m.get? k = some v ↔ (k, v) ∈ m.entries := by
  have hn : (m.entries.map (·.1)).Nodup := m.keys_nodup
  rw [get?, Option.map_eq_some_iff]
  constructor
  · rintro ⟨e, he, rfl⟩
    have hk : k = e.1 := by simpa using List.find?_some he
    rw [hk]
    exact List.mem_of_find?_eq_some he
  · intro h
    obtain ⟨before, after, hs⟩ := List.append_of_mem h
    refine ⟨(k, v), ?_, rfl⟩
    have hbefore : before.find? (fun e => compare k e.1 == .eq) = none := by
      refine List.find?_eq_none.2 fun e he heq => ?_
      obtain rfl : k = e.1 := by simpa using heq
      rw [hs, List.map_append, List.nodup_append] at hn
      exact hn.2.2 e.1 (List.mem_map_of_mem he) e.1 (by simp) rfl
    rw [hs, List.find?_append, hbefore, List.find?_cons_of_pos (by simp), Option.none_or]

theorem get?_filter (p : κ → α → Bool) (m : SortedMap κ α) (k : κ) :
    (m.filter p).get? k = (m.get? k).filter (p k) := by
  ext v
  rw [get?_eq_some_iff, filter, List.mem_filter, ← get?_eq_some_iff, Option.filter_eq_some_iff]

theorem get?_eq_none_iff {m : SortedMap κ α} {k : κ} : m.get? k = none ↔ k ∉ m.keys := by
  constructor
  · intro h hk
    obtain ⟨e, he, rfl⟩ := List.mem_map.1 hk
    rw [get?_eq_some_iff.2 he] at h
    cases h
  · intro h
    cases hv : m.get? k with
    | none => rfl
    | some v => exact absurd (List.mem_map_of_mem (get?_eq_some_iff.1 hv)) h

theorem contains_iff {m : SortedMap κ α} {k : κ} : m.contains k = true ↔ k ∈ m.keys := by
  rw [contains, Option.isSome_iff_ne_none, ne_eq, get?_eq_none_iff, not_not]

theorem size_eq_length_dedup [DecidableEq κ] {m : SortedMap κ α} {ks : List κ}
    (h : ∀ k, k ∈ m.keys ↔ k ∈ ks) : m.size = ks.dedup.length := by
  have hperm : m.keys.Perm ks.dedup := by
    refine (List.perm_ext_iff_of_nodup m.keys_nodup ks.nodup_dedup).2 fun k => ?_
    rw [List.mem_dedup, h]
  rw [← length_keys, hperm.length_eq]

variable [Std.TransOrd κ]

@[simp] theorem mapValues_insert (f : α → β) (m : SortedMap κ α) (k : κ) (v : α) :
    (m.insert k v).mapValues f = (m.mapValues f).insert k (f v) :=
  ext (insertEntry_map f k v m.entries)

theorem mem_keys_insert {m : SortedMap κ α} {k k' : κ} {v : α} :
    k' ∈ (m.insert k v).keys ↔ k' = k ∨ k' ∈ m.keys := mem_keys_insertEntry

/-- An insertion leaves the entries under other keys. -/
theorem mem_entries_insert_iff {m : SortedMap κ α} {k : κ} {v : α} {e : κ × α} :
    e ∈ (m.insert k v).entries ↔ e = (k, v) ∨ (e.1 ≠ k ∧ e ∈ m.entries) := by
  obtain ⟨k', v'⟩ := e
  rw [← get?_eq_some_iff, ← get?_eq_some_iff]
  by_cases hk : k' = k
  · subst hk
    simp [eq_comm]
  · simp [get?_insert_of_ne _ _ hk, hk]

/-- An insertion under a new key adds one entry. -/
theorem entries_insert_perm {m : SortedMap κ α} {k : κ} (v : α) (h : k ∉ m.keys) :
    (m.insert k v).entries.Perm ((k, v) :: m.entries) := insertEntry_perm v h

/-! ## The order of insertions -/

/-- Maps that answer alike are equal. -/
theorem ext_get? {m n : SortedMap κ α} (h : ∀ k, m.get? k = n.get? k) : m = n := by
  have hmem : ∀ e, e ∈ m.entries ↔ e ∈ n.entries := by
    intro e
    rw [← get?_eq_some_iff, ← get?_eq_some_iff, h]
  have hnodup : ∀ o : SortedMap κ α, o.entries.Nodup := fun o => .of_map _ o.keys_nodup
  have hperm := (List.perm_ext_iff_of_nodup (hnodup m) (hnodup n)).2 hmem
  refine ext (hperm.eq_of_pairwise (fun a b _ _ hab hba => ?_) m.ascending n.ascending)
  rw [Std.OrientedCmp.gt_iff_lt.2 hba] at hab
  cases hab

theorem insert_comm (m : SortedMap κ α) {k k' : κ} (v v' : α) (h : k ≠ k') :
    (m.insert k v).insert k' v' = (m.insert k' v').insert k v := by
  refine ext_get? fun l => ?_
  by_cases hk : l = k
  · subst hk
    rw [get?_insert_of_ne _ _ h, get?_insert_self, get?_insert_self]
  · rw [get?_insert_of_ne _ _ hk]
    by_cases hk' : l = k'
    · subst hk'
      rw [get?_insert_self, get?_insert_self]
    · rw [get?_insert_of_ne _ _ hk', get?_insert_of_ne _ _ hk', get?_insert_of_ne _ _ hk]

theorem insertAll_insert_comm (m : SortedMap κ α) {k : κ} (v : α) {es : List (κ × α)}
    (h : ∀ e ∈ es, k ≠ e.1) : (m.insert k v).insertAll es = (m.insertAll es).insert k v := by
  induction es generalizing m with
  | nil => rfl
  | cons e rest ih =>
    have hrest : ∀ f ∈ rest, k ≠ f.1 := fun f hf => h f (List.mem_cons_of_mem e hf)
    rw [insertAll_cons, insert_comm m v e.2 (h e List.mem_cons_self), ih _ hrest, insertAll_cons]

theorem insertAll_comm (m : SortedMap κ α) {es fs : List (κ × α)}
    (h : ∀ e ∈ es, ∀ f ∈ fs, e.1 ≠ f.1) :
    (m.insertAll es).insertAll fs = (m.insertAll fs).insertAll es := by
  induction es generalizing m with
  | nil => rfl
  | cons e rest ih =>
    have hrest : ∀ e' ∈ rest, ∀ f ∈ fs, e'.1 ≠ f.1 := fun e' he' =>
      h e' (List.mem_cons_of_mem e he')
    rw [insertAll_cons, ih _ hrest, insertAll_insert_comm m e.2 (h e List.mem_cons_self),
      insertAll_cons]

/-- **Items may come in any order** if the entries of different items have different keys. -/
theorem insertAll_flatMap_perm {β : Type} {f : β → List (κ × α)} {as bs : List β}
    (h : as.Perm bs) (hf : ∀ a ∈ as, ∀ b ∈ as, a ≠ b → ∀ e ∈ f a, ∀ e' ∈ f b, e.1 ≠ e'.1)
    (m : SortedMap κ α) : m.insertAll (as.flatMap f) = m.insertAll (bs.flatMap f) := by
  rw [insertAll, insertAll, List.foldl_flatMap, List.foldl_flatMap]
  refine h.foldl_eq' (fun a ha b hb n => ?_) m
  by_cases hab : a = b
  · rw [hab]
  · exact insertAll_comm n (hf a ha b hb hab)

theorem insertAll_map_perm {β : Type} {f : β → κ × α} {as bs : List β} (h : as.Perm bs)
    (hn : (as.map fun a => (f a).1).Nodup) (m : SortedMap κ α) :
    m.insertAll (as.map f) = m.insertAll (bs.map f) := by
  rw [List.map_eq_flatMap, List.map_eq_flatMap]
  refine insertAll_flatMap_perm h (fun a ha b hb hab e he e' he' => ?_) m
  rw [List.mem_singleton.1 he, List.mem_singleton.1 he']
  exact fun heq => hab (List.inj_on_of_nodup_map hn ha hb heq)

/-! ## Insertions under one key -/

/-- **The last insertion under a key counts**, and what was there before if there is none. -/
theorem get?_insertAll_map_eq_some_iff {m : SortedMap κ α} {key : β → κ} {value : β → α}
    {bs : List β} {k : κ} {v : α} :
    (m.insertAll (bs.map fun b => (key b, value b))).get? k = some v ↔
      (∃ b, IsLast (key · = k) bs b ∧ value b = v) ∨
        ((∀ b ∈ bs, key b ≠ k) ∧ m.get? k = some v) := by
  -- The first item goes into the map, so what was there before changes from step to step.
  induction bs generalizing m with
  | nil => simp
  | cons b rest ih =>
    rw [List.map_cons, insertAll_cons, ih]
    simp only [isLast_cons_iff, List.forall_mem_cons, or_and_right, exists_or, and_assoc,
      exists_eq_left]
    by_cases hk : key b = k
    · subst hk
      rw [get?_insert_self, Option.some.injEq]
      simp
    · rw [get?_insert_of_ne _ _ (Ne.symm hk)]
      simp [hk]

/-- A look-up does not depend on what was inserted under other keys. -/
theorem get?_insertAll_congr {k : κ} {m n : SortedMap κ α} {es fs : List (κ × α)}
    (h : List.Forall₂ (fun e f => e.1 = f.1 ∧ (e.1 = k → e.2 = f.2)) es fs)
    (hmn : m.get? k = n.get? k) : (m.insertAll es).get? k = (n.insertAll fs).get? k := by
  induction h generalizing m n with
  | nil => exact hmn
  | @cons e f _ _ hef _ ih =>
    obtain ⟨hkey, hvalue⟩ := hef
    rw [insertAll_cons, insertAll_cons, ← hkey]
    refine ih ?_
    by_cases hk : e.1 = k
    · rw [hvalue hk, hk, get?_insert_self, get?_insert_self]
    · rw [get?_insert_of_ne _ _ (Ne.symm hk), get?_insert_of_ne _ _ (Ne.symm hk), hmn]

theorem mem_keys_insertAll {m : SortedMap κ α} {es : List (κ × α)} {k : κ} :
    k ∈ (m.insertAll es).keys ↔ k ∈ es.map (·.1) ∨ k ∈ m.keys := by
  induction es generalizing m with
  | nil => simp
  | cons e rest ih =>
    rw [insertAll_cons, ih, mem_keys_insert, List.map_cons, List.mem_cons]
    exact or_left_comm.trans or_assoc.symm

/-- **Insertions under different new keys are all kept**, and nothing else is added. -/
theorem entries_insertAll_perm {m : SortedMap κ α} {es : List (κ × α)}
    (hn : (es.map (·.1)).Nodup) (hm : ∀ e ∈ es, e.1 ∉ m.keys) :
    (m.insertAll es).entries.Perm (es ++ m.entries) := by
  induction es generalizing m with
  | nil => exact .refl _
  | cons e rest ih =>
    obtain ⟨he, hrest⟩ := List.nodup_cons.1 hn
    have hnew : e.1 ∉ m.keys := hm e List.mem_cons_self
    have hkeys : ∀ f ∈ rest, f.1 ∉ (m.insert e.1 e.2).keys := by
      intro f hf hmem
      rcases mem_keys_insert.1 hmem with heq | hmem
      · exact he (List.mem_map.2 ⟨f, hf, heq⟩)
      · exact hm f (List.mem_cons_of_mem e hf) hmem
    rw [insertAll_cons]
    refine (ih hrest hkeys).trans ?_
    exact ((entries_insert_perm e.2 hnew).append_left rest).trans List.perm_middle

end SortedMap

end SwiftDecls
