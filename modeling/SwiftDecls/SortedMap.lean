/-!
# Maps kept in key order

A `SortedMap` is a list of entries in strictly ascending key order, so a map is determined by
what it holds: two histories of insertions that leave the same entries leave equal maps.
Inserting under a key that is present replaces the value and keeps the entry's place.

`get?_insert_self` and `get?_insert_of_ne` say how an insertion shows in look-ups.
-/

set_option autoImplicit false

namespace SwiftDecls

variable {κ α : Type} [Ord κ]

/-- Puts an entry into a list in key order, in place of the entry with its key if there is one. -/
def insertEntry (k : κ) (v : α) : List (κ × α) → List (κ × α)
  | [] => [(k, v)]
  | e :: rest =>
    match compare k e.1 with
    | .lt => (k, v) :: e :: rest
    | .eq => (k, v) :: rest
    | .gt => e :: insertEntry k v rest

/-- Each key is below all later ones. -/
def Ascending (entries : List (κ × α)) : Prop :=
  entries.Pairwise fun a b => compare a.1 b.1 = .lt

theorem key_of_mem_insertEntry {k : κ} {v : α} {entries : List (κ × α)} {e : κ × α}
    (h : e ∈ insertEntry k v entries) : e.1 = k ∨ e ∈ entries := by
  induction entries with
  | nil => simp [insertEntry] at h; simp [h]
  | cons a rest ih =>
    unfold insertEntry at h
    split at h
    · rcases List.mem_cons.1 h with rfl | h
      · exact .inl rfl
      · exact .inr h
    · rcases List.mem_cons.1 h with rfl | h
      · exact .inl rfl
      · exact .inr (List.mem_cons_of_mem _ h)
    · rcases List.mem_cons.1 h with rfl | h
      · exact .inr List.mem_cons_self
      · exact (ih h).imp_right (List.mem_cons_of_mem _)

theorem Ascending.insertEntry [Std.TransOrd κ] [Std.LawfulEqOrd κ] {entries : List (κ × α)}
    (h : Ascending entries) (k : κ) (v : α) : Ascending (insertEntry k v entries) := by
  induction entries with
  | nil => simp [SwiftDecls.insertEntry, Ascending]
  | cons a rest ih =>
    obtain ⟨ha, hr⟩ := List.pairwise_cons.1 h
    unfold SwiftDecls.insertEntry
    split
    · rename_i hlt
      refine List.pairwise_cons.2 ⟨fun b hb => ?_, h⟩
      rcases List.mem_cons.1 hb with rfl | hb
      · exact hlt
      · exact Std.TransCmp.lt_trans hlt (ha b hb)
    · rename_i heq
      obtain rfl : k = a.1 := Std.LawfulEqCmp.eq_of_compare heq
      exact List.pairwise_cons.2 ⟨ha, hr⟩
    · rename_i hgt
      refine List.pairwise_cons.2 ⟨fun b hb => ?_, ih hr⟩
      rcases key_of_mem_insertEntry hb with hk | hb
      · rw [hk]; exact Std.OrientedCmp.gt_iff_lt.1 hgt
      · exact ha b hb

/-- Entries with pairwise different keys, in key order. -/
structure SortedMap (κ α : Type) [Ord κ] where
  entries : List (κ × α)
  ascending : Ascending entries

namespace SortedMap

/-- The map with no entry. -/
def empty : SortedMap κ α := ⟨[], List.Pairwise.nil⟩

instance : EmptyCollection (SortedMap κ α) := ⟨empty⟩

instance : Inhabited (SortedMap κ α) := ⟨empty⟩

/-- The map with `v` under `k`. -/
def insert [Std.TransOrd κ] [Std.LawfulEqOrd κ] (m : SortedMap κ α) (k : κ) (v : α) :
    SortedMap κ α :=
  ⟨insertEntry k v m.entries, m.ascending.insertEntry k v⟩

/-- The value under a key. -/
def get? (m : SortedMap κ α) (k : κ) : Option α :=
  (m.entries.find? fun e => compare k e.1 == .eq).map (·.2)

/-- A key is present. -/
def contains (m : SortedMap κ α) (k : κ) : Bool := (m.get? k).isSome

/-- The number of entries. -/
def size (m : SortedMap κ α) : Nat := m.entries.length

/-- There is no entry. -/
def isEmpty (m : SortedMap κ α) : Bool := m.entries.isEmpty

/-- The values in key order. -/
def values (m : SortedMap κ α) : List α := m.entries.map (·.2)

/-- Inserts entries one after the other, so of two with one key the later stays. -/
def insertAll [Std.TransOrd κ] [Std.LawfulEqOrd κ] (m : SortedMap κ α) (es : List (κ × α)) :
    SortedMap κ α :=
  es.foldl (fun m e => m.insert e.1 e.2) m

/-- Maps with the same entries are equal. -/
@[ext] theorem ext {m n : SortedMap κ α} (h : m.entries = n.entries) : m = n := by
  cases m; cases n; cases h; rfl

@[simp] theorem entries_empty : (∅ : SortedMap κ α).entries = [] := rfl

@[simp] theorem get?_empty (k : κ) : (∅ : SortedMap κ α).get? k = none := rfl

variable [Std.TransOrd κ] [Std.LawfulEqOrd κ]

@[simp] theorem entries_insert (m : SortedMap κ α) (k : κ) (v : α) :
    (m.insert k v).entries = insertEntry k v m.entries := rfl

@[simp] theorem insertAll_nil (m : SortedMap κ α) : m.insertAll [] = m := rfl

@[simp] theorem insertAll_cons (m : SortedMap κ α) (e : κ × α) (es : List (κ × α)) :
    m.insertAll (e :: es) = (m.insert e.1 e.2).insertAll es := rfl

theorem insertAll_append (m : SortedMap κ α) (es fs : List (κ × α)) :
    m.insertAll (es ++ fs) = (m.insertAll es).insertAll fs := by
  simp [insertAll, List.foldl_append]

/-- What was inserted last under a key is found there. -/
@[simp] theorem get?_insert_self (m : SortedMap κ α) (k : κ) (v : α) :
    (m.insert k v).get? k = some v := by
  simp only [get?, entries_insert]
  induction m.entries with
  | nil => simp [insertEntry]
  | cons a rest ih =>
    unfold insertEntry
    split
    · simp
    · simp
    · rename_i hgt
      rw [List.find?_cons_of_neg (by simp [hgt])]
      exact ih

/-- An insertion does not show under other keys. -/
theorem get?_insert_of_ne (m : SortedMap κ α) {k k' : κ} (v : α) (h : k' ≠ k) :
    (m.insert k v).get? k' = m.get? k' := by
  have hk : (compare k' k == .eq) = false := by
    simp only [beq_eq_false_iff_ne]
    exact fun he => h (Std.LawfulEqCmp.eq_of_compare he)
  simp only [get?, entries_insert]
  induction m.entries with
  | nil => simp [insertEntry, hk]
  | cons a rest ih =>
    unfold insertEntry
    split
    · rw [List.find?_cons_of_neg (by simp [hk])]
    · rename_i heq
      obtain rfl : k = a.1 := Std.LawfulEqCmp.eq_of_compare heq
      rw [List.find?_cons_of_neg (by simp [hk]), List.find?_cons_of_neg (by simp [hk])]
    · simp only [List.find?_cons]
      split
      · rfl
      · exact ih

end SortedMap

end SwiftDecls
