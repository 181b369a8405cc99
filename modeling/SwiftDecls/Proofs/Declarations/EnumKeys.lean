import SwiftDecls.Declarations.Builtins
import SwiftDecls.Declarations.Classes
import SwiftDecls.Proofs.Naming
import SwiftDecls.Proofs.SortedMap
import SwiftDecls.Proofs.Text.Pieces

/-!
# Keys in the index of enums

An enum nested in a type has the type's name, a dot and its own name as its key. Where the name
of the type has no dot, the key tells which type it belongs to (`append_dot_inj`). Hence types
with different names have different keys, and the index does not depend on the order of the types
(`insertAll_ownedEntries_perm`).

A global enum has its own name as its key. That is no key of a nested enum if it has no dot, or
if it puts the enum into `Variant` and no type has that name (`nodup_keys_append_owned`).
-/

set_option autoImplicit false

namespace SwiftDecls

open Text Naming

theorem dot_not_mem_of_isWord {name : String} (h : IsWord name) : '.' ∉ name.toList := by
  intro hdot
  rcases h '.' hdot with halnum | hunderscore
  · revert halnum
    decide
  · revert hunderscore
    decide

/-- What stands before the first dot can be read back. -/
theorem append_dot_inj {a b x y : String} (ha : '.' ∉ a.toList) (hb : '.' ∉ b.toList)
    (h : a ++ "." ++ x = b ++ "." ++ y) : a = b ∧ x = y := by
  have hchars : a.toList ++ '.' :: x.toList = b.toList ++ '.' :: y.toList := by
    simpa using congrArg String.toList h
  have hsplit := congrArg (List.splitOn '.') hchars
  rw [List.splitOn_append_cons_self_of_not_mem ha,
    List.splitOn_append_cons_self_of_not_mem hb] at hsplit
  obtain rfl : a = b := String.toList_inj.1 (List.cons.inj hsplit).1
  have hrest := (List.cons.inj (List.append_cancel_left hchars)).2
  exact ⟨rfl, String.toList_inj.1 hrest⟩

/-- The entries of enums nested in an owner. -/
def ownedEntries (owner : String) (enums : List EnumDefinition) :
    List (String × EnumDefinition) := enums.map fun e => (owner ++ "." ++ e.name, e)

theorem Builtin.indexEntries_eq :
    Builtin.indexEntries = fun b => ownedEntries b.name b.enumList := rfl

theorem EngineClass.indexEntries_eq :
    EngineClass.indexEntries = fun c => ownedEntries c.name c.enumList := rfl

/-- Different owners have entries with different keys. -/
theorem ownedEntries_key_ne {owner owner' : String} (h : '.' ∉ owner.toList)
    (h' : '.' ∉ owner'.toList) (hne : owner ≠ owner') {enums enums' : List EnumDefinition} :
    ∀ e ∈ ownedEntries owner enums, ∀ e' ∈ ownedEntries owner' enums', e.1 ≠ e'.1 := by
  intro e he e' he' heq
  obtain ⟨d, -, rfl⟩ := List.mem_map.1 he
  obtain ⟨d', -, rfl⟩ := List.mem_map.1 he'
  exact hne (append_dot_inj h h' heq).1

/-- **Owners may come in any order** if they are words and no two are the same. -/
theorem insertAll_ownedEntries_perm {β : Type} (name : β → String)
    (enums : β → List EnumDefinition) {as bs : List β} (h : as.Perm bs)
    (words : ∀ n ∈ as.map name, IsWord n) (distinct : (as.map name).Nodup) (index : EnumIndex) :
    index.insertAll (as.flatMap fun a => ownedEntries (name a) (enums a)) =
      index.insertAll (bs.flatMap fun a => ownedEntries (name a) (enums a)) := by
  refine SortedMap.insertAll_flatMap_perm h (fun a ha b hb hab => ?_) index
  have hname : name a ≠ name b := fun heq => hab (List.inj_on_of_nodup_map distinct ha hb heq)
  have hdot : ∀ n ∈ as.map name, '.' ∉ n.toList := fun n hn => dot_not_mem_of_isWord (words n hn)
  exact ownedEntries_key_ne (hdot _ (List.mem_map_of_mem ha)) (hdot _ (List.mem_map_of_mem hb))
    hname

/-! ## Different keys -/

/-- The enums of one owner have different keys exactly if they have different names. -/
theorem nodup_keys_ownedEntries_iff (owner : String) (enums : List EnumDefinition) :
    ((ownedEntries owner enums).map (·.1)).Nodup ↔ (enums.map (·.name)).Nodup := by
  have hkeys : (ownedEntries owner enums).map (·.1) =
      (enums.map (·.name)).map (owner ++ "." ++ ·) := by
    rw [ownedEntries, List.map_map, List.map_map]
    rfl
  rw [hkeys]
  refine List.nodup_map_iff fun x y hxy => ?_
  have hchars : (owner ++ ".").toList ++ x.toList = (owner ++ ".").toList ++ y.toList := by
    rw [← String.toList_append, ← String.toList_append]
    exact congrArg String.toList hxy
  exact String.toList_inj.1 (List.append_cancel_left hchars)

section Owners

variable {owners : List (String × List EnumDefinition)}
  (dotFree : ∀ o ∈ owners, '.' ∉ o.1.toList)

include dotFree

/-- Owners with different names keep their enums apart. -/
theorem nodup_keys_flatMap_ownedEntries (distinct : (owners.map (·.1)).Nodup)
    (enums : ∀ o ∈ owners, (o.2.map (·.name)).Nodup) :
    ((owners.flatMap fun o => ownedEntries o.1 o.2).map (·.1)).Nodup := by
  rw [List.map_flatMap, List.nodup_flatMap]
  constructor
  · intro o ho
    exact (nodup_keys_ownedEntries_iff o.1 o.2).2 (enums o ho)
  · refine (List.pairwise_map.1 distinct).imp_of_mem ?_
    intro o o' ho ho' hne key hkey hkey'
    obtain ⟨e, he, rfl⟩ := List.mem_map.1 hkey
    obtain ⟨e', he', heq⟩ := List.mem_map.1 hkey'
    exact ownedEntries_key_ne (dotFree o ho) (dotFree o' ho') hne e he e' he' heq.symm

/-- A global enum has no key of a nested enum. -/
theorem global_key_ne_owned (outside : ∀ o ∈ owners, o.1 ≠ "Variant") {name : String}
    (global : '.' ∉ name.toList ∨ ∃ inner, name = "Variant." ++ inner) :
    ∀ e ∈ owners.flatMap fun o => ownedEntries o.1 o.2, name ≠ e.1 := by
  intro e he heq
  obtain ⟨o, ho, he⟩ := List.mem_flatMap.1 he
  obtain ⟨d, -, rfl⟩ := List.mem_map.1 he
  rcases global with hdot | ⟨inner, rfl⟩
  · apply hdot
    rw [heq]
    simp
  · have hvariant : "Variant." ++ inner = "Variant" ++ "." ++ inner := rfl
    have howner := (append_dot_inj (by decide) (dotFree o ho) (hvariant.symm.trans heq)).1
    exact outside o ho howner.symm

/-- Global and nested enums all have different keys. -/
theorem nodup_keys_append_owned (distinct : (owners.map (·.1)).Nodup)
    (enums : ∀ o ∈ owners, (o.2.map (·.name)).Nodup) (outside : ∀ o ∈ owners, o.1 ≠ "Variant")
    {globals : List EnumDefinition} (globalsDistinct : (globals.map (·.name)).Nodup)
    (global : ∀ e ∈ globals, '.' ∉ e.name.toList ∨ ∃ inner, e.name = "Variant." ++ inner) :
    (((globals.map fun e => (e.name, e)) ++
      owners.flatMap fun o => ownedEntries o.1 o.2).map (·.1)).Nodup := by
  rw [List.map_append, List.map_map, List.nodup_append']
  refine ⟨globalsDistinct, nodup_keys_flatMap_ownedEntries dotFree distinct enums, ?_⟩
  intro key hkey hkey'
  obtain ⟨e, he, rfl⟩ := List.mem_map.1 hkey
  obtain ⟨e', he', heq⟩ := List.mem_map.1 hkey'
  exact global_key_ne_owned dotFree outside (global e he) e' he' heq.symm

end Owners

end SwiftDecls
