import SwiftDecls.Classification
import SwiftDecls.Proofs.SortedMap

/-!
# What a classification depends on

A classification does not depend on the order of built-in types with different names
(`ofBuiltins_perm`). The class of a name depends on the types with that name only
(`classOf?_ofBuiltins_congr`), and whether a name is a built-in type depends on the names only
(`isBuiltin_ofBuiltins_congr`). Sizes come from the size tables alone.

Names may repeat. Then the last type of a name decides about its class, unless the name is a value
anyway, and the last size of a name counts within the first table of the build configuration
(`decides_ofBuiltins`).
-/

set_option autoImplicit false

namespace SwiftDecls.Classification

variable {builtins builtins' : List Builtin} (tables : List SizeTable)
  (buildConfiguration : String)

/-- **Built-in types may come in any order.** -/
theorem ofBuiltins_perm (h : builtins.Perm builtins') (hn : (builtins.map (·.name)).Nodup) :
    ofBuiltins builtins tables buildConfiguration =
      ofBuiltins builtins' tables buildConfiguration := by
  have hclasses := SortedMap.insertAll_map_perm (f := fun b : Builtin => (b.name, b.typeClass)) h
    hn SortedMap.empty
  rw [ofBuiltins, ofBuiltins, hclasses]

/-- The class of a name depends on the types with that name. -/
theorem classOf?_ofBuiltins_congr {name : String}
    (h : List.Forall₂ (fun b b' => b.name = b'.name ∧ (b.name = name → b = b'))
      builtins builtins') :
    (ofBuiltins builtins tables buildConfiguration).classOf? name =
      (ofBuiltins builtins' tables buildConfiguration).classOf? name := by
  have hsame : ∀ es : List (String × TypeClass),
      List.Forall₂ (fun e f => e.1 = f.1 ∧ (e.1 = name → e.2 = f.2)) es es := fun es =>
    List.forall₂_same.2 fun _ _ => ⟨rfl, fun _ => rfl⟩
  refine SortedMap.get?_insertAll_congr (hsame _) (SortedMap.get?_insertAll_congr ?_ rfl)
  refine List.rel_map (fun b b' hb => ?_) h
  exact ⟨hb.1, fun hname => by rw [hb.2 hname]⟩

/-- Which names are built-in types depends on the names. -/
theorem isBuiltin_ofBuiltins_congr (h : builtins.map (·.name) = builtins'.map (·.name)) :
    (ofBuiltins builtins tables buildConfiguration).isBuiltin =
      (ofBuiltins builtins' tables buildConfiguration).isBuiltin := by
  have hkeys : ∀ name, (ofBuiltins builtins tables buildConfiguration).isBuiltin name = true ↔
      (ofBuiltins builtins' tables buildConfiguration).isBuiltin name = true := by
    intro name
    simp only [isBuiltin, ofBuiltins, SortedMap.contains_iff, SortedMap.mem_keys_insertAll,
      List.map_map, Function.comp_def, h]
  funext name
  exact Bool.eq_iff_iff.2 (hkeys name)

end SwiftDecls.Classification

/-! ## Names that repeat -/

namespace SwiftDecls

/-- The first of a list that has a property. -/
def IsFirst {α : Type} (p : α → Prop) (as : List α) (a : α) : Prop :=
  ∃ before after, as = before ++ a :: after ∧ p a ∧ ∀ b ∈ before, ¬ p b

theorem sizesFor?_eq_some_iff {tables : List SizeTable} {buildConfiguration : String}
    {table : SizeTable} : sizesFor? tables buildConfiguration = some table ↔
      IsFirst (·.buildConfiguration = buildConfiguration) tables table := by
  simp only [sizesFor?, List.find?_eq_some_iff_append, IsFirst, beq_iff_eq, Bool.not_eq_true',
    beq_eq_false_iff_ne]
  constructor
  · rintro ⟨ha, before, after, hsplit, hbefore⟩
    exact ⟨before, after, hsplit, ha, hbefore⟩
  · rintro ⟨before, after, hsplit, ha, hbefore⟩
    exact ⟨ha, before, after, hsplit, hbefore⟩

theorem Builtin.typeClass_eq_value_iff {b : Builtin} :
    b.typeClass = .value ↔ ∃ field fields, b.fields = some (field :: fields) := by
  obtain ⟨name, fields, enums⟩ := b
  rcases fields with - | - | ⟨field, fields⟩ <;> simp [typeClass, fieldCount]

theorem Builtin.typeClass_eq_opaqueHandle_iff {b : Builtin} :
    b.typeClass = .opaqueHandle ↔ b.fields = none ∨ b.fields = some [] := by
  obtain ⟨name, fields, enums⟩ := b
  rcases fields with - | - | ⟨field, fields⟩ <;> simp [typeClass, fieldCount]

namespace Classification

/-- What a classification makes of types and size tables in which names may repeat. -/
structure Decides (builtins : List Builtin) (tables : List SizeTable) (buildConfiguration : String)
    (c : Classification) : Prop where
  value_iff : ∀ name, c.classOf? name = some .value ↔
    name ∈ forcedValues ∨ ∃ b, IsLast (·.name = name) builtins b ∧
      ∃ field fields, b.fields = some (field :: fields)
  opaqueHandle_iff : ∀ name, c.classOf? name = some .opaqueHandle ↔
    name ∉ forcedValues ∧ ∃ b, IsLast (·.name = name) builtins b ∧
      (b.fields = none ∨ b.fields = some [])
  none_iff : ∀ name, c.classOf? name = none ↔
    name ∉ forcedValues ∧ ∀ b ∈ builtins, b.name ≠ name
  isValue_iff : ∀ name, c.isValue name = true ↔ c.classOf? name = some .value
  isBuiltin_iff : ∀ name, c.isBuiltin name = true ↔ c.classOf? name ≠ none
  sizeOf_iff : ∀ name bytes, c.sizeOf? name = some bytes ↔
    ∃ table, IsFirst (·.buildConfiguration = buildConfiguration) tables table ∧
      ∃ entry, IsLast (·.name = name) table.sizes entry ∧ entry.size = bytes
  noSize_iff : ∀ name, c.sizeOf? name = none ↔
    ∀ table, IsFirst (·.buildConfiguration = buildConfiguration) tables table →
      ∀ entry ∈ table.sizes, entry.name ≠ name
  size_eq : c.size = (builtins.map (·.name) ++ forcedValues).dedup.length

variable (builtins : List Builtin) (tables : List SizeTable) (buildConfiguration : String)

theorem mem_keys_classes_iff (name : String) :
    name ∈ (ofBuiltins builtins tables buildConfiguration).classes.keys ↔
      name ∈ builtins.map (·.name) ++ forcedValues := by
  have hempty : name ∉ (SortedMap.empty : SortedMap String TypeClass).keys := List.not_mem_nil
  simp only [ofBuiltins, SortedMap.mem_keys_insertAll, List.map_map, Function.comp_def,
    List.mem_append, List.map_id', or_iff_left hempty]
  exact or_comm

/-- A name that is a value in any case is a value. Otherwise the last type of the name decides. -/
theorem classOf?_eq_some_iff (name : String) (cls : TypeClass) :
    (ofBuiltins builtins tables buildConfiguration).classOf? name = some cls ↔
      (name ∈ forcedValues ∧ cls = .value) ∨
      (name ∉ forcedValues ∧ ∃ b, IsLast (·.name = name) builtins b ∧ b.typeClass = cls) := by
  -- The values of any case are inserted after the types, so a type counts under other names only.
  have hforced : (∃ n, IsLast (· = name) forcedValues n) ↔ name ∈ forcedValues := by
    rw [exists_isLast_iff, exists_eq_right]
  have hother : (∀ n ∈ forcedValues, n ≠ name) ↔ name ∉ forcedValues := List.forall_mem_ne'
  have hempty : ¬ ((∀ b ∈ builtins, b.name ≠ name) ∧
      (SortedMap.empty : SortedMap String TypeClass).get? name = some cls) := fun h => nomatch h.2
  rw [classOf?, ofBuiltins, SortedMap.get?_insertAll_map_eq_some_iff,
    SortedMap.get?_insertAll_map_eq_some_iff, exists_and_right, hforced, hother,
    or_iff_left hempty, @eq_comm _ TypeClass.value]

theorem sizeOf?_eq_some_iff (name : String) (bytes : Nat) :
    (ofBuiltins builtins tables buildConfiguration).sizeOf? name = some bytes ↔
      ∃ table, IsFirst (·.buildConfiguration = buildConfiguration) tables table ∧
        ∃ entry, IsLast (·.name = name) table.sizes entry ∧ entry.size = bytes := by
  simp only [← sizesFor?_eq_some_iff]
  rw [sizeOf?, ofBuiltins]
  cases sizesFor? tables buildConfiguration with
  | none => simp
  | some table =>
    have hempty : ¬ ((∀ entry ∈ table.sizes, entry.name ≠ name) ∧
        (SortedMap.empty : SortedMap String Nat).get? name = some bytes) := fun h => nomatch h.2
    simp only [Option.some.injEq, exists_eq_left']
    rw [SortedMap.get?_insertAll_map_eq_some_iff, or_iff_left hempty]

/-- **The last type and the last size of a name decide**, in the first table of the build
configuration. -/
theorem decides_ofBuiltins :
    Decides builtins tables buildConfiguration
      (ofBuiltins builtins tables buildConfiguration) := by
  have hkeys := mem_keys_classes_iff builtins tables buildConfiguration
  have hsizes := sizeOf?_eq_some_iff builtins tables buildConfiguration
  refine ⟨fun name => ?_, fun name => ?_, fun name => ?_, fun name => ?_, fun name => ?_, hsizes,
    fun name => ?_, SortedMap.size_eq_length_dedup hkeys⟩
  · simp only [classOf?_eq_some_iff, Builtin.typeClass_eq_value_iff]
    tauto
  · simp only [classOf?_eq_some_iff, Builtin.typeClass_eq_opaqueHandle_iff, reduceCtorEq,
      and_false, false_or]
  · have hnames : name ∉ builtins.map (·.name) ↔ ∀ b ∈ builtins, b.name ≠ name := by
      rw [← List.forall_mem_ne', List.forall_mem_map]
    rw [classOf?, SortedMap.get?_eq_none_iff, hkeys, List.mem_append, not_or, hnames, and_comm]
  · rw [isValue, beq_iff_eq]
  · rw [isBuiltin, SortedMap.contains, Option.isSome_iff_ne_none, classOf?]
  · rw [Option.eq_none_iff_forall_ne_some]
    constructor
    · intro h table htable entry hmem hname
      obtain ⟨last, hlast⟩ : ∃ last, IsLast (·.name = name) table.sizes last :=
        exists_isLast_iff.2 ⟨entry, hmem, hname⟩
      exact h last.size ((hsizes name last.size).2 ⟨table, htable, last, hlast, rfl⟩)
    · intro h bytes hbytes
      obtain ⟨table, htable, entry, hentry, -⟩ := (hsizes name bytes).1 hbytes
      exact h table htable entry hentry.mem hentry.prop

end Classification

end SwiftDecls
