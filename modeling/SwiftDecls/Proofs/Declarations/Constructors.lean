import SwiftDecls.Declarations.Constructors
import SwiftDecls.Proofs.SortedMap
import SwiftDecls.Proofs.Source.Layout
import SwiftDecls.Proofs.Text.ByteOrder

/-!
# What the table of constructors holds

Registering classes one after the other registers exactly these, each under its own Swift name
(`get?_registerAll`), and every registered class has a line in the table
(`entryLine_mem_steps`). The table has no other lines than those of its entries, the one that
opens it and the one that closes it (`stepLines_steps`), and its entries ascend in the order of
their bytes (`pairwise_utf8Bytes`).
-/

set_option autoImplicit false

namespace SwiftDecls.ReferenceTypes

open Source Text

/-- Every registered class has its Swift name, and no other class was registered. -/
theorem get?_registerAll (types : ReferenceTypes) (names : List String)
    (name : String) : (types.registerAll names).get? name =
      if name ∈ names then some (swiftTypeName name) else types.get? name := by
  induction names generalizing types with
  | nil => rfl
  | cons n rest ih =>
    have hregister : types.registerAll (n :: rest) = (types.register n).registerAll rest := rfl
    rw [hregister, ih, register]
    by_cases hrest : name ∈ rest
    · rw [if_pos hrest, if_pos (List.mem_cons_of_mem n hrest)]
    · rw [if_neg hrest]
      by_cases hn : name = n
      · subst hn
        rw [SortedMap.get?_insert_self, if_pos List.mem_cons_self]
      · have hcons : name ∉ n :: rest := by simp [hn, hrest]
        rw [SortedMap.get?_insert_of_ne _ _ hn, if_neg hcons]

/-- A registered class has a line in the table of constructors. -/
theorem entryLine_mem_steps {types : ReferenceTypes} {name swiftName : String}
    (h : types.get? name = some swiftName) :
    ∃ entries, Step.indent entries ∈ types.steps ∧
      Step.line (entryLine name swiftName) ∈ entries := by
  have hentry : (name, swiftName) ∈ types.entries := SortedMap.get?_eq_some_iff.1 h
  have hempty : ¬ types.isEmpty = true := by
    rw [SortedMap.isEmpty, List.isEmpty_iff]
    exact List.ne_nil_of_mem hentry
  refine ⟨types.entries.map fun e => .line (entryLine e.1 e.2), ?_, ?_⟩
  · rw [steps, if_neg hempty]
    exact List.mem_cons_of_mem _ List.mem_cons_self
  · exact List.mem_map.2 ⟨_, hentry, rfl⟩

/-- The registered names are those of the classes. -/
theorem mem_keys_registerAll {types : ReferenceTypes} {names : List String} {name : String} :
    name ∈ (types.registerAll names).keys ↔ name ∈ names ∨ name ∈ types.keys := by
  rw [← SortedMap.contains_iff, ← SortedMap.contains_iff, SortedMap.contains, SortedMap.contains,
    get?_registerAll]
  by_cases h : name ∈ names <;> simp [h]

/-! ## The lines of the table -/

/-- The table as lines, from its entries. -/
def tableLines (entries : List (String × String)) : List String :=
  if entries = [] then [tableStart ++ ":]"]
  else tableStart :: entries.map (fun e => "    " ++ entryLine e.1 e.2) ++ ["]"]

/-- An entry is one line if its names are. -/
theorem lineFeed_not_mem_entryLine {name swiftName : String} (h : '\n' ∉ name.toList)
    (h' : '\n' ∉ swiftName.toList) : '\n' ∉ (entryLine name swiftName).toList := by
  have hquote : '\n' ∉ "\"".toList ∧ '\n' ∉ "\": ".toList ∧ '\n' ∉ ".self,".toList := by decide
  simp only [entryLine, String.toList_append, List.mem_append, not_or]
  exact ⟨⟨⟨⟨hquote.1, h⟩, hquote.2.1⟩, h'⟩, hquote.2.2⟩

/-- One level deeper an entry is a line after four blanks. -/
theorem indented_entryLine (name swiftName : String) :
    indented 1 (entryLine name swiftName).toList =
      ("    " ++ entryLine name swiftName).toList := by
  have hne : (entryLine name swiftName).toList.isEmpty = false := by
    simp [entryLine, String.toList_append]
  have hindent : indentation 1 = "    ".toList := by decide
  rw [indented, hne, hindent, String.toList_append]
  rfl

/-- **The table is the lines of its entries** between the line that opens it and the one that
closes it, or a single line if nothing is registered. -/
theorem stepLines_steps {types : ReferenceTypes}
    (h : ∀ e ∈ types.entries, '\n' ∉ e.1.toList ∧ '\n' ∉ e.2.toList) :
    stepLines 0 types.steps = (tableLines types.entries).map String.toList := by
  have hline : ∀ text : String, '\n' ∉ text.toList → linesAt 0 text = [text.toList] := by
    intro text htext
    rw [linesAt_of_not_mem htext, indented_zero]
  have hentries : stepLines 1 (types.entries.map fun e => .line (entryLine e.1 e.2)) =
      (types.entries.map fun e => "    " ++ entryLine e.1 e.2).map String.toList := by
    rw [stepLines_map_line fun e he => lineFeed_not_mem_entryLine (h e he).1 (h e he).2,
      List.map_map]
    exact List.map_congr_left fun e _ => indented_entryLine e.1 e.2
  unfold steps tableLines
  by_cases hempty : types.entries = []
  · have hnone : types.isEmpty = true := List.isEmpty_iff.2 hempty
    rw [if_pos hnone, if_pos hempty, stepLines_cons, stepLines_nil, Step.lines,
      hline _ (by decide)]
    rfl
  · have hsome : ¬ types.isEmpty = true := fun hnone => hempty (List.isEmpty_iff.1 hnone)
    rw [if_neg hsome, if_neg hempty]
    simp only [stepLines_cons, stepLines_nil, Step.lines, hline tableStart (by decide),
      hline "]" (by decide), hentries, List.append_nil, List.map_append, List.map_cons,
      List.map_nil, List.cons_append, List.nil_append]

/-- The entries are in the order of the bytes of their schema names. -/
theorem pairwise_utf8Bytes (types : ReferenceTypes) :
    types.entries.Pairwise fun a b => utf8Bytes a.1 < utf8Bytes b.1 := by
  refine types.ascending.imp fun {a b} h => utf8Bytes_lt_of_lt ?_
  exact compareOfLessAndEq_eq_lt.1 h

end SwiftDecls.ReferenceTypes
