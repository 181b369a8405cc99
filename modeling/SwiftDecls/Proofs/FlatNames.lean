import SwiftDecls.Proofs.Text.Flat
import SwiftDecls.Proofs.TypeName

/-!
# Flat names

The Swift forms of flat names are flat: members, fields, types, and references to types. None of
the words that renaming puts in has a bracket, and neither have the brackets of a collection,
which are angular.
-/

set_option autoImplicit false

namespace SwiftDecls

open Text

namespace Naming

theorem caseStable_not_structural : CaseStable (· ∉ structural) := ⟨isFlat_upper, isFlat_lower⟩

theorem isFlat_camel {name : String} (h : IsFlat name.toList) : IsFlat (camel name).toList := by
  rw [camel, String.toList_ofList]
  exact of_mem_camelFrom caseStable_not_structural fun c hc _ => h c hc

theorem isFlat_escape {word : String} (h : IsFlat word.toList) : IsFlat (escape word).toList :=
  of_mem_escape (by decide) h

theorem isFlat_memberName {enumName member : String} (h : IsFlat member.toList) :
    IsFlat (memberName enumName member).toList :=
  of_mem_memberName caseStable_not_structural (by decide) enumName h

/-- No change of case makes a line feed: beyond the structural characters there are only
brackets. -/
theorem caseStable_ne_lineFeed : CaseStable (· ≠ '\n') := by
  have hascii : ∀ c ∈ structural, c ≠ '\n' → '\n' ∉ upper c ∧ '\n' ∉ lower c := by
    intro c hc hne
    simp only [structural, List.mem_cons, List.not_mem_nil, or_false] at hc
    rcases hc with rfl | rfl | rfl | rfl | rfl
    · exact absurd rfl hne
    all_goals decide
  constructor <;> intro c hc d hd heq <;> by_cases hs : c ∈ structural
  · exact (hascii c hs hc).1 (heq ▸ hd)
  · exact (isFlat_upper hs).lineFeed_not_mem (heq ▸ hd)
  · exact (hascii c hs hc).2 (heq ▸ hd)
  · exact (isFlat_lower hs).lineFeed_not_mem (heq ▸ hd)

/-- The Swift name of a member on one line is on one line. -/
theorem lineFeed_not_mem_memberName (enumName : String) {member : String}
    (h : '\n' ∉ member.toList) : '\n' ∉ (memberName enumName member).toList := by
  have hall := of_mem_memberName caseStable_ne_lineFeed (by decide) enumName
    fun c hc heq => h (heq ▸ hc)
  exact fun hmem => hall '\n' hmem rfl

end Naming

theorem isFlat_swiftTypeName {name : String} (h : IsFlat name.toList) :
    IsFlat (swiftTypeName name).toList := by
  have hwords : ∀ e ∈ renamings, IsFlat e.2.toList := by decide
  exact of_mem_swiftTypeName (by decide) hwords h

theorem isFlat_of_dropPrefix? {pre cs rest : List Char} (h : IsFlat cs)
    (hdrop : dropPrefix? pre cs = some rest) : IsFlat rest := by
  rw [dropPrefix?_eq_some_iff.1 hdrop, isFlat_append] at h
  exact h.2

theorem isFlat_swift_read (isBuiltin : String → Bool) {spelling : List Char}
    (h : IsFlat spelling) : IsFlat ((TypeRef.read spelling).swift isBuiltin none).toList := by
  fun_induction TypeRef.read spelling with
  | case1 spelling name hname =>
    rw [TypeRef.swift]
    refine isFlat_swiftTypeName ?_
    rw [String.toList_ofList]
    rw [Option.orElse_eq_orElse, Option.orElse_eq_or, Option.or_eq_some_iff] at hname
    rcases hname with henum | ⟨-, hbitfield⟩
    · exact isFlat_of_dropPrefix? h henum
    · exact isFlat_of_dropPrefix? h hbitfield
  | case2 spelling hmark element helement ih =>
    have helement := ih (isFlat_of_dropPrefix? h helement)
    have hcollections : IsFlat "VariantCollection".toList ∧ IsFlat "ObjectCollection".toList ∧
        IsFlat "<".toList ∧ IsFlat ">".toList := by decide
    rw [TypeRef.swift]
    simp only [String.toList_append, isFlat_append]
    refine ⟨⟨⟨?_, hcollections.2.2.1⟩, helement⟩, hcollections.2.2.2⟩
    split
    · exact hcollections.1
    · exact hcollections.2.1
  | case3 spelling hmark helement =>
    have hname : IsFlat (swiftTypeName (String.ofList spelling)).toList := by
      refine isFlat_swiftTypeName ?_
      rwa [String.toList_ofList]
    simpa [TypeRef.swift] using hname

/-- A reference without a width. -/
theorem isFlat_swiftType (isBuiltin : String → Bool) {spelling : String}
    (h : IsFlat spelling.toList) : IsFlat (swiftType isBuiltin spelling none).toList :=
  isFlat_swift_read isBuiltin h

end SwiftDecls
