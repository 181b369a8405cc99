import SwiftDecls.Proofs.Docs.Markdown
import SwiftDecls.Proofs.TypeName

/-!
# References to the members of the type that is documented

Documentation is converted for a type under its Swift name. A member that is referred to without an
owner gets that name, and a member with an owner gets the owner as it is written, in the words of the
schema (`linksToMember`). The two agree for all types but those that Swift calls otherwise
(`string_length_leaves_type`).
-/

set_option autoImplicit false

namespace SwiftDecls.Markdown

open Text Naming

/-- How the documentation of a type refers to a member of the type, without the type and with it. -/
structure LinksToMember (kind : MemberKind) (type member : String) : Prop where
  unqualified : toMarkdown (some (swiftTypeName type)) (bracketed (kind.word ++ " " ++ member)) =
    "``" ++ swiftTypeName type ++ "/" ++ camel member ++ "``"
  qualified :
    toMarkdown (some (swiftTypeName type))
        (bracketed (kind.word ++ " " ++ (type ++ "." ++ member))) =
      "``" ++ type ++ "/" ++ camel member ++ "``"
  /-- Both lead to the same place exactly if the type is not renamed. -/
  agree_iff :
    toMarkdown (some (swiftTypeName type))
        (bracketed (kind.word ++ " " ++ (type ++ "." ++ member))) =
      toMarkdown (some (swiftTypeName type)) (bracketed (kind.word ++ " " ++ member)) ↔
    type ∉ renamings.map (·.1)

/-- A reference to a member on its own becomes one link. -/
theorem toMarkdown_member (owner : Option String) (kind : MemberKind) (target : MemberTarget)
    (h : ']' ∉ target.text.toList) :
    toMarkdown owner (bracketed (kind.word ++ " " ++ target.text)) =
      "``" ++ target.symbol owner ++ "``" := by
  have hclosed : ']' ∉ (Reference.member kind target).tag.toList := by
    have hword : ']' ∉ kind.word.toList := by cases kind <;> decide
    simp [Reference.tag, hword, h]
  exact (Converts.reference (.member kind target) hclosed).toMarkdown_eq

/-- **A member is looked for in the type that is written, not in the one that Swift declares.** -/
theorem linksToMember (kind : MemberKind) {type member : String} (htype : '.' ∉ type.toList)
    (hmember : '.' ∉ member.toList) (htype' : ']' ∉ type.toList) (hmember' : ']' ∉ member.toList) :
    LinksToMember kind type member := by
  have hclosed : ']' ∉ (type ++ "." ++ member).toList := by simp [htype', hmember']
  have hun : toMarkdown (some (swiftTypeName type)) (bracketed (kind.word ++ " " ++ member)) =
      "``" ++ (swiftTypeName type ++ "/" ++ camel member) ++ "``" :=
    toMarkdown_member _ kind ⟨none, member, hmember⟩ hmember'
  have hqual : toMarkdown (some (swiftTypeName type))
      (bracketed (kind.word ++ " " ++ (type ++ "." ++ member))) =
        "``" ++ (type ++ "/" ++ camel member) ++ "``" :=
    toMarkdown_member _ kind ⟨some type, member, hmember⟩ hclosed
  refine ⟨?_, ?_, ?_⟩
  · rw [hun]
    simp only [String.append_assoc]
  · rw [hqual]
    simp only [String.append_assoc]
  · rw [hun, hqual, ← swiftSegment_eq_self_iff, ← swiftTypeName_of_no_dot htype]
    constructor
    · intro h
      have hchars := congrArg String.toList h
      simp only [String.toList_append, List.append_assoc, List.append_cancel_left_eq,
        List.append_cancel_right_eq] at hchars
      exact (String.toList_inj.1 hchars).symm
    · intro h
      rw [h]

/-- An array's own member, by its type in the words of the schema. -/
theorem linksToMember_of_array :
    '.' ∉ "Array".toList ∧ '.' ∉ "push_back".toList ∧ ']' ∉ "Array".toList ∧
      ']' ∉ "push_back".toList ∧ LinksToMember .method "Array" "push_back" ∧
      toMarkdown (some (swiftTypeName "Array")) "[method Array.push_back]" =
        "``Array/pushBack``" := by
  have htype : '.' ∉ "Array".toList ∧ ']' ∉ "Array".toList := by decide
  have hmember : '.' ∉ "push_back".toList ∧ ']' ∉ "push_back".toList := by decide
  have hlinks := linksToMember .method htype.1 hmember.1 htype.2 hmember.2
  exact ⟨htype.1, hmember.1, htype.2, hmember.2, hlinks, by decide +kernel⟩

/-- The length of a text is looked for in a type that is not declared if the type is written, and in
the declared one if it is not. -/
theorem string_length_leaves_type :
    toMarkdown (some (swiftTypeName "String")) "[method String.length]" = "``String/length``" ∧
      toMarkdown (some (swiftTypeName "String")) "[method length]" = "``GString/length``" ∧
      toMarkdown (some (swiftTypeName "String")) "[method String.length]" ≠
        toMarkdown (some (swiftTypeName "String")) "[method length]" := by
  decide +kernel

end SwiftDecls.Markdown
