import SwiftDecls.Proofs.Api.Rules
import SwiftDecls.Proofs.Text.Pieces

/-!
# What a description does not say

A description is read from a text, but only from what its parts have a place for. Any record in it
can have its members in another order, members of its own, and null for what is missing, and the
text can have its white space and its spellings otherwise: it is the same description
(`ofJson_ignores_edits`). This is said of every text that is read, so it holds at every depth and
for any number of edits one after the other.
-/

set_option autoImplicit false

namespace SwiftDecls

open Json Text

/-- **A text that is read as a description spells a value, and every text that spells the value
after edits of its records is read as the same description.** -/
theorem ofJson_ignores_edits {text : String} {api : Api} (accepted : Api.ofJson text = .ok api) :
    (∃ v, Spells v text) ∧ ∀ v v' text', Spells v text →
      Relation.ReflTransGen (Within Edit apiShape) v v' → Spells v' text' →
      Api.ofJson text' = .ok api := by
  obtain ⟨w, hw, hdecoded⟩ := ofJson_eq_ok_iff.1 accepted
  refine ⟨⟨w, hw⟩, fun v v' text' hv hedits hv' => ?_⟩
  obtain rfl : w = v := spells_unique hw hv
  exact ofJson_eq_ok_iff.2 ⟨v', hv', (respects_api sound_edit).steps hedits hdecoded⟩

/-- A description of one enum. -/
def enumDescription : String :=
  "\x7b\"builtin_class_sizes\":[],\"global_enums\":[\x7b\"name\":\"E\",\"values\":[]\x7d]," ++
    "\"builtin_classes\":[],\"classes\":[],\"header\":null\x7d"

/-- The same description without the header that is null, with a member of the enum that is null
and in front of it one that no enum has, and with the classes in front. -/
def editedDescription : String :=
  " \x7b \"classes\" : [ ],\n\"builtin_class_sizes\": [], \"global_enums\":" ++
    "[\x7b\"name\":\"\\u0045\", \"docs\" : [[1e999, \x7b\"\\ud800\":null\x7d]] ," ++
    "\"is_bitfield\":null,\"values\":[]\x7d],\t\"builtin_classes\":[] \x7d "

/-- One edit of each kind, two of them in an enum that is an item of a list. -/
theorem ofJson_ignores_edits_of_enum :
    Api.ofJson enumDescription = .ok ⟨none, [], [⟨"E", none, []⟩], [], []⟩ ∧
      Api.ofJson editedDescription = .ok ⟨none, [], [⟨"E", none, []⟩], [], []⟩ := by
  let empty (key : String) : StringLiteral × Value := (⟨some key⟩, .list [] .closed)
  let null (key : String) : StringLiteral × Value := (⟨some key⟩, .null)
  let enums (more : List (StringLiteral × Value)) : StringLiteral × Value :=
    (⟨some "global_enums"⟩, .list [.map ((⟨some "name"⟩, .string ⟨some "E"⟩) ::
      (more ++ [empty "values"])) .closed] .closed)
  let docs : StringLiteral × Value := (⟨some "docs"⟩, .list [.list [
    .number ⟨false, ['1'], none, some ⟨false, ['9', '9', '9']⟩⟩,
    .map [(⟨none⟩, .null)] .closed] .closed] .closed)
  let v : Value := .map [empty "builtin_class_sizes", enums [], empty "builtin_classes",
    empty "classes", null "header"] .closed
  let v' : Value := .map [empty "classes", empty "builtin_class_sizes",
    enums [docs, null "is_bitfield"], empty "builtin_classes"] .closed
  have hv : Spells v enumDescription :=
    spells_of_ofList (isWhole_of_skipFault? _ rfl) (append_eq_ofList rfl rfl) (by decide +kernel)
  have hv' : Spells v' editedDescription :=
    spells_of_ofList (isWhole_of_skipFault? _ rfl)
      (append_eq_ofList (append_eq_ofList rfl rfl) rfl) (by decide +kernel)
  have accepted : Api.ofJson enumDescription = .ok ⟨none, [], [⟨"E", none, []⟩], [], []⟩ :=
    ofJson_eq_ok_iff.2 ⟨v, hv, rfl⟩
  have inEnum : ∀ more more', Within Edit enumShape
      (.map ((⟨some "name"⟩, .string ⟨some "E"⟩) :: (more ++ [empty "values"])) .closed)
      (.map ((⟨some "name"⟩, .string ⟨some "E"⟩) :: (more' ++ [empty "values"])) .closed) →
      Within Edit apiShape
        (.map ([empty "builtin_class_sizes"] ++ enums more ::
          [empty "builtin_classes", empty "classes"]) .closed)
        (.map ([empty "builtin_class_sizes"] ++ enums more' ::
          [empty "builtin_classes", empty "classes"]) .closed) := fun more more' h =>
    .entry (m := ⟨"global_enums", true, .list enumShape⟩) (.tail _ (.tail _ (.head _)))
      (@Within.item _ _ [] [] _ _ h)
  have dropped : Edit (apiRule.members [headerShape, .list sizeTableShape, .list enumShape,
      .list builtinShape, .list classShape]) v
      (.map [empty "builtin_class_sizes", enums [], empty "builtin_classes", empty "classes"]
        .closed) :=
    @Edit.dropNull _ ⟨"header", false, headerShape⟩ [empty "builtin_class_sizes", enums [],
      empty "builtin_classes", empty "classes"] [] (.head _) rfl
  have added := inEnum [] [null "is_bitfield"] (.here (@Edit.addNull _
    ⟨"is_bitfield", false, .plain⟩ [(⟨some "name"⟩, .string ⟨some "E"⟩)] [empty "values"]
    (.tail _ (.head _)) rfl (by simp [empty])))
  have inserted := inEnum [null "is_bitfield"] [docs, null "is_bitfield"] (.here (@Edit.insert _
    [(⟨some "name"⟩, .string ⟨some "E"⟩)] [null "is_bitfield", empty "values"] "docs" docs.2
    (by simp [RecordRule.members, enumRule, FieldRule.must, FieldRule.may])
    (isWhole_of_skipFault? _ rfl)))
  have moved : Edit (apiRule.members [headerShape, .list sizeTableShape, .list enumShape,
      .list builtinShape, .list classShape]) _ v' :=
    .reorder (@List.perm_append_comm _ [empty "builtin_class_sizes",
      enums [docs, null "is_bitfield"], empty "builtin_classes"] [empty "classes"])
  refine ⟨accepted, (ofJson_ignores_edits accepted).2 v v' _ hv ?_ hv'⟩
  exact .head (.here dropped) (.head added (.head inserted (.single (.here moved))))

end SwiftDecls
