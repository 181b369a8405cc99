import SwiftDecls.Proofs.Api.Rules
import SwiftDecls.Proofs.Json.Places

/-!
# The parts of a description

A description is made of records: itself, its header, its size tables, enums, built-in types and
classes, and what those are made of. Each of them is a `Part` of some kind, which has a way to it in
the text (`Part.path`), and can be replaced in the description (`Part.modify`), where it is found
again (`Part.get?_modify`). Where the text changes in a part, this is what changes in the description
(`focuses_part`). There are no other records (`exists_part`).
-/

set_option autoImplicit false

namespace SwiftDecls

open Json FieldRule

variable {β : Type}

/-- The kinds of records in a description. -/
inductive PartKind where
  | api
  | header
  | sizeTable
  | typeSize
  | enum
  | enumMember
  | builtin
  | field
  | engineClass
deriving DecidableEq, Repr

namespace PartKind

/-- What records of a kind are decoded to. -/
def Record : PartKind → Type
  | api => Api
  | header => Header
  | sizeTable => SizeTable
  | typeSize => TypeSize
  | enum => EnumDefinition
  | enumMember => EnumMember
  | builtin => Builtin
  | field => Field
  | engineClass => EngineClass

/-- How records of a kind are written. -/
def rule : (kind : PartKind) → RecordRule kind.Record
  | api => apiRule
  | header => headerRule
  | sizeTable => sizeTableRule
  | typeSize => typeSizeRule
  | enum => enumRule
  | enumMember => enumMemberRule
  | builtin => builtinRule
  | field => fieldRule
  | engineClass => classRule

/-- The shape of the records of a kind. -/
def shape : PartKind → Shape
  | api => apiShape
  | header => headerShape
  | sizeTable => sizeTableShape
  | typeSize => typeSizeShape
  | enum => enumShape
  | enumMember => enumMemberShape
  | builtin => builtinShape
  | field => fieldShape
  | engineClass => classShape

theorem lawful (kind : PartKind) : kind.rule.Lawful := by
  cases kind with
  | api => exact lawful_api
  | header => exact lawful_header
  | sizeTable => exact lawful_sizeTable
  | typeSize => exact lawful_typeSize
  | enum => exact lawful_enum
  | enumMember => exact lawful_enumMember
  | builtin => exact lawful_builtin
  | field => exact lawful_field
  | engineClass => exact lawful_class

end PartKind

/-- A record in a description: the description itself, or one that belongs to another record. -/
inductive Part : PartKind → Type
  | whole : Part .api
  | header : Part .header
  | sizeTable (i : Nat) : Part .sizeTable
  | globalEnum (i : Nat) : Part .enum
  | builtin (i : Nat) : Part .builtin
  | engineClass (i : Nat) : Part .engineClass
  | typeSize (owner : Part .sizeTable) (i : Nat) : Part .typeSize
  | field (owner : Part .builtin) (i : Nat) : Part .field
  | enumInBuiltin (owner : Part .builtin) (i : Nat) : Part .enum
  | enumInClass (owner : Part .engineClass) (i : Nat) : Part .enum
  | enumMember (owner : Part .enum) (i : Nat) : Part .enumMember
deriving DecidableEq, Repr

namespace Part

/-- The way to a part. -/
def path : {kind : PartKind} → Part kind → List Key
  | _, whole => []
  | _, header => [.member "header"]
  | _, sizeTable i => [.member "builtin_class_sizes", .item i]
  | _, globalEnum i => [.member "global_enums", .item i]
  | _, builtin i => [.member "builtin_classes", .item i]
  | _, engineClass i => [.member "classes", .item i]
  | _, typeSize owner i => owner.path ++ [.member "sizes", .item i]
  | _, field owner i => owner.path ++ [.member "members", .item i]
  | _, enumInBuiltin owner i => owner.path ++ [.member "enums", .item i]
  | _, enumInClass owner i => owner.path ++ [.member "enums", .item i]
  | _, enumMember owner i => owner.path ++ [.member "values", .item i]

/-- Replaces a part of a description, if it has one there. -/
def modify : {kind : PartKind} → Part kind → (kind.Record → kind.Record) → Api → Api
  | _, whole, g => g
  | _, header, g => fun a => { a with header := a.header.map g }
  | _, sizeTable i, g => fun a => { a with sizeTables := a.sizeTables.modify i g }
  | _, globalEnum i, g => fun a => { a with globalEnums := a.globalEnums.modify i g }
  | _, builtin i, g => fun a => { a with builtins := a.builtins.modify i g }
  | _, engineClass i, g => fun a => { a with classes := a.classes.modify i g }
  | _, typeSize owner i, g =>
    owner.modify fun t : SizeTable => { t with sizes := t.sizes.modify i g }
  | _, field owner i, g =>
    owner.modify fun b : Builtin => { b with fields := b.fields.map (·.modify i g) }
  | _, enumInBuiltin owner i, g =>
    owner.modify fun b : Builtin => { b with enums := b.enums.map (·.modify i g) }
  | _, enumInClass owner i, g =>
    owner.modify fun c : EngineClass => { c with enums := c.enums.map (·.modify i g) }
  | _, enumMember owner i, g =>
    owner.modify fun e : EnumDefinition => { e with members := e.members.modify i g }

/-- A part of a description, if it has one there. -/
def get? : {kind : PartKind} → Part kind → Api → Option kind.Record
  | _, whole => some
  | _, header => fun a => a.header
  | _, sizeTable i => fun a => a.sizeTables[i]?
  | _, globalEnum i => fun a => a.globalEnums[i]?
  | _, builtin i => fun a => a.builtins[i]?
  | _, engineClass i => fun a => a.classes[i]?
  | _, typeSize owner i => fun a => (owner.get? a).bind fun t : SizeTable => t.sizes[i]?
  | _, field owner i => fun a => (owner.get? a).bind fun b : Builtin => b.fields.bind (·[i]?)
  | _, enumInBuiltin owner i => fun a => (owner.get? a).bind fun b : Builtin => b.enums.bind (·[i]?)
  | _, enumInClass owner i => fun a => (owner.get? a).bind fun c : EngineClass => c.enums.bind (·[i]?)
  | _, enumMember owner i => fun a => (owner.get? a).bind fun e : EnumDefinition => e.members[i]?

theorem getElem?_modify_bind {α : Type} (as? : Option (List α)) (i : Nat) (g : α → α) :
    (as?.map (·.modify i g)).bind (·[i]?) = (as?.bind (·[i]?)).map g := by
  cases as? with
  | none => rfl
  | some as => exact List.getElem?_modify_eq g i as

theorem map_bind_eq {α β : Type} {g : α → α} {p : α → Option β} {h : β → β}
    (hp : ∀ a, p (g a) = (p a).map h) (a? : Option α) : (a?.map g).bind p = (a?.bind p).map h := by
  cases a? with
  | none => rfl
  | some a => exact hp a

/-- What is replaced is what is found. -/
theorem get?_modify {kind : PartKind} (part : Part kind) (g : kind.Record → kind.Record) (a : Api) :
    part.get? (part.modify g a) = (part.get? a).map g := by
  induction part with
  | whole | header => rfl
  | sizeTable i | globalEnum i | builtin i | engineClass i => exact List.getElem?_modify_eq g i _
  | typeSize owner i ih =>
    exact (congrArg (Option.bind · _) (ih _)).trans
      (map_bind_eq (fun t : SizeTable => List.getElem?_modify_eq g i t.sizes) _)
  | enumMember owner i ih =>
    exact (congrArg (Option.bind · _) (ih _)).trans
      (map_bind_eq (fun e : EnumDefinition => List.getElem?_modify_eq g i e.members) _)
  | field owner i ih =>
    exact (congrArg (Option.bind · _) (ih _)).trans
      (map_bind_eq (fun b : Builtin => getElem?_modify_bind b.fields i g) _)
  | enumInBuiltin owner i ih =>
    exact (congrArg (Option.bind · _) (ih _)).trans
      (map_bind_eq (fun b : Builtin => getElem?_modify_bind b.enums i g) _)
  | enumInClass owner i ih =>
    exact (congrArg (Option.bind · _) (ih _)).trans
      (map_bind_eq (fun c : EngineClass => getElem?_modify_bind c.enums i g) _)

end Part

/-! ## All records are parts -/

section Ways

variable {α : Type} {path : List Key} {members : List (Member Shape)}

/-- A record in one with plain members only is that record. -/
theorem eq_of_leads_plain (rule : RecordRule α) {shapes : List Shape}
    (h : ∀ s ∈ shapes, s = .plain) (hleads : Leads path (rule.shape shapes) (.record members)) :
    path = [] ∧ rule.shape shapes = .record members := by
  rcases leads_record_iff.1 hleads with ⟨rfl, rfl⟩ | ⟨m, hm, inner, rfl, inside⟩
  · exact ⟨rfl, rfl⟩
  · obtain ⟨f, hf, rfl⟩ := List.mem_map.1 hm
    have hplain : f.2 = .plain := h f.2 (List.of_mem_zip hf).2
    rw [hplain] at inside
    exact absurd inside not_leads_plain

theorem exists_part_in_enum (owner : Part .enum) (h : Leads path enumShape (.record members)) :
    ∃ kind, ∃ part : Part kind, part.path = owner.path ++ path ∧ kind.shape = .record members := by
  rcases leads_record_iff.1 h with ⟨rfl, rfl⟩ | ⟨m, hm, inner, rfl, inside⟩
  · exact ⟨.enum, owner, (List.append_nil _).symm, rfl⟩
  · rcases hm with _ | ⟨_, _ | ⟨_, _ | ⟨_, ⟨⟩⟩⟩⟩
    · exact absurd inside not_leads_plain
    · exact absurd inside not_leads_plain
    · obtain ⟨i, inner, rfl, hitem⟩ := leads_list_iff.1 inside
      obtain ⟨rfl, hshape⟩ := eq_of_leads_plain enumMemberRule (by simp) hitem
      exact ⟨.enumMember, .enumMember owner i, rfl, hshape⟩

theorem exists_part_in_sizeTable (owner : Part .sizeTable)
    (h : Leads path sizeTableShape (.record members)) :
    ∃ kind, ∃ part : Part kind, part.path = owner.path ++ path ∧ kind.shape = .record members := by
  rcases leads_record_iff.1 h with ⟨rfl, rfl⟩ | ⟨m, hm, inner, rfl, inside⟩
  · exact ⟨.sizeTable, owner, (List.append_nil _).symm, rfl⟩
  · rcases hm with _ | ⟨_, _ | ⟨_, ⟨⟩⟩⟩
    · exact absurd inside not_leads_plain
    · obtain ⟨i, inner, rfl, hitem⟩ := leads_list_iff.1 inside
      obtain ⟨rfl, hshape⟩ := eq_of_leads_plain typeSizeRule (by simp) hitem
      exact ⟨.typeSize, .typeSize owner i, rfl, hshape⟩

theorem exists_part_in_builtin (owner : Part .builtin)
    (h : Leads path builtinShape (.record members)) :
    ∃ kind, ∃ part : Part kind, part.path = owner.path ++ path ∧ kind.shape = .record members := by
  rcases leads_record_iff.1 h with ⟨rfl, rfl⟩ | ⟨m, hm, inner, rfl, inside⟩
  · exact ⟨.builtin, owner, (List.append_nil _).symm, rfl⟩
  · rcases hm with _ | ⟨_, _ | ⟨_, _ | ⟨_, ⟨⟩⟩⟩⟩
    · exact absurd inside not_leads_plain
    · obtain ⟨i, inner, rfl, hitem⟩ := leads_list_iff.1 inside
      obtain ⟨rfl, hshape⟩ := eq_of_leads_plain fieldRule (by simp) hitem
      exact ⟨.field, .field owner i, rfl, hshape⟩
    · obtain ⟨i, inner, rfl, hitem⟩ := leads_list_iff.1 inside
      obtain ⟨kind, part, hpath, hshape⟩ := exists_part_in_enum (.enumInBuiltin owner i) hitem
      exact ⟨kind, part, by rw [hpath, Part.path, List.append_assoc]; rfl, hshape⟩

theorem exists_part_in_class (owner : Part .engineClass)
    (h : Leads path classShape (.record members)) :
    ∃ kind, ∃ part : Part kind, part.path = owner.path ++ path ∧ kind.shape = .record members := by
  rcases leads_record_iff.1 h with ⟨rfl, rfl⟩ | ⟨m, hm, inner, rfl, inside⟩
  · exact ⟨.engineClass, owner, (List.append_nil _).symm, rfl⟩
  · rcases hm with _ | ⟨_, _ | ⟨_, _ | ⟨_, _ | ⟨_, _ | ⟨_, ⟨⟩⟩⟩⟩⟩⟩
    · exact absurd inside not_leads_plain
    · exact absurd inside not_leads_plain
    · exact absurd inside not_leads_plain
    · exact absurd inside not_leads_plain
    · obtain ⟨i, inner, rfl, hitem⟩ := leads_list_iff.1 inside
      obtain ⟨kind, part, hpath, hshape⟩ := exists_part_in_enum (.enumInClass owner i) hitem
      exact ⟨kind, part, by rw [hpath, Part.path, List.append_assoc]; rfl, hshape⟩

/-- **Wherever a description has the shape of a record, there is a part.** -/
theorem exists_part (h : Leads path apiShape (.record members)) :
    ∃ kind, ∃ part : Part kind, part.path = path ∧ kind.shape = .record members := by
  rcases leads_record_iff.1 h with ⟨rfl, rfl⟩ | ⟨m, hm, inner, rfl, inside⟩
  · exact ⟨.api, .whole, rfl, rfl⟩
  · rcases hm with _ | ⟨_, _ | ⟨_, _ | ⟨_, _ | ⟨_, _ | ⟨_, ⟨⟩⟩⟩⟩⟩⟩
    · obtain ⟨rfl, hshape⟩ := eq_of_leads_plain headerRule (by simp) inside
      exact ⟨.header, .header, rfl, hshape⟩
    · obtain ⟨i, inner, rfl, hitem⟩ := leads_list_iff.1 inside
      exact exists_part_in_sizeTable (.sizeTable i) hitem
    · obtain ⟨i, inner, rfl, hitem⟩ := leads_list_iff.1 inside
      exact exists_part_in_enum (.globalEnum i) hitem
    · obtain ⟨i, inner, rfl, hitem⟩ := leads_list_iff.1 inside
      exact exists_part_in_builtin (.builtin i) hitem
    · obtain ⟨i, inner, rfl, hitem⟩ := leads_list_iff.1 inside
      exact exists_part_in_class (.engineClass i) hitem

end Ways

/-! ## A change in a part -/

/-- **What changes in a part of the text changes in that part of the description, and a part that
is not decoded any more fails the description.** -/
theorem focuses_part {change : Value → Value → Prop} (h : NoNull change) {kind : PartKind}
    (part : Part kind) {path : List Key} {e : Decoder β}
    {modify : (β → β) → kind.Record → kind.Record}
    (inner : Focuses change kind.rule.decoder kind.shape path e modify) :
    Focuses change apiRule.decoder apiShape (part.path ++ path) e
      fun g => part.modify (modify g) := by
  induction part generalizing path with
  | whole => exact inner
  | header =>
    exact .member lawful_api (t := apiShape) rfl rfl 0 rfl
      ⟨(·.header), fun h a => { a with header := h }, fun _ _ => rfl, fun _ _ _ => rfl⟩ rfl
      (inner.optional h)
  | sizeTable i =>
    exact .member lawful_api (t := apiShape) rfl rfl 1 rfl
      ⟨(·.sizeTables), fun ts a => { a with sizeTables := ts }, fun _ _ => rfl, fun _ _ _ => rfl⟩
      rfl (inner.list i)
  | globalEnum i =>
    exact .member lawful_api (t := apiShape) rfl rfl 2 rfl
      ⟨(·.globalEnums), fun es a => { a with globalEnums := es }, fun _ _ => rfl, fun _ _ _ => rfl⟩
      rfl (inner.list i)
  | builtin i =>
    exact .member lawful_api (t := apiShape) rfl rfl 3 rfl
      ⟨(·.builtins), fun bs a => { a with builtins := bs }, fun _ _ => rfl, fun _ _ _ => rfl⟩
      rfl (inner.list i)
  | engineClass i =>
    exact .member lawful_api (t := apiShape) rfl rfl 4 rfl
      ⟨(·.classes), fun cs a => { a with classes := cs }, fun _ _ => rfl, fun _ _ _ => rfl⟩
      rfl (inner.list i)
  | typeSize owner i ih =>
    rw [Part.path, List.append_assoc]
    exact ih (.member lawful_sizeTable (t := sizeTableShape) rfl rfl 1 rfl
      ⟨(·.sizes), fun ts t => { t with sizes := ts }, fun _ _ => rfl, fun _ _ _ => rfl⟩ rfl
      (inner.list i))
  | field owner i ih =>
    rw [Part.path, List.append_assoc]
    exact ih (.member lawful_builtin (t := builtinShape) rfl rfl 1 rfl
      ⟨(·.fields), fun fs b => { b with fields := fs }, fun _ _ => rfl, fun _ _ _ => rfl⟩ rfl
      ((inner.list i).optional h))
  | enumInBuiltin owner i ih =>
    rw [Part.path, List.append_assoc]
    exact ih (.member lawful_builtin (t := builtinShape) rfl rfl 2 rfl
      ⟨(·.enums), fun es b => { b with enums := es }, fun _ _ => rfl, fun _ _ _ => rfl⟩ rfl
      ((inner.list i).optional h))
  | enumInClass owner i ih =>
    rw [Part.path, List.append_assoc]
    exact ih (.member lawful_class (t := classShape) rfl rfl 4 rfl
      ⟨(·.enums), fun es c => { c with enums := es }, fun _ _ => rfl, fun _ _ _ => rfl⟩ rfl
      ((inner.list i).optional h))
  | enumMember owner i ih =>
    rw [Part.path, List.append_assoc]
    exact ih (.member lawful_enum (t := enumShape) rfl rfl 2 rfl
      ⟨(·.members), fun ms e => { e with members := ms }, fun _ _ => rfl, fun _ _ _ => rfl⟩ rfl
      (inner.list i))

end SwiftDecls
