import SwiftDecls.Api.Decode
import SwiftDecls.Proofs.Json.Rewriting

/-!
# The records of a description

Every part of a description is a lawful record: its members have different names, are stored in
different places, and those that may be missing say nothing where they are null. So a step that
lawful records do not mind can be taken anywhere in a description (`respects_api`).
-/

set_option autoImplicit false

namespace SwiftDecls

open Json FieldRule

/-! ## The records are lawful -/

theorem lawful_header : headerRule.Lawful where
  names := by decide
  whole := by
    simp only [headerRule, List.forall_mem_cons]
    exact ⟨wholeOnly_must wholeOnly_nat32 _ _, wholeOnly_must wholeOnly_nat32 _ _,
      wholeOnly_must wholeOnly_nat32 _ _, wholeOnly_may (wholeOnly_optional wholeOnly_string) _ _,
      wholeOnly_may (wholeOnly_optional wholeOnly_string) _ _, nofun⟩
  commutes := by
    simp only [headerRule, List.pairwise_cons, List.forall_mem_cons, List.not_mem_nil,
      IsEmpty.forall_iff, implies_true, List.Pairwise.nil, and_true]
    and_intros
    all_goals exact commutes_of_set rfl rfl fun _ _ _ => rfl
  null := by
    simp only [headerRule, List.forall_mem_cons]
    exact ⟨nofun, nofun, nofun, fun _ => rfl, fun _ => rfl, nofun⟩

theorem lawful_enumMember : enumMemberRule.Lawful where
  names := by decide
  whole := by
    simp only [enumMemberRule, List.forall_mem_cons]
    exact ⟨wholeOnly_must wholeOnly_string _ _, wholeOnly_must wholeOnly_int64 _ _, nofun⟩
  commutes := by
    simp only [enumMemberRule, List.pairwise_cons, List.forall_mem_cons, List.not_mem_nil,
      IsEmpty.forall_iff, implies_true, List.Pairwise.nil, and_true]
    exact commutes_of_set rfl rfl fun _ _ _ => rfl
  null := by
    simp only [enumMemberRule, List.forall_mem_cons]
    exact ⟨nofun, nofun, nofun⟩

theorem lawful_enum : enumRule.Lawful where
  names := by decide
  whole := by
    simp only [enumRule, List.forall_mem_cons]
    exact ⟨wholeOnly_must wholeOnly_string _ _,
      wholeOnly_may (wholeOnly_optional wholeOnly_bool) _ _,
      wholeOnly_must (wholeOnly_list lawful_enumMember.wholeOnly_decoder) _ _, nofun⟩
  commutes := by
    simp only [enumRule, List.pairwise_cons, List.forall_mem_cons, List.not_mem_nil,
      IsEmpty.forall_iff, implies_true, List.Pairwise.nil, and_true]
    and_intros
    all_goals exact commutes_of_set rfl rfl fun _ _ _ => rfl
  null := by
    simp only [enumRule, List.forall_mem_cons]
    exact ⟨nofun, fun _ => rfl, nofun, nofun⟩

theorem lawful_field : fieldRule.Lawful where
  names := by decide
  whole := by
    simp only [fieldRule, List.forall_mem_cons]
    exact ⟨wholeOnly_must wholeOnly_string _ _, wholeOnly_must wholeOnly_string _ _, nofun⟩
  commutes := by
    simp only [fieldRule, List.pairwise_cons, List.forall_mem_cons, List.not_mem_nil,
      IsEmpty.forall_iff, implies_true, List.Pairwise.nil, and_true]
    exact commutes_of_set rfl rfl fun _ _ _ => rfl
  null := by
    simp only [fieldRule, List.forall_mem_cons]
    exact ⟨nofun, nofun, nofun⟩

theorem lawful_builtin : builtinRule.Lawful where
  names := by decide
  whole := by
    simp only [builtinRule, List.forall_mem_cons]
    exact ⟨wholeOnly_must wholeOnly_string _ _,
      wholeOnly_may (wholeOnly_optional (wholeOnly_list lawful_field.wholeOnly_decoder)) _ _,
      wholeOnly_may (wholeOnly_optional (wholeOnly_list lawful_enum.wholeOnly_decoder)) _ _, nofun⟩
  commutes := by
    simp only [builtinRule, List.pairwise_cons, List.forall_mem_cons, List.not_mem_nil,
      IsEmpty.forall_iff, implies_true, List.Pairwise.nil, and_true]
    and_intros
    all_goals exact commutes_of_set rfl rfl fun _ _ _ => rfl
  null := by
    simp only [builtinRule, List.forall_mem_cons]
    exact ⟨nofun, fun _ => rfl, fun _ => rfl, nofun⟩

theorem lawful_typeSize : typeSizeRule.Lawful where
  names := by decide
  whole := by
    simp only [typeSizeRule, List.forall_mem_cons]
    exact ⟨wholeOnly_must wholeOnly_string _ _, wholeOnly_must wholeOnly_nat64 _ _, nofun⟩
  commutes := by
    simp only [typeSizeRule, List.pairwise_cons, List.forall_mem_cons, List.not_mem_nil,
      IsEmpty.forall_iff, implies_true, List.Pairwise.nil, and_true]
    exact commutes_of_set rfl rfl fun _ _ _ => rfl
  null := by
    simp only [typeSizeRule, List.forall_mem_cons]
    exact ⟨nofun, nofun, nofun⟩

theorem lawful_sizeTable : sizeTableRule.Lawful where
  names := by decide
  whole := by
    simp only [sizeTableRule, List.forall_mem_cons]
    exact ⟨wholeOnly_must wholeOnly_string _ _,
      wholeOnly_must (wholeOnly_list lawful_typeSize.wholeOnly_decoder) _ _, nofun⟩
  commutes := by
    simp only [sizeTableRule, List.pairwise_cons, List.forall_mem_cons, List.not_mem_nil,
      IsEmpty.forall_iff, implies_true, List.Pairwise.nil, and_true]
    exact commutes_of_set rfl rfl fun _ _ _ => rfl
  null := by
    simp only [sizeTableRule, List.forall_mem_cons]
    exact ⟨nofun, nofun, nofun⟩

theorem lawful_class : classRule.Lawful where
  names := by decide
  whole := by
    simp only [classRule, List.forall_mem_cons]
    exact ⟨wholeOnly_must wholeOnly_string _ _,
      wholeOnly_may (wholeOnly_optional wholeOnly_string) _ _,
      wholeOnly_may (wholeOnly_optional wholeOnly_bool) _ _,
      wholeOnly_may (wholeOnly_optional wholeOnly_bool) _ _,
      wholeOnly_may (wholeOnly_optional (wholeOnly_list lawful_enum.wholeOnly_decoder)) _ _, nofun⟩
  commutes := by
    simp only [classRule, List.pairwise_cons, List.forall_mem_cons, List.not_mem_nil,
      IsEmpty.forall_iff, implies_true, List.Pairwise.nil, and_true]
    and_intros
    all_goals exact commutes_of_set rfl rfl fun _ _ _ => rfl
  null := by
    simp only [classRule, List.forall_mem_cons]
    exact ⟨nofun, fun _ => rfl, fun _ => rfl, fun _ => rfl, fun _ => rfl, nofun⟩

theorem lawful_api : apiRule.Lawful where
  names := by decide
  whole := by
    simp only [apiRule, List.forall_mem_cons]
    exact ⟨wholeOnly_may (wholeOnly_optional lawful_header.wholeOnly_decoder) _ _,
      wholeOnly_must (wholeOnly_list lawful_sizeTable.wholeOnly_decoder) _ _,
      wholeOnly_must (wholeOnly_list lawful_enum.wholeOnly_decoder) _ _,
      wholeOnly_must (wholeOnly_list lawful_builtin.wholeOnly_decoder) _ _,
      wholeOnly_must (wholeOnly_list lawful_class.wholeOnly_decoder) _ _, nofun⟩
  commutes := by
    simp only [apiRule, List.pairwise_cons, List.forall_mem_cons, List.not_mem_nil,
      IsEmpty.forall_iff, implies_true, List.Pairwise.nil, and_true]
    and_intros
    all_goals exact commutes_of_set rfl rfl fun _ _ _ => rfl
  null := by
    simp only [apiRule, List.forall_mem_cons]
    exact ⟨fun _ => rfl, nofun, nofun, nofun, nofun, nofun⟩

/-! ## The shape of a description -/

/-- The shape of a header. -/
def headerShape : Shape := headerRule.shape [.plain, .plain, .plain, .plain, .plain]

/-- The shape of a member of an enum. -/
def enumMemberShape : Shape := enumMemberRule.shape [.plain, .plain]

/-- The shape of an enum. -/
def enumShape : Shape := enumRule.shape [.plain, .plain, .list enumMemberShape]

/-- The shape of a data member. -/
def fieldShape : Shape := fieldRule.shape [.plain, .plain]

/-- The shape of a built-in type. -/
def builtinShape : Shape := builtinRule.shape [.plain, .list fieldShape, .list enumShape]

/-- The shape of the size of a type. -/
def typeSizeShape : Shape := typeSizeRule.shape [.plain, .plain]

/-- The shape of a size table. -/
def sizeTableShape : Shape := sizeTableRule.shape [.plain, .list typeSizeShape]

/-- The shape of an engine class. -/
def classShape : Shape := classRule.shape [.plain, .plain, .plain, .plain, .list enumShape]

/-- The shape of a whole description. -/
def apiShape : Shape :=
  apiRule.shape [headerShape, .list sizeTableShape, .list enumShape, .list builtinShape,
    .list classShape]

section Steps

variable {step : List (Member Shape) → Value → Value → Prop} (h : Sound step)

include h

theorem respects_header : Respects step headerRule.decoder headerShape := by
  refine RecordRule.respects_decoder h lawful_header rfl ?_
  simp only [headerRule, List.zip_cons_cons, List.zip_nil_left, List.forall_mem_cons]
  exact ⟨respects_must (respects_plain _) _ _, respects_must (respects_plain _) _ _,
    respects_must (respects_plain _) _ _, respects_may (respects_plain _) _ _,
    respects_may (respects_plain _) _ _, nofun⟩

theorem respects_enumMember : Respects step enumMemberRule.decoder enumMemberShape := by
  refine RecordRule.respects_decoder h lawful_enumMember rfl ?_
  simp only [enumMemberRule, List.zip_cons_cons, List.zip_nil_left, List.forall_mem_cons]
  exact ⟨respects_must (respects_plain _) _ _, respects_must (respects_plain _) _ _, nofun⟩

theorem respects_enum : Respects step enumRule.decoder enumShape := by
  refine RecordRule.respects_decoder h lawful_enum rfl ?_
  simp only [enumRule, List.zip_cons_cons, List.zip_nil_left, List.forall_mem_cons]
  exact ⟨respects_must (respects_plain _) _ _, respects_may (respects_plain _) _ _,
    respects_must (respects_enumMember h).list _ _, nofun⟩

theorem respects_field : Respects step fieldRule.decoder fieldShape := by
  refine RecordRule.respects_decoder h lawful_field rfl ?_
  simp only [fieldRule, List.zip_cons_cons, List.zip_nil_left, List.forall_mem_cons]
  exact ⟨respects_must (respects_plain _) _ _, respects_must (respects_plain _) _ _, nofun⟩

theorem respects_builtin : Respects step builtinRule.decoder builtinShape := by
  refine RecordRule.respects_decoder h lawful_builtin rfl ?_
  simp only [builtinRule, List.zip_cons_cons, List.zip_nil_left, List.forall_mem_cons]
  exact ⟨respects_must (respects_plain _) _ _, respects_may ((respects_field h).list.optional h) _ _,
    respects_may ((respects_enum h).list.optional h) _ _, nofun⟩

theorem respects_typeSize : Respects step typeSizeRule.decoder typeSizeShape := by
  refine RecordRule.respects_decoder h lawful_typeSize rfl ?_
  simp only [typeSizeRule, List.zip_cons_cons, List.zip_nil_left, List.forall_mem_cons]
  exact ⟨respects_must (respects_plain _) _ _, respects_must (respects_plain _) _ _, nofun⟩

theorem respects_sizeTable : Respects step sizeTableRule.decoder sizeTableShape := by
  refine RecordRule.respects_decoder h lawful_sizeTable rfl ?_
  simp only [sizeTableRule, List.zip_cons_cons, List.zip_nil_left, List.forall_mem_cons]
  exact ⟨respects_must (respects_plain _) _ _, respects_must (respects_typeSize h).list _ _, nofun⟩

theorem respects_class : Respects step classRule.decoder classShape := by
  refine RecordRule.respects_decoder h lawful_class rfl ?_
  simp only [classRule, List.zip_cons_cons, List.zip_nil_left, List.forall_mem_cons]
  exact ⟨respects_must (respects_plain _) _ _, respects_may (respects_plain _) _ _,
    respects_may (respects_plain _) _ _, respects_may (respects_plain _) _ _,
    respects_may ((respects_enum h).list.optional h) _ _, nofun⟩

/-- **A description does not mind a step that lawful records do not mind, wherever it is taken.** -/
theorem respects_api : Respects step apiRule.decoder apiShape := by
  refine RecordRule.respects_decoder h lawful_api rfl ?_
  simp only [apiRule, List.zip_cons_cons, List.zip_nil_left, List.forall_mem_cons]
  exact ⟨respects_may ((respects_header h).optional h) _ _,
    respects_must (respects_sizeTable h).list _ _, respects_must (respects_enum h).list _ _,
    respects_must (respects_builtin h).list _ _, respects_must (respects_class h).list _ _, nofun⟩

end Steps

/-- **A text is a description if it spells a value that is one.** -/
theorem ofJson_eq_ok_iff {text : String} {api : Api} :
    Api.ofJson text = .ok api ↔ ∃ v, Spells v text ∧ apiRule.decoder v = .ok api :=
  decode_eq_ok_iff lawful_api.wholeOnly_decoder

end SwiftDecls
