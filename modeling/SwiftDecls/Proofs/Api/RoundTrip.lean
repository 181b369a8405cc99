import SwiftDecls.Proofs.Api.Rules
import SwiftDecls.Proofs.Json.Plain
import SwiftDecls.Proofs.Text.Pieces

/-!
# Writing a description and reading it back

A description is written as the map of all its members, each under its name and in the order of
their declaration, and so is every part of it; what is missing is null. Any of the parts can be
written instead as the list of its members' values. Whatever is chosen, reading finds the
description again (`ofJson_toJson`), as long as its numbers fit into the bits that they have.
-/

set_option autoImplicit false

namespace SwiftDecls

open Json Text

/-! ## Descriptions as values -/

def Header.toJson (h : Header) : Value := objectOf [
  ("version_major", ofNatural h.major), ("version_minor", ofNatural h.minor),
  ("version_patch", ofNatural h.patch), ("version_status", orNull ofText h.status),
  ("version_full_name", orNull ofText h.fullName)]

def EnumMember.toJson (m : EnumMember) : Value := objectOf [
  ("name", ofText m.name), ("value", ofInteger m.value)]

def EnumDefinition.toJson (e : EnumDefinition) : Value := objectOf [
  ("name", ofText e.name), ("is_bitfield", orNull .bool e.bitfield),
  ("values", arrayOf EnumMember.toJson e.members)]

def Field.toJson (f : Field) : Value := objectOf [("name", ofText f.name), ("type", ofText f.type)]

def Builtin.toJson (b : Builtin) : Value := objectOf [
  ("name", ofText b.name), ("members", orNull (arrayOf Field.toJson) b.fields),
  ("enums", orNull (arrayOf EnumDefinition.toJson) b.enums)]

def TypeSize.toJson (t : TypeSize) : Value := objectOf [
  ("name", ofText t.name), ("size", ofNatural t.size)]

def SizeTable.toJson (t : SizeTable) : Value := objectOf [
  ("build_configuration", ofText t.buildConfiguration), ("sizes", arrayOf TypeSize.toJson t.sizes)]

def EngineClass.toJson (c : EngineClass) : Value := objectOf [
  ("name", ofText c.name), ("inherits", orNull ofText c.inherits),
  ("is_refcounted", orNull .bool c.refcounted), ("is_instantiable", orNull .bool c.instantiable),
  ("enums", orNull (arrayOf EnumDefinition.toJson) c.enums)]

/-- A description as a value. -/
def Api.toJson (api : Api) : Value := objectOf [
  ("header", orNull Header.toJson api.header),
  ("builtin_class_sizes", arrayOf SizeTable.toJson api.sizeTables),
  ("global_enums", arrayOf EnumDefinition.toJson api.globalEnums),
  ("builtin_classes", arrayOf Builtin.toJson api.builtins),
  ("classes", arrayOf EngineClass.toJson api.classes)]

/-! ## Numbers that fit -/

/-- Version numbers have 32 bits. -/
def Header.InRange (h : Header) : Prop :=
  h.major ≤ 0xffffffff ∧ h.minor ≤ 0xffffffff ∧ h.patch ≤ 0xffffffff

/-- Values of enum members have 64 bits, one of them for the sign. -/
def EnumMember.InRange (m : EnumMember) : Prop :=
  -0x8000000000000000 ≤ m.value ∧ m.value ≤ 0x7fffffffffffffff

def EnumDefinition.InRange (e : EnumDefinition) : Prop := ∀ m ∈ e.members, m.InRange

/-- Sizes have 64 bits. -/
def SizeTable.InRange (t : SizeTable) : Prop := ∀ s ∈ t.sizes, s.size ≤ 0xffffffffffffffff

def Builtin.InRange (b : Builtin) : Prop := ∀ e ∈ b.enumList, e.InRange

def EngineClass.InRange (c : EngineClass) : Prop := ∀ e ∈ c.enumList, e.InRange

/-- The numbers in a description fit into the bits that they have. -/
structure Api.InRange (api : Api) : Prop where
  header : ∀ h ∈ api.header, h.InRange
  sizeTables : ∀ t ∈ api.sizeTables, t.InRange
  globalEnums : ∀ e ∈ api.globalEnums, e.InRange
  builtins : ∀ b ∈ api.builtins, b.InRange
  classes : ∀ c ∈ api.classes, c.InRange

/-! ## Reading back -/

theorem optional_ofText (s? : Option String) :
    Decoder.optional Decoder.string (orNull ofText s?) = .ok s? :=
  optional_orNull (fun _ => by simp [ofText]) fun s _ => string_ofText s

theorem optional_bool (b? : Option Bool) :
    Decoder.optional Decoder.bool (orNull .bool b?) = .ok b? :=
  optional_orNull (fun _ => by simp) fun b _ => bool_bool b

theorem decoder_header {h : Header} (hr : h.InRange) : headerRule.decoder h.toJson = .ok h := by
  obtain ⟨hmajor, hminor, hpatch⟩ := hr
  refine decoder_objectOf lawful_header rfl ?_
  exact putAll_must (nat32_ofNatural hmajor) <| putAll_must (nat32_ofNatural hminor) <|
    putAll_must (nat32_ofNatural hpatch) <| putAll_may (optional_ofText h.status) <|
    putAll_may (optional_ofText h.fullName) rfl

theorem decoder_enumMember {m : EnumMember} (hr : m.InRange) :
    enumMemberRule.decoder m.toJson = .ok m := by
  refine decoder_objectOf lawful_enumMember rfl ?_
  exact putAll_must (string_ofText m.name) <| putAll_must (int64_ofInteger hr) rfl

theorem decoder_enum {e : EnumDefinition} (hr : e.InRange) : enumRule.decoder e.toJson = .ok e := by
  refine decoder_objectOf lawful_enum rfl ?_
  exact putAll_must (string_ofText e.name) <| putAll_may (optional_bool e.bitfield) <|
    putAll_must (list_arrayOf fun m hm => decoder_enumMember (hr m hm)) rfl

theorem decoder_field (f : Field) : fieldRule.decoder f.toJson = .ok f := by
  refine decoder_objectOf lawful_field rfl ?_
  exact putAll_must (string_ofText f.name) <| putAll_must (string_ofText f.type) rfl

/-- Enums that may be missing. -/
theorem optional_enums {enums? : Option (List EnumDefinition)}
    (hr : ∀ e ∈ enums?.getD [], e.InRange) :
    Decoder.optional (Decoder.list enumRule.decoder)
      (orNull (arrayOf EnumDefinition.toJson) enums?) = .ok enums? := by
  refine optional_orNull (fun _ => by simp [arrayOf]) fun enums henums => ?_
  obtain rfl : enums? = some enums := henums
  exact list_arrayOf fun e he => decoder_enum (hr e he)

theorem decoder_builtin {b : Builtin} (hr : b.InRange) :
    builtinRule.decoder b.toJson = .ok b := by
  have hfields : Decoder.optional (Decoder.list fieldRule.decoder)
      (orNull (arrayOf Field.toJson) b.fields) = .ok b.fields :=
    optional_orNull (fun _ => by simp [arrayOf]) fun fields _ =>
      list_arrayOf fun f _ => decoder_field f
  refine decoder_objectOf lawful_builtin rfl ?_
  exact putAll_must (string_ofText b.name) <| putAll_may hfields <|
    putAll_may (optional_enums hr) rfl

theorem decoder_sizeTable {t : SizeTable} (hr : t.InRange) :
    sizeTableRule.decoder t.toJson = .ok t := by
  have hsize : ∀ s ∈ t.sizes, typeSizeRule.decoder s.toJson = .ok s := by
    intro s hs
    refine decoder_objectOf lawful_typeSize rfl ?_
    exact putAll_must (string_ofText s.name) <| putAll_must (nat64_ofNatural (hr s hs)) rfl
  refine decoder_objectOf lawful_sizeTable rfl ?_
  exact putAll_must (string_ofText t.buildConfiguration) <| putAll_must (list_arrayOf hsize) rfl

theorem decoder_class {c : EngineClass} (hr : c.InRange) :
    classRule.decoder c.toJson = .ok c := by
  refine decoder_objectOf lawful_class rfl ?_
  exact putAll_must (string_ofText c.name) <| putAll_may (optional_ofText c.inherits) <|
    putAll_may (optional_bool c.refcounted) <| putAll_may (optional_bool c.instantiable) <|
    putAll_may (optional_enums hr) rfl

theorem decoder_api {api : Api} (hr : api.InRange) : apiRule.decoder api.toJson = .ok api := by
  have hheader : Decoder.optional headerRule.decoder (orNull Header.toJson api.header) =
      .ok api.header :=
    optional_orNull (fun _ => by simp [Header.toJson, objectOf]) fun h hh =>
      decoder_header (hr.header h hh)
  refine decoder_objectOf lawful_api rfl ?_
  exact putAll_may hheader <|
    putAll_must (list_arrayOf fun t ht => decoder_sizeTable (hr.sizeTables t ht)) <|
    putAll_must (list_arrayOf fun e he => decoder_enum (hr.globalEnums e he)) <|
    putAll_must (list_arrayOf fun b hb => decoder_builtin (hr.builtins b hb)) <|
    putAll_must (list_arrayOf fun c hc => decoder_class (hr.classes c hc)) rfl

/-! ## Descriptions are plain -/

theorem Header.isPlain_toJson (h : Header) : h.toJson.IsPlain := by
  refine isPlain_objectOf ?_
  simp only [List.forall_mem_cons]
  exact ⟨.integer _, .integer _, .integer _, isPlain_orNull .text _, isPlain_orNull .text _, nofun⟩

theorem EnumMember.isPlain_toJson (m : EnumMember) : m.toJson.IsPlain := by
  refine isPlain_objectOf ?_
  simp only [List.forall_mem_cons]
  exact ⟨.text _, .integer _, nofun⟩

theorem EnumDefinition.isPlain_toJson (e : EnumDefinition) : e.toJson.IsPlain := by
  refine isPlain_objectOf ?_
  simp only [List.forall_mem_cons]
  exact ⟨.text _, isPlain_orNull .bool _, isPlain_arrayOf EnumMember.isPlain_toJson _, nofun⟩

theorem Field.isPlain_toJson (f : Field) : f.toJson.IsPlain := by
  refine isPlain_objectOf ?_
  simp only [List.forall_mem_cons]
  exact ⟨.text _, .text _, nofun⟩

theorem Builtin.isPlain_toJson (b : Builtin) : b.toJson.IsPlain := by
  refine isPlain_objectOf ?_
  simp only [List.forall_mem_cons]
  exact ⟨.text _, isPlain_orNull (isPlain_arrayOf Field.isPlain_toJson) _,
    isPlain_orNull (isPlain_arrayOf EnumDefinition.isPlain_toJson) _, nofun⟩

theorem TypeSize.isPlain_toJson (t : TypeSize) : t.toJson.IsPlain := by
  refine isPlain_objectOf ?_
  simp only [List.forall_mem_cons]
  exact ⟨.text _, .integer _, nofun⟩

theorem SizeTable.isPlain_toJson (t : SizeTable) : t.toJson.IsPlain := by
  refine isPlain_objectOf ?_
  simp only [List.forall_mem_cons]
  exact ⟨.text _, isPlain_arrayOf TypeSize.isPlain_toJson _, nofun⟩

theorem EngineClass.isPlain_toJson (c : EngineClass) : c.toJson.IsPlain := by
  refine isPlain_objectOf ?_
  simp only [List.forall_mem_cons]
  exact ⟨.text _, isPlain_orNull .text _, isPlain_orNull .bool _, isPlain_orNull .bool _,
    isPlain_orNull (isPlain_arrayOf EnumDefinition.isPlain_toJson) _, nofun⟩

theorem Api.isPlain_toJson (api : Api) : api.toJson.IsPlain := by
  refine isPlain_objectOf ?_
  simp only [List.forall_mem_cons]
  exact ⟨isPlain_orNull Header.isPlain_toJson _, isPlain_arrayOf SizeTable.isPlain_toJson _,
    isPlain_arrayOf EnumDefinition.isPlain_toJson _, isPlain_arrayOf Builtin.isPlain_toJson _,
    isPlain_arrayOf EngineClass.isPlain_toJson _, nofun⟩

/-- **A description whose numbers fit is read back from its text**, whichever of its records are
written as lists, and however the text is laid out and its tokens are spelled. -/
theorem ofJson_toJson {api : Api} (inRange : api.InRange) :
    Api.ofJson api.toJson.text = .ok api ∧
      ∀ v, Relation.ReflTransGen (Within AsList apiShape) api.toJson v →
        Api.ofJson v.text = .ok api ∧ ∀ text, Spells v text → Api.ofJson text = .ok api := by
  have hread : ∀ v, Relation.ReflTransGen (Within AsList apiShape) api.toJson v →
      ∀ text, Spells v text → Api.ofJson text = .ok api := by
    intro v hsteps text hspells
    have hvalue := (respects_api sound_asList).steps hsteps (decoder_api inRange)
    exact ofJson_eq_ok_iff.2 ⟨v, hspells, hvalue⟩
  have hplain : ∀ v, Relation.ReflTransGen (Within AsList apiShape) api.toJson v → v.IsPlain := by
    intro v hsteps
    induction hsteps with
    | refl => exact api.isPlain_toJson
    | tail _ hstep ih => exact isPlain_of_asList hstep ih
  refine ⟨hread _ .refl _ (spells_text api.isPlain_toJson), fun v hsteps => ⟨?_, hread v hsteps⟩⟩
  exact hread v hsteps _ (spells_text (hplain v hsteps))

/-- The greatest size, the least value of an enum member, and a name that needs escapes. -/
def edgeDescription : Api where
  sizeTables := [⟨"float_64", [⟨"\"\\\n\x01😀", 0xffffffffffffffff⟩]⟩]
  globalEnums := [⟨"E", some true, [⟨"LEAST", -0x8000000000000000⟩]⟩]
  builtins := []
  classes := []

/-- The text of this description. -/
def edgeText : String :=
  "\x7b\"header\":null,\"builtin_class_sizes\":[" ++
    "\x7b\"build_configuration\":\"float_64\",\"sizes\":[" ++
    "\x7b\"name\":\"\\\"\\\\\\n\\u0001😀\",\"size\":18446744073709551615\x7d]\x7d]," ++
    "\"global_enums\":[\x7b\"name\":\"E\",\"is_bitfield\":true,\"values\":[" ++
    "\x7b\"name\":\"LEAST\",\"value\":-9223372036854775808\x7d]\x7d]," ++
    "\"builtin_classes\":[],\"classes\":[]\x7d"

/-- The text with the size and the whole description as lists. -/
def edgeListText : String :=
  "[null,[\x7b\"build_configuration\":\"float_64\",\"sizes\":[" ++
    "[\"\\\"\\\\\\n\\u0001😀\",18446744073709551615]]\x7d]," ++
    "[\x7b\"name\":\"E\",\"is_bitfield\":true,\"values\":[" ++
    "\x7b\"name\":\"LEAST\",\"value\":-9223372036854775808\x7d]\x7d],[],[]]"

theorem ofJson_toJson_of_edge : edgeDescription.InRange ∧
    Api.ofJson edgeText = .ok edgeDescription ∧
      Api.ofJson edgeListText = .ok edgeDescription := by
  have inRange : edgeDescription.InRange := by
    constructor
    · simp [edgeDescription]
    · simp [edgeDescription, SizeTable.InRange]
    · simp [edgeDescription, EnumDefinition.InRange, EnumMember.InRange]
    · simp [edgeDescription]
    · simp [edgeDescription]
  let size : List (String × Value) :=
    [("name", ofText "\"\\\n\x01😀"), ("size", ofNatural (0xffffffffffffffff))]
  let sizeList : Value := .list (size.map (·.2)) .closed
  let table (size : Value) : Value := objectOf [
    ("build_configuration", ofText "float_64"), ("sizes", .list [size] .closed)]
  let whole (size : Value) : List (String × Value) := [
    ("header", .null), ("builtin_class_sizes", .list [table size] .closed),
    ("global_enums", arrayOf EnumDefinition.toJson edgeDescription.globalEnums),
    ("builtin_classes", .list [] .closed), ("classes", .list [] .closed)]
  let v : Value := .list ((whole sizeList).map (·.2)) .closed
  have inSize : Within AsList typeSizeShape (objectOf size) sizeList := .here (.mk rfl)
  have inTable : Within AsList sizeTableShape (table (objectOf size)) (table sizeList) :=
    @Within.entry _ _ ⟨"sizes", true, .list typeSizeShape⟩
      [(⟨some "build_configuration"⟩, ofText "float_64")] [] _ _ (.tail _ (.head _))
      (@Within.item _ _ [] [] _ _ inSize)
  have inWhole : Within AsList apiShape edgeDescription.toJson (objectOf (whole sizeList)) :=
    @Within.entry _ _ ⟨"builtin_class_sizes", true, .list sizeTableShape⟩
      [(⟨some "header"⟩, .null)] [(⟨some "global_enums"⟩, _), (⟨some "builtin_classes"⟩, _),
        (⟨some "classes"⟩, _)] _ _ (.tail _ (.head _)) (@Within.item _ _ [] [] _ _ inTable)
  have asList : Within AsList apiShape (objectOf (whole sizeList)) v := .here (.mk rfl)
  have htext : edgeDescription.toJson.text = edgeText := by
    apply Value.text_eq (append_eq_ofList (append_eq_ofList (append_eq_ofList (append_eq_ofList
      (append_eq_ofList rfl rfl) rfl) rfl) rfl) rfl)
    decide +kernel
  have hlist : v.text = edgeListText := by
    apply Value.text_eq (append_eq_ofList (append_eq_ofList (append_eq_ofList rfl rfl) rfl) rfl)
    decide +kernel
  obtain ⟨hmap, hsteps⟩ := ofJson_toJson inRange
  exact ⟨inRange, htext ▸ hmap, hlist ▸ (hsteps v (.tail (.single inWhole) asList)).1⟩

end SwiftDecls
