import SwiftDecls.Api
import SwiftDecls.Json.Decode

/-!
# The description as JSON

The fields of each part of a description under the names they have in `extension_api.json`.
-/

set_option autoImplicit false

namespace SwiftDecls

open Json FieldRule Decoder

/-- The engine's version. -/
def headerRule : RecordRule Header where
  name := "ApiHeader"
  fields := [
    must "version_major" nat32 fun n h => { h with major := n },
    must "version_minor" nat32 fun n h => { h with minor := n },
    must "version_patch" nat32 fun n h => { h with patch := n },
    may "version_status" (optional string) fun s h => { h with status := s },
    may "version_full_name" (optional string) fun s h => { h with fullName := s }]
  start := default

/-- A member of an enum. -/
def enumMemberRule : RecordRule EnumMember where
  name := "EnumMember"
  fields := [
    must "name" string fun s m => { m with name := s },
    must "value" int64 fun n m => { m with value := n }]
  start := default

/-- An enum. -/
def enumRule : RecordRule EnumDefinition where
  name := "EnumDefinition"
  fields := [
    must "name" string fun s e => { e with name := s },
    may "is_bitfield" (optional bool) fun b e => { e with bitfield := b },
    must "values" (list enumMemberRule.decoder) fun ms e => { e with members := ms }]
  start := default

/-- A data member of a built-in type. -/
def fieldRule : RecordRule Field where
  name := "BuiltinMember"
  fields := [
    must "name" string fun s f => { f with name := s },
    must "type" string fun s f => { f with type := s }]
  start := default

/-- A built-in type. -/
def builtinRule : RecordRule Builtin where
  name := "BuiltinClass"
  fields := [
    must "name" string fun s b => { b with name := s },
    may "members" (optional (list fieldRule.decoder)) fun fs b => { b with fields := fs },
    may "enums" (optional (list enumRule.decoder)) fun es b => { b with enums := es }]
  start := default

/-- The size of a type. -/
def typeSizeRule : RecordRule TypeSize where
  name := "TypeSize"
  fields := [
    must "name" string fun s t => { t with name := s },
    must "size" nat64 fun n t => { t with size := n }]
  start := default

/-- The sizes of types in one build configuration. -/
def sizeTableRule : RecordRule SizeTable where
  name := "BuildConfigurationSizes"
  fields := [
    must "build_configuration" string fun s t => { t with buildConfiguration := s },
    must "sizes" (list typeSizeRule.decoder) fun ts t => { t with sizes := ts }]
  start := default

/-- An engine class. -/
def classRule : RecordRule EngineClass where
  name := "ApiClass"
  fields := [
    must "name" string fun s c => { c with name := s },
    may "inherits" (optional string) fun s c => { c with inherits := s },
    may "is_refcounted" (optional bool) fun b c => { c with refcounted := b },
    may "is_instantiable" (optional bool) fun b c => { c with instantiable := b },
    may "enums" (optional (list enumRule.decoder)) fun es c => { c with enums := es }]
  start := default

/-- A whole description. -/
def apiRule : RecordRule Api where
  name := "ExtensionApi"
  fields := [
    may "header" (optional headerRule.decoder) fun h a => { a with header := h },
    must "builtin_class_sizes" (list sizeTableRule.decoder) fun ts a => { a with sizeTables := ts },
    must "global_enums" (list enumRule.decoder) fun es a => { a with globalEnums := es },
    must "builtin_classes" (list builtinRule.decoder) fun bs a => { a with builtins := bs },
    must "classes" (list classRule.decoder) fun cs a => { a with classes := cs }]
  start := default

/-- Decodes a description. -/
def Api.ofJson (text : String) : Except DecodeError Api := decode apiRule.decoder text

end SwiftDecls
