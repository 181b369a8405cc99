import SwiftDecls.Json.Value
import SwiftDecls.Text.Quoted

/-!
# Decoding JSON

A decoder takes a value in the order of its text and fails at the first problem: a fault in
the text, or data that it does not expect.

A record can be written as a map from its fields' names, in any order, or as a list of its
fields' values in their order. In a map unknown names are skipped, no field may come twice, and
at the end every required field must have come. In a list fields that are not required may be
missing at the end.
-/

set_option autoImplicit false

namespace SwiftDecls.Json

open Number Text

/-- Data that a decoder does not expect. -/
inductive Problem where
  | missingField (name : String)
  | duplicateField (name : String)
  | wrongKind (found : Kind) (expected : String)
  | wrongInteger (found : Int) (expected : String)
  | wrongLength (found : Nat) (record : String) (fields : Nat)
  | unknownVariant (found : String) (expected : List String)
deriving DecidableEq, Repr

/-- Why decoding fails. -/
inductive DecodeError where
  | fault (f : Fault)
  | data (p : Problem)
deriving DecidableEq, Repr

/-! ## Messages -/

/-- A text between backticks. -/
def ticked (s : String) : String := "`" ++ s ++ "`"

/-- A choice of texts between backticks. -/
def choice : List String → String
  | [] => "there are no variants"
  | [a] => "expected " ++ ticked a
  | [a, b] => "expected " ++ ticked a ++ " or " ++ ticked b
  | names => "expected one of " ++ String.intercalate ", " (names.map ticked)

/-- A kind of value in a message. -/
def Kind.text : Kind → String
  | null => "null"
  | bool value => "boolean " ++ ticked (if value then "true" else "false")
  | integer value => "integer " ++ ticked (toString value)
  | double text => "floating point " ++ ticked text
  | string text => "string " ++ quoteText text
  | sequence => "sequence"
  | map => "map"

/-- The message of a problem. -/
def Problem.message : Problem → String
  | missingField name => "missing field " ++ ticked name
  | duplicateField name => "duplicate field " ++ ticked name
  | wrongKind found expected => "invalid type: " ++ found.text ++ ", expected " ++ expected
  | wrongInteger found expected =>
    "invalid value: " ++ (Kind.integer found).text ++ ", expected " ++ expected
  | wrongLength found record fields =>
    "invalid length " ++ toString found ++ ", expected struct " ++ record ++ " with " ++
      toString fields ++ (if fields = 1 then " element" else " elements")
  | unknownVariant found expected =>
    "unknown variant " ++ ticked found ++ ", " ++ choice expected

/-! ## Decoders -/

/-- A decoder. -/
abbrev Decoder (α : Type) : Type := Value → Except DecodeError α

/-- Fails at a fault, if there is one. -/
def guardFault (fault : Option Fault) : Except DecodeError Unit :=
  match fault with
  | none => .ok ()
  | some f => .error (.fault f)

/-- Fails because a value is of another kind, or because of a fault in it. -/
def wrongKind {α : Type} (v : Value) (expected : String) : Except DecodeError α :=
  match v.kind with
  | .ok k => .error (.data (.wrongKind k expected))
  | .error f => .error (.fault f)

namespace Decoder

/-- A string. -/
def string : Decoder String
  | .string ⟨some text⟩ => .ok text
  | .string ⟨none⟩ => .error (.fault .malformed)
  | v => wrongKind v "a string"

/-- A boolean. -/
def bool : Decoder Bool
  | .bool value => .ok value
  | v => wrongKind v "a boolean"

/-- An integer between two bounds; `type` is the name of that range. -/
def integer (least greatest : Int) (type : String) : Decoder Int
  | .number literal =>
    match (Token.number literal).kind with
    | .ok (.integer n) =>
      if least ≤ n ∧ n ≤ greatest then .ok n else .error (.data (.wrongInteger n type))
    | _ => wrongKind (.number literal) type
  | v => wrongKind v type

/-- A signed number of 64 bits. -/
def int64 : Decoder Int := integer (-0x8000000000000000) 0x7fffffffffffffff "i64"

/-- A natural number of 32 bits. -/
def nat32 : Decoder Nat := fun v => (integer 0 0xffffffff "u32" v).map Int.toNat

/-- A natural number of 64 bits. -/
def nat64 : Decoder Nat := fun v => (integer 0 0xffffffffffffffff "usize" v).map Int.toNat

/-- A value or null. -/
def optional {α : Type} (d : Decoder α) : Decoder (Option α)
  | .null => .ok none
  | v => (d v).map some

/-- A list. -/
def list {α : Type} (d : Decoder α) : Decoder (List α)
  | .list items stop => do
    let decoded ← items.mapM d
    guardFault stop.fault?
    return decoded
  | v => wrongKind v "a sequence"

/-- The value of a variant's name. -/
def variantOf {α : Type} (variants : List (String × α)) (name : String) : Except DecodeError α :=
  match variants.lookup name with
  | some a => .ok a
  | none => .error (.data (.unknownVariant name (variants.map (·.1))))

/-- A variant without content: its name, or a map from its name to null. -/
def variant {α : Type} (variants : List (String × α)) : Decoder α
  | .map ((key, value) :: more) stop => do
    let a ← variantOf variants (← string (.string key))
    match value with
    | .null =>
      match more, stop with
      | [], .closed => return a
      | [], .broken false f => .error (.fault f)
      | _, _ => .error (.fault .malformed)
    | v => wrongKind v "unit"
  | .map [] stop => .error (.fault (stop.fault?.getD .malformed))
  | .string ⟨some name⟩ => variantOf variants name
  | .broken none => .error (.fault .ended)
  | .broken (some (.brokenString wanted _)) => .error (.fault wanted)
  | _ => .error (.fault .malformed)

end Decoder

/-! ## Records -/

/-- A field of a record: how its value goes into the record. -/
structure FieldRule (α : Type) where
  name : String
  required : Bool
  put : Value → α → Except DecodeError α

namespace FieldRule

variable {α β : Type}

/-- A field that must be there. -/
def must (name : String) (d : Decoder β) (set : β → α → α) : FieldRule α :=
  ⟨name, true, fun v a => return set (← d v) a⟩

/-- A field that may be missing. -/
def may (name : String) (d : Decoder β) (set : β → α → α) : FieldRule α :=
  ⟨name, false, fun v a => return set (← d v) a⟩

end FieldRule

/-- How a record is written: its name in messages, its fields in order, and the record before
any field is put in. -/
structure RecordRule (α : Type) where
  name : String
  fields : List (FieldRule α)
  start : α

namespace RecordRule

variable {α : Type}

/-- A record while its map is read: the names of the fields that have come, and the record so
far. -/
structure Draft (α : Type) where
  seen : List String
  record : α

/-- One entry of a map. -/
def entry (rule : RecordRule α) (d : Draft α) (e : StringLiteral × Value) :
    Except DecodeError (Draft α) := do
  let name ← Decoder.string (.string e.1)
  match rule.fields.find? (·.name == name) with
  | none =>
    guardFault e.2.skipFault?
    return d
  | some field =>
    if name ∈ d.seen then .error (.data (.duplicateField name))
    else return ⟨name :: d.seen, ← field.put e.2 d.record⟩

/-- A record that is written as a map. -/
def ofMap (rule : RecordRule α) (entries : List (StringLiteral × Value)) (stop : MapStop) :
    Except DecodeError α := do
  let d ← entries.foldlM rule.entry ⟨[], rule.start⟩
  guardFault stop.fault?
  match rule.fields.find? fun field => field.required && !d.seen.contains field.name with
  | some field => .error (.data (.missingField field.name))
  | none => return d.record

/-- The rest of a record that is written as a list; `place` fields have come. -/
def ofItems (rule : RecordRule α) (place : Nat) (fields : List (FieldRule α))
    (items : List Value) (stop : ListStop) (a : α) : Except DecodeError α :=
  match fields, items with
  | field :: fields, item :: items => do
    ofItems rule (place + 1) fields items stop (← field.put item a)
  | [], [] =>
    match stop with
    | .closed => .ok a
    | .broken false f => .error (.fault f)
    | .broken true _ => .error (.fault .malformed)
  | [], _ :: _ => .error (.fault .malformed)
  | fields, [] => do
    guardFault stop.fault?
    match fields.findIdx? (·.required) with
    | some i => .error (.data (.wrongLength (place + i) rule.name rule.fields.length))
    | none => return a

/-- The decoder of a record. -/
def decoder (rule : RecordRule α) : Decoder α
  | .map entries stop => rule.ofMap entries stop
  | .list items stop => rule.ofItems 0 rule.fields items stop rule.start
  | v => wrongKind v ("struct " ++ rule.name)

end RecordRule

/-- Decodes a whole text. Nothing may come after the value. -/
def decode {α : Type} (d : Decoder α) (text : String) : Except DecodeError α := do
  let document := parse text
  let a ← d document.value
  if document.rest.isEmpty then return a else .error (.fault .malformed)

end SwiftDecls.Json
