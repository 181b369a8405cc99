import SwiftDecls.Text.Pieces

/-!
# Swift names of schema types

A schema type name is renamed segment by segment between its dots: primitives get their Swift
names, and names that Swift has already taken get a `G` or `Godot` in front. A type reference
is more than a name: it can point at an enum or a bit field, be an array of an element type, or
be a number whose width is given beside it.
-/

set_option autoImplicit false

namespace SwiftDecls

open Text

/-- The segments that Swift spells differently. -/
def renamings : List (String × String) := [
  ("int", "Int"), ("float", "Double"), ("bool", "Bool"), ("void", "Void"),
  ("Array", "GArray"), ("Dictionary", "GDictionary"), ("Error", "GodotError"),
  ("String", "GString"), ("Type", "GType")]

/-- The Swift spelling of one segment. -/
def swiftSegment (segment : String) : String := (renamings.lookup segment).getD segment

/-- The Swift name of a schema type name. -/
def swiftTypeName (name : String) : String :=
  joinSegments '.' ((segments '.' name).map swiftSegment)

/-- The number types of a given width. -/
def widths : List (String × String) := [
  ("int8", "Int8"), ("int16", "Int16"), ("int32", "Int32"), ("int64", "Int"),
  ("uint8", "UInt8"), ("uint16", "UInt16"), ("uint32", "UInt32"), ("uint64", "UInt"),
  ("char16", "UInt16"), ("char32", "UInt32"), ("float", "Float"), ("double", "Double")]

/-- What a type in the schema refers to. -/
inductive TypeRef where
  /-- An enum or a bit field, by name. -/
  | enumeration (name : String)
  /-- An array; `spelling` is the element type as the schema writes it. -/
  | typedArray (spelling : String) (element : TypeRef)
  /-- Any other type, by name. -/
  | named (name : String)

/-- What an enumeration reference starts with. -/
def enumMark : List Char := "enum::".toList

/-- What a bit field reference starts with. -/
def bitfieldMark : List Char := "bitfield::".toList

/-- What an array reference starts with. -/
def arrayMark : List Char := "typedarray::".toList

/-- Reads a type of the schema. -/
def TypeRef.read (spelling : List Char) : TypeRef :=
  match dropPrefix? enumMark spelling <|> dropPrefix? bitfieldMark spelling with
  | some name => .enumeration (String.ofList name)
  | none =>
    match _h : dropPrefix? arrayMark spelling with
    | some element => .typedArray (String.ofList element) (read element)
    | none => .named (String.ofList spelling)
termination_by spelling.length
decreasing_by exact length_lt_of_dropPrefix? _h

/-- The Swift type of a reference. An array of built-ins holds variants, any other array holds
objects; a width applies to the two number types alone. -/
def TypeRef.swift (isBuiltin : String → Bool) (width : Option String) : TypeRef → String
  | .enumeration name => swiftTypeName name
  | .typedArray spelling element =>
    let collection := if isBuiltin spelling then "VariantCollection" else "ObjectCollection"
    collection ++ "<" ++ element.swift isBuiltin none ++ ">"
  | .named name =>
    match if name = "int" ∨ name = "float" then width.bind (widths.lookup ·) else none with
    | some number => number
    | none => swiftTypeName name

/-- The Swift type of a schema type, given which names are built-in types. -/
def swiftType (isBuiltin : String → Bool) (spelling : String) (width : Option String) : String :=
  (TypeRef.read spelling.toList).swift isBuiltin width

end SwiftDecls
