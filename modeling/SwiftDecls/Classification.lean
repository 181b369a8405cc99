import SwiftDecls.Api
import SwiftDecls.SortedMap

/-!
# Value types and opaque handles

A built-in type with data members is a value, copied with its storage; one without is a handle
to storage that the engine owns. The primitives and the variant are values whatever the
description says. Of several descriptions of one name the last counts, and so it does for
sizes within the first table of the build configuration.
-/

set_option autoImplicit false

namespace SwiftDecls

/-- How a built-in type is passed. -/
inductive TypeClass where
  | value
  | opaqueHandle
deriving DecidableEq, Repr

/-- The names that are values in any case. -/
def forcedValues : List String :=
  ["Float", "Int", "float", "int", "Variant", "Int32", "Bool", "bool"]

/-- The build configuration used where none is named. -/
def defaultBuildConfiguration : String := "float_64"

/-- A type with data members is a value. -/
def Builtin.typeClass (b : Builtin) : TypeClass :=
  if b.fieldCount = 0 then .opaqueHandle else .value

/-- The classes and sizes of built-in types. -/
structure Classification where
  classes : SortedMap String TypeClass := ∅
  sizes : SortedMap String Nat := ∅

namespace Classification

/-- Classifies built-in types and takes their sizes from a build configuration. -/
def ofBuiltins (builtins : List Builtin) (tables : List SizeTable)
    (buildConfiguration : String) : Classification where
  classes :=
    (SortedMap.empty.insertAll (builtins.map fun b => (b.name, b.typeClass))).insertAll
      (forcedValues.map (·, .value))
  sizes :=
    match sizesFor? tables buildConfiguration with
    | some table => SortedMap.empty.insertAll (table.sizes.map fun s => (s.name, s.size))
    | none => ∅

/-- The class of a name, if it is a built-in type. -/
def classOf? (c : Classification) (name : String) : Option TypeClass := c.classes.get? name

/-- A value type. -/
def isValue (c : Classification) (name : String) : Bool := c.classOf? name == some .value

/-- A built-in type. -/
def isBuiltin (c : Classification) (name : String) : Bool := c.classes.contains name

/-- The recorded size of a name. -/
def sizeOf? (c : Classification) (name : String) : Option Nat := c.sizes.get? name

/-- The number of classified names. -/
def size (c : Classification) : Nat := c.classes.size

end Classification

end SwiftDecls
