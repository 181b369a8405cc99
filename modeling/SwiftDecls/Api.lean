import SwiftDecls.SortedMap

/-!
# The engine's API description

The part of the description that declarations are made from: the engine's version, the sizes
of built-in types per build configuration, the global enums, the built-in types and the
classes. What a description leaves out is `none`, and the accessors say what that stands for.
-/

set_option autoImplicit false

namespace SwiftDecls

/-- The engine's version. -/
structure Header where
  major : Nat
  minor : Nat
  patch : Nat
  status : Option String := none
  fullName : Option String := none
deriving DecidableEq, Repr, Inhabited

/-- A member of an enum. -/
structure EnumMember where
  name : String
  value : Int
deriving DecidableEq, Repr, Inhabited

/-- An enum, or a set of flags if it is a bit field. -/
structure EnumDefinition where
  name : String
  bitfield : Option Bool := none
  members : List EnumMember
deriving DecidableEq, Repr, Inhabited

/-- An enum is a set of flags only where the description says so. -/
def EnumDefinition.isBitfield (e : EnumDefinition) : Bool := e.bitfield.getD false

/-- A data member of a built-in type. -/
structure Field where
  name : String
  type : String
deriving DecidableEq, Repr, Inhabited

/-- A built-in type. -/
structure Builtin where
  name : String
  fields : Option (List Field) := none
  enums : Option (List EnumDefinition) := none
deriving DecidableEq, Repr, Inhabited

/-- The number of data members; none if the description does not list any. -/
def Builtin.fieldCount (b : Builtin) : Nat := (b.fields.getD []).length

/-- The enums nested in a built-in type. -/
def Builtin.enumList (b : Builtin) : List EnumDefinition := b.enums.getD []

/-- The size of a type in bytes. -/
structure TypeSize where
  name : String
  size : Nat
deriving DecidableEq, Repr, Inhabited

/-- The sizes of types in one build configuration. -/
structure SizeTable where
  buildConfiguration : String
  sizes : List TypeSize
deriving DecidableEq, Repr, Inhabited

/-- An engine class. -/
structure EngineClass where
  name : String
  inherits : Option String := none
  refcounted : Option Bool := none
  instantiable : Option Bool := none
  enums : Option (List EnumDefinition) := none
deriving DecidableEq, Repr, Inhabited

/-- The enums nested in a class. -/
def EngineClass.enumList (c : EngineClass) : List EnumDefinition := c.enums.getD []

/-- A whole description. -/
structure Api where
  header : Option Header := none
  sizeTables : List SizeTable
  globalEnums : List EnumDefinition
  builtins : List Builtin
  classes : List EngineClass
deriving DecidableEq, Repr, Inhabited

/-- The first size table of a build configuration. -/
def sizesFor? (tables : List SizeTable) (buildConfiguration : String) : Option SizeTable :=
  tables.find? (·.buildConfiguration == buildConfiguration)

namespace Api

/-- The first size table of a build configuration. -/
def sizesFor? (api : Api) (buildConfiguration : String) : Option SizeTable :=
  SwiftDecls.sizesFor? api.sizeTables buildConfiguration

/-- The classes by name; of two with the same name the later one. -/
def classesByName (api : Api) : SortedMap String EngineClass :=
  (∅ : SortedMap String EngineClass).insertAll (api.classes.map fun c => (c.name, c))

/-- The engine's full name, or its version number if it has no name. -/
def versionName (api : Api) : Option String :=
  api.header.map fun h =>
    h.fullName.getD (toString h.major ++ "." ++ toString h.minor ++ "." ++ toString h.patch)

end Api

end SwiftDecls
