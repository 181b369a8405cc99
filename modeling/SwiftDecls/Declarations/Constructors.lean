import SwiftDecls.SortedMap
import SwiftDecls.Source.Step
import SwiftDecls.TypeName

/-!
# The table of constructors

Every engine class is registered under its schema name with its Swift name. The table is
written as a dictionary literal, in key order and one line for each class, from which a native
object gets the most derived Swift class.
-/

set_option autoImplicit false

namespace SwiftDecls

open Source

/-- The registered classes: schema name to Swift name. -/
abbrev ReferenceTypes := SortedMap String String

namespace ReferenceTypes

/-- Registers a class. -/
def register (types : ReferenceTypes) (name : String) : ReferenceTypes :=
  types.insert name (swiftTypeName name)

/-- Registers classes one after the other. -/
def registerAll (types : ReferenceTypes) (names : List String) : ReferenceTypes :=
  names.foldl register types

/-- The declaration up to the entries. -/
def tableStart : String := "var godotFrameworkCtors: [String: Wrapped.Type] = ["

/-- The line of an entry. -/
def entryLine (name swiftName : String) : String :=
  "\"" ++ name ++ "\": " ++ swiftName ++ ".self,"

/-- The table as a declaration. -/
def steps (types : ReferenceTypes) : List Step :=
  if types.isEmpty then [.line (tableStart ++ ":]")]
  else
    [.line tableStart, .indent (types.entries.map fun e => .line (entryLine e.1 e.2)), .line "]"]

end ReferenceTypes

end SwiftDecls
