import SwiftDecls.Declarations.Enums

/-!
# Declarations of engine classes

A class is declared with its base and its nested enums; its methods and properties are not
declared here. A class that inherits from nothing derives from the wrapper of native objects.
-/

set_option autoImplicit false

namespace SwiftDecls

open Source

/-- The base of classes that inherit from nothing. -/
def rootBase : String := "Wrapped"

namespace EngineClass

/-- The Swift name of the base. -/
def base (c : EngineClass) : String := (c.inherits.map swiftTypeName).getD rootBase

/-- The first line of the declaration. -/
def declHeader (c : EngineClass) : String :=
  "open class " ++ swiftTypeName c.name ++ ": " ++ c.base

/-- The scope of the nested enums. -/
def scope (doc : Option ClassDoc) (c : EngineClass) : EnumScope :=
  .nested (swiftTypeName c.name) (c.name ++ ".") ((doc.map (·.constants)).getD [])

/-- The comment with the brief text. -/
def briefComment (doc : Option ClassDoc) (c : EngineClass) : List Step :=
  match doc.bind (·.brief) with
  | some brief => docComment (some (swiftTypeName c.name)) brief
  | none => []

/-- The declaration of a class with its comment. -/
def steps (doc : Option ClassDoc) (c : EngineClass) : List Step :=
  c.briefComment doc ++ [.block c.declHeader "" (enumSteps (c.scope doc) c.enumList)]

/-- The index entries of the nested enums. -/
def indexEntries (c : EngineClass) : List (String × EnumDefinition) :=
  (c.scope none).indexEntries c.enumList

end EngineClass

end SwiftDecls
