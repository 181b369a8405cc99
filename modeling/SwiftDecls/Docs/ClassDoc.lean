/-!
# Documentation of a class

What the engine's manual says about one class or about the global scope: a brief text, a
description, and a text for each constant. A constant is looked up by its exact name, and of
two with one name the first counts.
-/

set_option autoImplicit false

namespace SwiftDecls

/-- A documented constant. -/
structure DocConstant where
  name : String
  value : String := ""
  enumName : Option String := none
  text : String := ""
deriving DecidableEq, Repr, Inhabited

/-- The documentation of one class. -/
structure ClassDoc where
  name : String
  brief : Option String := none
  description : Option String := none
  constants : List DocConstant := []
deriving DecidableEq, Repr, Inhabited

/-- The name under which the global scope is documented. -/
def globalScope : String := "@GlobalScope"

/-- The first constant of a name. -/
def findConstant? (constants : List DocConstant) (name : String) : Option DocConstant :=
  constants.find? (·.name == name)

/-- The first constant of a name. -/
def ClassDoc.constant? (doc : ClassDoc) (name : String) : Option DocConstant :=
  findConstant? doc.constants name

end SwiftDecls
