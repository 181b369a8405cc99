import SwiftDecls.Docs.ClassDoc
import SwiftDecls.Xml.Fault

/-!
# Where documentation comes from

A source answers a name with its documentation, with nothing, or with the reason why what is
there cannot be read. Declarations are made in each case.
-/

set_option autoImplicit false

namespace SwiftDecls

/-- Why a file has no text. -/
inductive ReadFailure where
  | missing
  | directory
  | notText
deriving DecidableEq, Repr

/-- What the system says about a failure. -/
def ReadFailure.message : ReadFailure → String
  | missing => "No such file or directory (os error 2)"
  | directory => "Is a directory (os error 21)"
  | notText => "stream did not contain valid UTF-8"

/-- Why documentation cannot be read. -/
inductive DocError where
  | unreadable (failure : ReadFailure)
  | markup (fault : Xml.Fault)
  /-- There is no class element. -/
  | noClass
  /-- The class element has no name. -/
  | unnamedClass
deriving DecidableEq, Repr

/-- The message of an error. -/
def DocError.message : DocError → String
  | unreadable failure => "I/O error: " ++ failure.message
  | markup fault => "XML error: " ++ fault.message
  | noClass => "invalid documentation structure: no <class> element found"
  | unnamedClass => "invalid documentation structure: <class> element without a name"

/-- Answers names with documentation. -/
abbrev DocSource := String → Except DocError (Option ClassDoc)

namespace DocSource

/-- A source without documentation. -/
def empty : DocSource := fun _ => .ok none

/-- A source with the given documentation; of two with one name the later counts. -/
def ofList (docs : List ClassDoc) : DocSource := fun name =>
  .ok (docs.reverse.find? (·.name == name))

/-- The documentation of a name, if it can be read. -/
def doc? (docs : DocSource) (name : String) : Option ClassDoc :=
  match docs name with
  | .ok doc => doc
  | .error _ => none

end DocSource

end SwiftDecls
