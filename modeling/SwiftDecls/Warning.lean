import SwiftDecls.Docs.Source
import SwiftDecls.Path

/-!
# Warnings

What a run reports without failing. A warning names what it is about and has one message.
-/

set_option autoImplicit false

namespace SwiftDecls

/-- A report about a run that goes on. -/
inductive Warning where
  /-- No size table has the build configuration. -/
  | unknownBuildConfiguration (name : String)
  /-- A built-in type is declared without a size. -/
  | unknownSize (builtin : String)
  /-- The documentation of a name cannot be read. -/
  | unreadableDoc (className : String) (error : DocError)
  /-- The directory with the documentation does not exist. -/
  | missingDocRoot (root : Path)
deriving DecidableEq, Repr

/-- The message of a warning. -/
def Warning.message : Warning → String
  | unknownBuildConfiguration _ => "build configuration not found, built-in sizes left unset"
  | unknownSize _ => "no native size recorded, emitting sizeless type"
  | unreadableDoc _ error => "ignoring unreadable documentation: " ++ error.message
  | missingDocRoot _ => "documentation directory not found, generating without docs"

/-- The warning about the documentation of a name. -/
def DocSource.warnings (docs : DocSource) (name : String) : List Warning :=
  match docs name with
  | .ok _ => []
  | .error error => [.unreadableDoc name error]

end SwiftDecls
