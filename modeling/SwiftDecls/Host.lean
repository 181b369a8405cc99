import SwiftDecls.Warning

/-!
# What a command needs from its surroundings

A command reads and writes files and says things. These operations are all that it asks for, so
one command runs both on a real machine and on a modelled one.
-/

set_option autoImplicit false

namespace SwiftDecls

/-- What a command says. -/
inductive Notice where
  /-- A line of its report. -/
  | line (text : String)
  | warning (w : Warning)
  /-- The message of the failure that ends it. -/
  | failure (message : String)
deriving DecidableEq, Repr

/-- A place where commands run. -/
class Host (m : Type → Type) where
  /-- The text of a file. -/
  readText : Path → m (Except ReadFailure String)
  /-- There is something at a path. -/
  pathExists : Path → m Bool
  /-- There is a file at a path. -/
  isFile : Path → m Bool
  /-- There is a directory at a path. -/
  isDirectory : Path → m Bool
  /-- Makes the directories that lead to a path and the one at it; whether they are there now. -/
  createDirectories : Path → m Bool
  /-- Gives a file a text, making the file if need be; whether it has the text now. -/
  writeText : Path → String → m Bool
  /-- Says something. -/
  say : Notice → m Unit

end SwiftDecls
