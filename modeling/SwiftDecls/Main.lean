import SwiftDecls.CommandLine

/-!
# The program

Commands run on the machine at hand: its file system, with reports on standard output and
warnings and failures on standard error.
-/

set_option autoImplicit false

namespace SwiftDecls

/-- The result of an action that may fail. -/
def attempt {α : Type} (x : IO α) : IO (Option α) := do
  try
    return some (← x)
  catch _ =>
    return none

/-- There is a directory at a path. -/
def isDirectoryOnDisk (p : Path) : IO Bool := do
  match ← attempt (IO.FS.realPath p.text) with
  | some real => real.isDir
  | none => return false

/-- There is something at a path. -/
def existsOnDisk (p : Path) : IO Bool := do
  match ← attempt (IO.FS.realPath p.text) with
  | some real => real.pathExists
  | none => return false

/-- The text of a file. -/
def readFromDisk (p : Path) : IO (Except ReadFailure String) := do
  if ← isDirectoryOnDisk p then return .error .directory
  match ← attempt (IO.FS.readBinFile p.text) with
  | none => return .error .missing
  | some bytes =>
    match String.fromUTF8? bytes with
    | some text => return .ok text
    | none => return .error .notText

/-- Says something to the user. -/
def sayToUser : Notice → IO Unit
  | .line text => IO.println text
  | .warning w => IO.eprintln ("WARN " ++ w.message)
  | .failure message => IO.eprintln ("Error: " ++ message)

instance : Host IO where
  readText := readFromDisk
  pathExists := existsOnDisk
  isFile p := return (← existsOnDisk p) && !(← isDirectoryOnDisk p)
  isDirectory := isDirectoryOnDisk
  createDirectories p := do
    if p.text.isEmpty then return true
    return (← attempt (IO.FS.createDirAll p.text)).isSome
  writeText p text := return (← attempt (IO.FS.writeFile p.text text)).isSome
  say := sayToUser

end SwiftDecls

/-- Runs the program on its arguments. -/
def main (args : List String) : IO UInt32 := do
  let exit ← SwiftDecls.runProgram args
  return exit.status.toUInt32
