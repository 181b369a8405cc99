import SwiftDecls.Host
import SwiftDecls.SortedMap

/-!
# A modelled machine

A disk maps locations to files and directories. A path is followed segment by segment: each
step has to start in a directory, `.` and nothing stay there, `..` goes up, and a name leads to
what is there under it. So a path with a slash at its end names directories only.

A machine is a disk with a working directory and the record of what has been said.
-/

set_option autoImplicit false

namespace SwiftDecls

/-- A place on a disk: the names that lead there from the root. -/
abbrev Location : Type := List String

/-- What a file holds: a text, or bytes that are none. -/
inductive Content where
  | text (s : String)
  | bytes
deriving DecidableEq, Repr

/-- What is at a location. -/
inductive Node where
  | file (content : Content)
  | directory
deriving DecidableEq, Repr

/-- The number of bytes that a path has to stay below. -/
def pathLimit : Nat := 4096

/-- The greatest number of bytes of a name. -/
def nameLimit : Nat := 255

/-- A path that can name something. -/
def Path.isUsable (p : Path) : Bool :=
  !p.text.isEmpty && p.text.utf8ByteSize < pathLimit && !p.text.toList.contains '\x00'

/-- A name that is not too long. -/
def isUsableName (name : String) : Bool := name.utf8ByteSize ≤ nameLimit

/-- A disk, seen from a working directory. -/
structure Disk where
  nodes : SortedMap Location Node := ∅
  here : Location := []

namespace Disk

/-- What is at a location. The root is a directory. -/
def node? (d : Disk) (l : Location) : Option Node :=
  if l.isEmpty then some .directory else d.nodes.get? l

/-- There is a directory at a location. -/
def isDirectoryAt (d : Disk) (l : Location) : Bool := d.node? l == some .directory

/-- Puts something at a location. -/
def put (d : Disk) (l : Location) (n : Node) : Disk := { d with nodes := d.nodes.insert l n }

/-- Where a segment of a path leads. -/
def enter? (d : Disk) (l : Location) (segment : String) : Option Location :=
  if !d.isDirectoryAt l then none
  else if segment = "" ∨ segment = "." then some l
  else if segment = ".." then some l.dropLast
  else if (d.node? (l ++ [segment])).isSome then some (l ++ [segment])
  else none

/-- Where a path starts. -/
def start (d : Disk) (p : Path) : Location := if p.isAbsolute then [] else d.here

/-- Where segments of a path lead. -/
def follow? (d : Disk) (l : Location) (segments : List String) : Option Location :=
  segments.foldlM d.enter? l

/-- The location of what is at a path. -/
def locate? (d : Disk) (p : Path) : Option Location :=
  if p.isUsable then d.follow? (d.start p) p.segments else none

/-- What is at a path. -/
def at? (d : Disk) (p : Path) : Option Node := (d.locate? p).bind d.node?

/-- The text of the file at a path. -/
def readText (d : Disk) (p : Path) : Except ReadFailure String :=
  match d.at? p with
  | some (.file (.text s)) => .ok s
  | some (.file .bytes) => .error .notText
  | some .directory => .error .directory
  | none => .error .missing

/-- Makes the directories that segments lead to as far as possible; whether all are there. -/
def makeDirectories (d : Disk) (l : Location) : List String → Disk × Bool
  | [] => (d, d.isDirectoryAt l)
  | segment :: rest =>
    match d.enter? l segment with
    | some l' => makeDirectories d l' rest
    | none =>
      if d.isDirectoryAt l ∧ isUsableName segment then
        makeDirectories (d.put (l ++ [segment]) .directory) (l ++ [segment]) rest
      else (d, false)

/-- Makes the directories that lead to a path and the one at it. There are none to make for the
empty path. -/
def createDirectories (d : Disk) (p : Path) : Disk × Bool :=
  if p.text.isEmpty then (d, true)
  else if p.isUsable then d.makeDirectories (d.start p) p.segments
  else (d, false)

/-- The location of a file at a path, whether or not it is there: the directory has to be, and
the last segment has to be a name under which there is no directory. -/
def fileLocation? (d : Disk) (p : Path) : Option Location :=
  if p.isUsable then
    match p.segments.getLast? with
    | none => none
    | some name => do
      let l ← d.follow? (d.start p) p.segments.dropLast
      if name ∉ ["", ".", ".."] ∧ isUsableName name ∧ d.isDirectoryAt l ∧
          !d.isDirectoryAt (l ++ [name]) then
        return l ++ [name]
      else none
  else none

/-- Gives the file at a path a text. -/
def writeText (d : Disk) (p : Path) (text : String) : Disk × Bool :=
  match d.fileLocation? p with
  | some l => (d.put l (.file (.text text)), true)
  | none => (d, false)

/-- The texts of the files below the working directory, by their paths from there. -/
def texts (d : Disk) : List (String × String) :=
  d.nodes.entries.filterMap fun (l, n) =>
    match n with
    | .file (.text s) =>
      if d.here.isPrefixOf l then some ("/".intercalate (l.drop d.here.length), s) else none
    | _ => none

end Disk

/-- A disk and what has been said, in order. -/
structure Machine where
  disk : Disk
  notices : List Notice := []

/-- A change of the disk with a result. -/
def Machine.onDisk {α : Type} (f : Disk → Disk × α) : StateM Machine α := fun s =>
  let (disk, a) := f s.disk
  (a, { s with disk })

instance : Host (StateM Machine) where
  readText p := do return (← get).disk.readText p
  pathExists p := do return ((← get).disk.at? p).isSome
  isFile p := do
    match (← get).disk.at? p with
    | some (.file _) => return true
    | _ => return false
  isDirectory p := do return (← get).disk.at? p == some .directory
  createDirectories p := Machine.onDisk fun d => d.createDirectories p
  writeText p text := Machine.onDisk fun d => d.writeText p text
  say n := modify fun s => { s with notices := s.notices ++ [n] }

end SwiftDecls
