import SwiftDecls.Naming
import SwiftDecls.Path
import SwiftDecls.SortedMap
import SwiftDecls.Text.Pieces

/-!
# Generated files

Declarations go into files below two directories, one for built-in types and one for classes:
a single file each, or one file per type named after it in Pascal case. The global enums and
the table of constructors are in a file of their own beside the built-ins. Every file starts
with the same header.

An `Output` maps paths to texts. Paths with the same components are one entry, under the
spelling that came first, and entries are in the order of their components.
-/

set_option autoImplicit false

namespace SwiftDecls

open Text Naming

/-- What every file starts with. -/
def fileHeader : String :=
  "// This file is autogenerated, do not edit\nimport Foundation\n" ++
    "@_implementationOnly import GDExtension\n\n"

/-- The two kinds of declared types. -/
inductive Group where
  | builtins
  | classes
deriving DecidableEq, Repr

namespace Group

/-- The directory of a group's files. -/
def directory : Group → Path
  | builtins => ⟨"generated-builtin"⟩
  | classes => ⟨"generated"⟩

/-- The file of a group when it has only one. -/
def file (g : Group) : Path :=
  g.directory.join (match g with
    | builtins => ⟨"builtins.swift"⟩
    | classes => ⟨"classes.swift"⟩)

/-- The file of one type of a group. -/
def typeFile (g : Group) (typeName : String) : Path :=
  g.directory.join ⟨pascal typeName ++ ".swift"⟩

end Group

/-- The file with the global enums and the table of constructors. -/
def coreFile : Path := Group.builtins.directory.join ⟨"core-defs.swift"⟩

/-- How declarations are spread over files. -/
inductive OutputMode where
  | singleFile
  | perType
deriving DecidableEq, Repr, Inhabited

/-- The text of a declared type. -/
structure Declaration where
  group : Group
  typeName : String
  text : String

/-- Texts by path. -/
structure Output where
  files : SortedMap (List Component) (Path × String) := ∅

namespace Output

/-- Puts a text under a path; a path that is there under any spelling keeps it. -/
def insert (o : Output) (path : Path) (text : String) : Output :=
  let spelling := ((o.files.get? path.components).map (·.1)).getD path
  ⟨o.files.insert path.components (spelling, text)⟩

/-- The text under a path in any spelling. -/
def get? (o : Output) (path : Path) : Option String :=
  (o.files.get? path.components).map (·.2)

/-- The paths and texts in order. -/
def toList (o : Output) : List (Path × String) := o.files.values

/-- The number of files. -/
def size (o : Output) : Nat := o.files.size

/-- There is no file. -/
def isEmpty (o : Output) : Bool := o.files.isEmpty

end Output

/-- A text as whole lines, none for a text without any but a line feed. -/
def wholeLines (text : String) : String :=
  let cs := text.toList
  let body := if cs.getLast? = some '\n' then cs.dropLast else cs
  if body.isEmpty then "" else String.ofList (body ++ ['\n'])

/-- The text of a group's single file. -/
def groupText (g : Group) (declarations : List Declaration) : String :=
  fileHeader ++
    String.join ((declarations.filter (·.group = g)).map fun d => wholeLines d.text)

/-- Puts the file of one type into an output. -/
def Output.insertType (o : Output) (d : Declaration) : Output :=
  o.insert (d.group.typeFile d.typeName) (fileHeader ++ d.text)

/-- Spreads declarations over files. The core file and the group files come last, so they take
the place of a type's file with the same path. -/
def partition (mode : OutputMode) (core : String) (declarations : List Declaration) : Output :=
  match mode with
  | .singleFile =>
    (((({} : Output).insert coreFile core).insert Group.builtins.file
      (groupText .builtins declarations)).insert Group.classes.file
        (groupText .classes declarations))
  | .perType => (declarations.foldl Output.insertType {}).insert coreFile core

end SwiftDecls
