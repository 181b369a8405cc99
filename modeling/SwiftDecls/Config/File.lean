import SwiftDecls.Config.Generator
import SwiftDecls.Path
import SwiftDecls.Toml.Read

/-!
# The configuration file

A configuration file can set where the description, the output and the documentation are, and
the two settings of a run. The command line can set the same and takes precedence. What neither
sets has a default, but for the documentation, which is then left out.

In the file the settings are the fields of a record `generator`. Like every record it is a
table or a list of its fields' values in order; nothing else may be in the file.
-/

set_option autoImplicit false

namespace SwiftDecls

/-- What a configuration file sets. -/
structure ConfigFile where
  api : Option Path := none
  output : Option Path := none
  docRoot : Option Path := none
  buildConfiguration : Option String := none
  mode : Option OutputMode := none
deriving DecidableEq, Repr, Inhabited

namespace ConfigFile

open Toml

/-- A text. -/
def textOf : Value → Option String
  | .text s => some s
  | _ => none

/-- An empty list or table. -/
def isEmptyValue : Value → Bool
  | .list [] _ | .table _ [] => true
  | _ => false

/-- An output mode: its name, or a table with nothing but its name and an empty value. -/
def modeOf : Value → Option OutputMode
  | .text name => OutputMode.names.lookup name
  | .table _ [(name, v)] => if isEmptyValue v then OutputMode.names.lookup name else none
  | _ => none

/-- The fields in order: their names and how their values are set. -/
def fields : List (String × (Value → ConfigFile → Option ConfigFile)) := [
  ("api", fun v c => return { c with api := some ⟨← textOf v⟩ }),
  ("output", fun v c => return { c with output := some ⟨← textOf v⟩ }),
  ("doc_root", fun v c => return { c with docRoot := some ⟨← textOf v⟩ }),
  ("build_configuration", fun v c => return { c with buildConfiguration := some (← textOf v) }),
  ("output_mode", fun v c => return { c with mode := some (← modeOf v) })]

/-- The settings in a value. Items of a list behind the last field are ignored. -/
def ofValue : Value → Option ConfigFile
  | .table _ entries =>
    entries.foldlM (fun c (key, v) => do (← fields.lookup key) v c) {}
  | .list items _ => (fields.zip items).foldlM (fun c (field, v) => field.2 v c) {}
  | _ => none

/-- The settings in a text. -/
def parse? (text : String) : Option ConfigFile := do
  match ← Toml.parse? text with
  | [] => return {}
  | [("generator", v)] => ofValue v
  | _ => none

end ConfigFile

/-- Why the settings of a file are refused. -/
inductive ConfigFileError where
  | blankBuildConfiguration
  /-- A path is empty; `key` is its name. -/
  | emptyPath (key : String)
deriving DecidableEq, Repr

/-- The message of a refusal. -/
def ConfigFileError.message : ConfigFileError → String
  | blankBuildConfiguration => "build_configuration cannot be empty"
  | emptyPath key => key ++ " cannot be an empty path"

namespace ConfigFile

/-- The paths with their names. -/
def paths (c : ConfigFile) : List (String × Option Path) :=
  [("api", c.api), ("output", c.output), ("doc_root", c.docRoot)]

/-- A file may not set a blank build configuration or an empty path. -/
def check (c : ConfigFile) : Except ConfigFileError Unit :=
  if c.buildConfiguration.any fun s => Text.isBlankText s.toList then
    .error .blankBuildConfiguration
  else
    match c.paths.find? fun p => p.2 == some ⟨""⟩ with
    | some (key, _) => .error (.emptyPath key)
    | none => .ok ()

end ConfigFile

/-- What the command line sets. -/
structure Overrides where
  api : Option Path := none
  output : Option Path := none
  docRoot : Option Path := none
  buildConfiguration : Option String := none
  /-- One file per type is wanted. -/
  perType : Bool := false
deriving DecidableEq, Repr, Inhabited

/-- The settings of one invocation. -/
structure RunSettings where
  api : Path
  output : Path
  docRoot : Option Path
  generator : GeneratorConfig
deriving DecidableEq, Repr, Inhabited

/-- The configuration file that counts if none is named. -/
def defaultConfigFile : Path := ⟨"gdswift.toml"⟩

/-- The description that is read if none is named. -/
def defaultApiFile : Path := ⟨"extension_api.json"⟩

/-- The directory that is written to if none is named. -/
def defaultOutputDirectory : Path := ⟨"Generated"⟩

/-- The settings that a file and the command line make together. -/
def ConfigFile.resolve (c : ConfigFile) (o : Overrides) : RunSettings where
  api := (o.api.or c.api).getD defaultApiFile
  output := (o.output.or c.output).getD defaultOutputDirectory
  docRoot := o.docRoot.or c.docRoot
  generator := {
    buildConfiguration :=
      (o.buildConfiguration.or c.buildConfiguration).getD defaultBuildConfiguration
    mode := if o.perType then .perType else c.mode.getD .singleFile }

end SwiftDecls
