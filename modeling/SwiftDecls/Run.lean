import SwiftDecls.Api.Decode
import SwiftDecls.Config.File
import SwiftDecls.Docs.Read
import SwiftDecls.Generation
import SwiftDecls.Host
import SwiftDecls.Summary
import SwiftDecls.Text.Quoted

/-!
# The two commands

Generating reads the settings, the description and the documentation, makes everything, and
only then writes. Checking reads the settings and the description and reports what is in it.
Either ends at the first failure.
-/

set_option autoImplicit false

namespace SwiftDecls

/-- Why a command fails. -/
inductive RunFailure where
  | unreadableConfig (path : Path)
  | malformedConfig
  | refusedConfig (error : ConfigFileError)
  | unreadableApi (path : Path)
  | malformedApi (path : Path) (error : Json.DecodeError)
  | refusedGeneration (error : ConfigError)
  /-- Something below the output directory cannot be written. -/
  | unwritten (output : Path) (place : Path)
deriving DecidableEq, Repr

/-- A path in a message. -/
def Path.quoted (p : Path) : String := Text.quoteText p.text

/-- The message of a failure. -/
def RunFailure.message : RunFailure → String
  | unreadableConfig path => "Failed to read config: " ++ path.quoted
  | malformedConfig => "Failed to parse config"
  | refusedConfig error => error.message
  | unreadableApi path | malformedApi path _ => "Failed to load API description: " ++ path.quoted
  | refusedGeneration _ => "Generation failed"
  | unwritten output _ => "Failed to write output to " ++ output.quoted

section

variable {m : Type → Type} [Monad m] [Host m]

/-- A part of a command, which may fail. -/
abbrev Run (m : Type → Type) : Type → Type := ExceptT RunFailure m

/-- An operation of the host. -/
def ask {α : Type} (x : m α) : Run m α := ExceptT.lift x

/-- Says something. -/
def tell (n : Notice) : Run m Unit := ask (Host.say n)

/-- Reports a line. -/
def report (text : String) : Run m Unit := tell (.line text)

/-- The file with the settings: the one that is named, or else the default one if it is there. -/
def configPath? (named : Option Path) : Run m (Option Path) := do
  match named with
  | some path => return some path
  | none => return if ← ask (Host.isFile defaultConfigFile) then some defaultConfigFile else none

/-- Reads the settings. -/
def loadConfig (named : Option Path) : Run m ConfigFile := do
  match ← configPath? named with
  | none => return {}
  | some path =>
    match ← ask (Host.readText path) with
    | .error _ => throw (.unreadableConfig path)
    | .ok text =>
      match ConfigFile.parse? text with
      | some config => return config
      | none => throw .malformedConfig

/-- Reads the settings, refuses what no command can use, and adds the command line's. -/
def loadSettings (named : Option Path) (overrides : Overrides) : Run m RunSettings := do
  let config ← loadConfig named
  match config.check with
  | .error e => throw (.refusedConfig e)
  | .ok () => return config.resolve overrides

/-- Reads the description. -/
def loadApi (path : Path) : Run m Api := do
  match ← ask (Host.readText path) with
  | .error _ => throw (.unreadableApi path)
  | .ok text =>
    match Api.ofJson text with
    | .error e => throw (.malformedApi path e)
    | .ok api => return api

/-- The file with the documentation of a name. -/
def docPath (root : Path) (name : String) : Path :=
  (root.join ⟨"classes"⟩).join ⟨name ++ ".xml"⟩

/-- Reads the documentation of a name, if there is any. -/
def loadDoc (root : Path) (name : String) : m (Except DocError (Option ClassDoc)) := do
  let path := docPath root name
  if ← Host.pathExists path then
    match ← Host.readText path with
    | .error failure => return .error (.unreadable failure)
    | .ok text => return (ClassDoc.read text).map some
  else return .ok none

/-- Reads the documentation of several names. -/
def loadDocs (root : Path) (names : List String) : m DocSource := do
  let found ← names.mapM fun name => return (name, ← loadDoc root name)
  return fun name => (found.lookup name).getD (.ok none)

/-- Reads the documentation that a description asks for. -/
def docsFor (root : Option Path) (api : Api) : Run m DocSource := do
  match root with
  | none => return .empty
  | some root =>
    if !(← ask (Host.isDirectory root)) then tell (.warning (.missingDocRoot root))
    ask (loadDocs root api.documentedNames)

/-- Writes a file and the directories that lead to it. It fails with the path that could not be
made. -/
def writeFile (path : Path) (text : String) : ExceptT Path m Unit := do
  if let some parent := path.parent? then
    if !(← ExceptT.lift (Host.createDirectories parent)) then throw parent
  if !(← ExceptT.lift (Host.writeText path text)) then throw path

/-- Writes every file of an output below a directory, in order. -/
def Output.write (o : Output) (root : Path) : ExceptT Path m Unit :=
  o.toList.forM fun (path, text) => writeFile (root.join path) text

/-- Makes declarations and writes them. -/
def generateAndWrite (settings : RunSettings) : Run m Unit := do
  let api ← loadApi settings.api
  let docs ← docsFor settings.docRoot api
  match generate api docs settings.generator with
  | .error e => throw (.refusedGeneration e)
  | .ok generation =>
    generation.warnings.forM fun w => tell (.warning w)
    match ← ask (generation.output.write settings.output).run with
    | .ok () => return ()
    | .error place => throw (.unwritten settings.output place)

/-- The command that makes declarations. -/
def generateCommand (config : Option Path) (overrides : Overrides) : Run m Unit := do
  let settings ← loadSettings config overrides
  generateAndWrite settings
  report ("✓ Generated Swift declarations in " ++ settings.output.text)

/-- The report on a description. -/
def checkReport (api : Api) (buildConfiguration : String) : List String :=
  let s := Summary.ofApi api buildConfiguration
  (api.versionName.map fun name => "✓ Engine: " ++ name).toList ++ [
    "✓ Global enums: " ++ toString s.globalEnums,
    "✓ Built-in types: " ++ toString s.builtins ++ " (" ++ toString s.valueTypes ++ " value, " ++
      toString s.opaqueTypes ++ " opaque)",
    "✓ Classes: " ++ toString s.classes,
    if s.hasSizes then "✓ Build configuration: " ++ buildConfiguration
    else "! Build configuration " ++ buildConfiguration ++
      " not found, built-in sizes will be unset",
    "",
    "API description is valid!"]

/-- The command that checks a description. -/
def checkCommand (config api : Option Path) : Run m Unit := do
  let settings ← loadSettings config { api }
  report ("Checking API description: " ++ settings.api.text)
  let api ← loadApi settings.api
  (checkReport api settings.generator.buildConfiguration).forM report

end

end SwiftDecls
