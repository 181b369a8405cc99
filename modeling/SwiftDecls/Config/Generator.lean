import SwiftDecls.Classification
import SwiftDecls.Json.Decode
import SwiftDecls.Output
import SwiftDecls.Text.Blank

/-!
# The settings of a generation run

A run has two settings: the build configuration whose sizes it records, and how it spreads
declarations over files. Both have defaults, also where the settings are written as JSON.
-/

set_option autoImplicit false

namespace SwiftDecls

/-- The settings of a run. -/
structure GeneratorConfig where
  buildConfiguration : String := defaultBuildConfiguration
  mode : OutputMode := .singleFile
deriving DecidableEq, Repr, Inhabited

/-- Why a run is refused. -/
inductive ConfigError where
  | blankBuildConfiguration
deriving DecidableEq, Repr

/-- The message of a refusal. -/
def ConfigError.message : ConfigError → String
  | blankBuildConfiguration =>
    "configuration error: build_configuration must not be empty"

/-- A run needs a build configuration that is not blank. -/
def GeneratorConfig.check (config : GeneratorConfig) : Except ConfigError Unit :=
  if Text.isBlankText config.buildConfiguration.toList then .error .blankBuildConfiguration
  else .ok ()

/-- The names of the output modes. -/
def OutputMode.names : List (String × OutputMode) :=
  [("single-file", .singleFile), ("per-type", .perType)]

open Json FieldRule in
/-- How the settings are written. -/
def GeneratorConfig.rule : RecordRule GeneratorConfig where
  name := "GeneratorConfig"
  fields := [
    may "build_configuration" Decoder.string fun s c => { c with buildConfiguration := s },
    may "output_mode" (Decoder.variant OutputMode.names) fun m c => { c with mode := m }]
  start := {}

/-- Decodes the settings. -/
def GeneratorConfig.ofJson (text : String) : Except Json.DecodeError GeneratorConfig :=
  Json.decode rule.decoder text

end SwiftDecls
