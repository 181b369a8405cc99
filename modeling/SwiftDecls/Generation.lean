import SwiftDecls.Config.Generator
import SwiftDecls.Declarations.Builtins
import SwiftDecls.Declarations.Classes
import SwiftDecls.Declarations.Constructors
import SwiftDecls.Output
import SwiftDecls.Warning

/-!
# A generation run

From a description, a source of documentation and a configuration a run makes the output, the
index of enums, the registered classes, the classification of built-in types, and its warnings
in the order in which it meets their causes. It fails only if the configuration names no build
configuration.
-/

set_option autoImplicit false

namespace SwiftDecls

open Source

/-- What a run makes. -/
structure Generation where
  output : Output
  enums : EnumIndex
  referenceTypes : ReferenceTypes
  classification : Classification
  warnings : List Warning

namespace Api

/-- The built-in types that are declared. -/
def declaredBuiltins (api : Api) : List Builtin := api.builtins.filter (isDeclared ·.name)

/-- The classification of the built-in types. -/
def classification (api : Api) (buildConfiguration : String) : Classification :=
  .ofBuiltins api.builtins api.sizeTables buildConfiguration

/-- The scope of the global enums. -/
def globalEnumScope (docs : DocSource) : EnumScope :=
  .globals (((docs.doc? globalScope).map (·.constants)).getD [])

/-- The index of all enums. -/
def enumIndex (api : Api) : EnumIndex :=
  (∅ : EnumIndex).insertAll ((EnumScope.globals []).indexEntries api.globalEnums ++
    api.declaredBuiltins.flatMap Builtin.indexEntries ++
    api.classes.flatMap EngineClass.indexEntries)

/-- The registered classes. -/
def referenceTypes (api : Api) : ReferenceTypes :=
  ReferenceTypes.registerAll ∅ (api.classes.map (·.name))

/-- The text of the core file: the global enums and the table of constructors. -/
def coreText (api : Api) (docs : DocSource) : String :=
  (Writer.run ⟨fileHeader, 0⟩
    (enumSteps (globalEnumScope docs) api.globalEnums ++ api.referenceTypes.steps)).text

/-- The declarations of all types in the order of the description. -/
def declarations (api : Api) (docs : DocSource) (c : Classification) : List Declaration :=
  (api.declaredBuiltins.map fun b =>
    ⟨.builtins, b.name, render 0 (b.steps c (docs.doc? b.name))⟩) ++
  api.classes.map fun e => ⟨.classes, e.name, render 0 (e.steps (docs.doc? e.name))⟩

end Api

/-- The warning about a declaration without a size. -/
def sizeWarnings (c : Classification) (name : String) : List Warning :=
  match c.sizeOf? name with
  | some _ => []
  | none => [.unknownSize name]

/-- The warning about a build configuration without a size table. -/
def buildConfigurationWarnings (tables : List SizeTable) (buildConfiguration : String) :
    List Warning :=
  match sizesFor? tables buildConfiguration with
  | some _ => []
  | none => [.unknownBuildConfiguration buildConfiguration]

/-- The warnings of a run in order. -/
def Api.warnings (api : Api) (docs : DocSource) (buildConfiguration : String) : List Warning :=
  let c := api.classification buildConfiguration
  buildConfigurationWarnings api.sizeTables buildConfiguration ++ docs.warnings globalScope ++
    (api.declaredBuiltins.flatMap fun b => docs.warnings b.name ++ sizeWarnings c b.name) ++
    api.classes.flatMap fun e => docs.warnings e.name

/-- The names whose documentation a run asks for, in order. -/
def Api.documentedNames (api : Api) : List String :=
  globalScope :: api.declaredBuiltins.map (·.name) ++ api.classes.map (·.name)

/-- Makes the declarations of a description. -/
def generate (api : Api) (docs : DocSource) (config : GeneratorConfig) :
    Except ConfigError Generation := do
  config.check
  let c := api.classification config.buildConfiguration
  return {
    output := partition config.mode (api.coreText docs) (api.declarations docs c)
    enums := api.enumIndex
    referenceTypes := api.referenceTypes
    classification := c
    warnings := api.warnings docs config.buildConfiguration }

end SwiftDecls
