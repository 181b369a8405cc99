import SwiftDecls.Classification

/-!
# Summary of a description

The counts that a check of a description reports for one build configuration.
-/

set_option autoImplicit false

namespace SwiftDecls

/-- Counts of what a description holds. -/
structure Summary where
  globalEnums : Nat
  builtins : Nat
  valueTypes : Nat
  opaqueTypes : Nat
  classes : Nat
  /-- There is a size table for the build configuration. -/
  hasSizes : Bool
deriving DecidableEq, Repr

/-- The summary of a description. -/
def Summary.ofApi (api : Api) (buildConfiguration : String) : Summary :=
  let c := Classification.ofBuiltins api.builtins api.sizeTables buildConfiguration
  let values := (api.builtins.filter fun b => c.isValue b.name).length
  { globalEnums := api.globalEnums.length
    builtins := api.builtins.length
    valueTypes := values
    opaqueTypes := api.builtins.length - values
    classes := api.classes.length
    hasSizes := (api.sizesFor? buildConfiguration).isSome }

end SwiftDecls
