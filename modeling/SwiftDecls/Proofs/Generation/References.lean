import SwiftDecls.Proofs.Declarations.Constructors
import SwiftDecls.Proofs.Declarations.Names
import SwiftDecls.Proofs.Generation.Files
import SwiftDecls.Proofs.TypeName

/-!
# References and declarations

What a run writes refers to types by name: fields to the types of their values, classes to
their bases, the table of constructors to all classes, and anything that maps a schema type to
enums. Names come from the headers of declarations (`Declares`), and the main statement,
`references_resolve`, is that every reference is the name that the header of its target has.

A dot in a reference separates the type from an enum that is nested in it. The parts are
renamed apart in a reference, as the two declarations are. A header has one name only
(`Declares.unique`), so the names below are determined by what is written.
-/

set_option autoImplicit false

namespace SwiftDecls

open Source Text Naming

/-- References to the enums nested in `owner`, which is declared as `ownerName` with `body`, are
`ownerName` and the names that the enums are declared under in `body`. -/
def NestedEnumsResolve (owner ownerName : String) (enums : List EnumDefinition)
    (body : List Step) : Prop :=
  List.Forall₂ (fun e block => OutsideVariant e.name →
    ∃ name members, block = (e.declKind.header name, members) ∧
      ∀ mark ∈ enumMarks, ∀ isBuiltin width,
        swiftType isBuiltin (mark ++ (owner ++ "." ++ e.name)) width = ownerName ++ "." ++ name)
    enums (blocks body)

/-- References to a global enum are the name that its block declares; for an enum inside `Variant`
the block is an extension, and they are `Variant` and the name that is declared there. -/
structure GlobalEnumResolves (e : EnumDefinition) (block : String × List Step) : Prop where
  outside : OutsideVariant e.name → ∃ name members, block = (e.declKind.header name, members) ∧
    ∀ mark ∈ enumMarks, ∀ isBuiltin width, swiftType isBuiltin (mark ++ e.name) width = name
  inside : ∀ inner, e.name = "Variant." ++ inner →
    ∃ body name members, block = ("extension Variant", body) ∧
      Declares body e.declKind name members ∧
      ∀ mark ∈ enumMarks, ∀ isBuiltin width,
        swiftType isBuiltin (mark ++ e.name) width = "Variant." ++ name

/-- References to a built-in type that is declared as `name` with `body`. -/
structure BuiltinResolves (c : Classification) (doc : Option ClassDoc) (b : Builtin)
    (name : String) (body : List Step) : Prop where
  declared : Declares (b.steps c doc) (b.declKind c) name body
  enums : NestedEnumsResolve b.name name b.enumList body
  /-- A value type has its fields in order, -/
  fields : b.declaredClass c = .value → ∀ fields, b.fields = some fields →
    fields.map (fun field => Step.line (Builtin.fieldLine c field)) <:+: body
  /-- and any field of the type `b` has the declared name of `b` as its type. -/
  uses : HasNoMark b.name → ∀ field : Field, field.type = b.name →
    Builtin.fieldLine c field = "public var " ++ escape (camel field.name) ++ ": " ++ name

/-- References to a class that is declared as `name` with `body`. -/
structure ClassResolves (api : Api) (docs : DocSource) (types : ReferenceTypes)
    (e : EngineClass) (name : String) (body : List Step) : Prop where
  declared : Declares (e.steps (docs.doc? e.name)) (.openClass e.base) name body
  enums : NestedEnumsResolve e.name name e.enumList body
  registered : types.get? e.name = some name
  /-- The table of constructors has the class under its declared name. -/
  constructed : ∃ entries, Step.indent entries ∈ api.coreSteps docs ∧
    Step.line (ReferenceTypes.entryLine e.name name) ∈ entries
  /-- The base is the name under which any class with the name of the parent is declared. -/
  base : ∀ parent : EngineClass, e.inherits = some parent.name → ∀ doc, ∃ parentBody,
    Declares (parent.steps doc) (.openClass parent.base) e.base parentBody

/-- The references of a run resolve to the declarations of its output. -/
structure ReferencesResolve (api : Api) (docs : DocSource) (mode : OutputMode)
    (run : Generation) : Prop where
  /-- The output has the declarations that the other fields speak of, each in its file
  (`holdsDeclarations_of_generate`). -/
  output : run.output = partition mode (fileHeader ++ render 0 (api.coreSteps docs))
    ((api.typeSteps docs run.classification).map (·.declaration))
  globalEnums : List.Forall₂ GlobalEnumResolves api.globalEnums (blocks (api.coreSteps docs))
  builtins : ∀ b ∈ api.declaredBuiltins, ∃ name body,
    BuiltinResolves run.classification (docs.doc? b.name) b name body
  classes : ∀ e ∈ api.classes, ∃ name body,
    ClassResolves api docs run.referenceTypes e name body

/-! ## Enums -/

theorem swiftTypeName_variant (inner : String) :
    swiftTypeName ("Variant." ++ inner) = "Variant." ++ swiftTypeName inner := by
  have hvariant : swiftTypeName "Variant" = "Variant" := by decide
  have hdot := swiftTypeName_append_dot "Variant" inner
  rwa [hvariant] at hdot

theorem nestedEnumsResolve_enumSteps (owner : String) (scope : EnumScope)
    (enums : List EnumDefinition) :
    NestedEnumsResolve owner (swiftTypeName owner) enums (enumSteps scope enums) := by
  refine forall₂_blocks_enumSteps scope enums fun e block hblock houtside => ?_
  obtain ⟨members, hmembers⟩ := block?_enumStep_of_outside scope houtside
  rw [hblock] at hmembers
  refine ⟨swiftTypeName e.name, members, Option.some.inj hmembers, ?_⟩
  intro mark hmark isBuiltin width
  rw [swiftType_of_mark hmark, swiftTypeName_append_dot]

theorem globalEnumResolves_enumStep (scope : EnumScope) {e : EnumDefinition}
    {block : String × List Step} (hblock : (enumStep scope e).block? = some block) :
    GlobalEnumResolves e block := by
  constructor
  · intro houtside
    obtain ⟨members, hmembers⟩ := block?_enumStep_of_outside scope houtside
    rw [hblock] at hmembers
    refine ⟨swiftTypeName e.name, members, Option.some.inj hmembers, ?_⟩
    intro mark hmark isBuiltin width
    rw [swiftType_of_mark hmark]
  · intro inner hname
    obtain ⟨members, hmembers⟩ := declares_enumBlock scope inner e
    rw [block?_enumStep_of_inside scope hname] at hblock
    refine ⟨_, swiftTypeName inner, members, (Option.some.inj hblock).symm, hmembers, ?_⟩
    intro mark hmark isBuiltin width
    rw [swiftType_of_mark hmark, hname, swiftTypeName_variant]

/-! ## Types -/

/-- The fields of a value type are written in order. -/
theorem fields_infix_body (c : Classification) (doc : Option ClassDoc) {b : Builtin}
    (hvalue : b.declaredClass c = .value) {fields : List Field} (hfields : b.fields = some fields) :
    fields.map (fun field => Step.line (Builtin.fieldLine c field)) <:+:
      b.sizeSteps c ++ b.storageSteps c ++ b.nestedSteps doc := by
  have hstorage : b.storageSteps c =
      [.blank] ++ fields.map fun field => Step.line (Builtin.fieldLine c field) := by
    rw [Builtin.storageSteps, hvalue, hfields]
    rfl
  rw [hstorage]
  exact ⟨b.sizeSteps c ++ [.blank], b.nestedSteps doc, by simp⟩

theorem builtinResolves (c : Classification) (doc : Option ClassDoc) (b : Builtin) :
    ∃ name body, BuiltinResolves c doc b name body := by
  refine ⟨swiftTypeName b.name, b.sizeSteps c ++ b.storageSteps c ++ b.nestedSteps doc, ?_⟩
  constructor
  · exact b.declares_steps c doc
  · rw [NestedEnumsResolve, b.blocks_body]
    exact nestedEnumsResolve_enumSteps b.name (b.scope doc) b.enumList
  · intro hvalue fields hfields
    exact fields_infix_body c doc hvalue hfields
  · intro hmark field htype
    rw [Builtin.fieldLine, htype, swiftType_of_noMark hmark]

theorem classResolves (api : Api) (docs : DocSource) {e : EngineClass} (he : e ∈ api.classes) :
    ∃ name body, ClassResolves api docs api.referenceTypes e name body := by
  let scope := e.scope (docs.doc? e.name)
  have hget : api.referenceTypes.get? e.name = some (swiftTypeName e.name) := by
    rw [Api.referenceTypes, ReferenceTypes.get?_registerAll, if_pos (List.mem_map_of_mem he)]
  refine ⟨swiftTypeName e.name, enumSteps scope e.enumList, ?_⟩
  constructor
  · exact e.declares_steps (docs.doc? e.name)
  · exact nestedEnumsResolve_enumSteps e.name scope e.enumList
  · exact hget
  · obtain ⟨entries, hentries, hline⟩ := ReferenceTypes.entryLine_mem_steps hget
    exact ⟨entries, List.mem_append_right _ hentries, hline⟩
  · intro parent hparent doc
    have hbase : e.base = swiftTypeName parent.name := by
      rw [EngineClass.base, hparent]
      rfl
    rw [hbase]
    exact ⟨_, parent.declares_steps doc⟩

/-- **References use the names that declarations use**, in every run. -/
theorem references_resolve (api : Api) (docs : DocSource) (config : GeneratorConfig)
    (run : Generation) (h : generate api docs config = .ok run) :
    ReferencesResolve api docs config.mode run := by
  obtain rfl := Except.ok.inj ((generate_eq_ok (check_of_generate_eq_ok h) api docs).symm.trans h)
  constructor
  · rw [render_eq_unlines, ← coreText_eq, ← Api.declarations_eq_map]
    exact output_eq_partition h
  · rw [Api.coreSteps, blocks_append, ReferenceTypes.blocks_steps, List.append_nil]
    exact forall₂_blocks_enumSteps _ _ fun e block hblock => globalEnumResolves_enumStep _ hblock
  · intro b _
    exact builtinResolves _ _ b
  · intro e he
    exact classResolves api docs he

/-- Renamed types with a nested enum that is renamed too, and an enum inside `Variant`. -/
theorem references_resolve_of_error :
    let api : Api := ⟨none, [], [{ name := "Error", members := [] },
        { name := "Variant.Type", members := [⟨"TYPE_NIL", 0⟩] }],
      [{ name := "Array" }, { name := "Pair", fields := some [⟨"first_item", "Array"⟩] }],
      [{ name := "Dictionary", inherits := some "Type",
         enums := some [{ name := "Error", bitfield := some true, members := [⟨"NONE", 1⟩] }] }]⟩
    ∃ run, generate api .empty { mode := .perType } = .ok run ∧
      ReferencesResolve api .empty .perType run := by
  intro api
  have hcheck : ({ mode := .perType } : GeneratorConfig).check = .ok () := by decide
  have hrun := generate_eq_ok hcheck api .empty
  exact ⟨_, hrun, references_resolve api .empty { mode := .perType } _ hrun⟩

end SwiftDecls
