import SwiftDecls.Proofs.Api.Integers
import SwiftDecls.Proofs.Api.Missing
import SwiftDecls.Proofs.Classification
import SwiftDecls.Proofs.Declarations.Integers
import SwiftDecls.Proofs.Generation.Files

/-!
# Integers from a description to declarations

An integer that is in range is read as it is, and a run writes the digits that were read: the value
of an enum member in the line of that member, and a size that is recorded for a built-in type in
the line for it. One that is not in range is refused (`ofJson_keepsIntegers`).

Where in what a run writes the digits are is said for all integers at once. The texts for any two
of them are the same up to the line that has the digits.
-/

set_option autoImplicit false

namespace SwiftDecls

open Source Json Text

variable {api : Api} {docs : DocSource} {config : GeneratorConfig}

/-- A text that a run makes its output of: the core text or that of a declaration, each in its file
(`holdsDeclarations_of_generate`). -/
def Api.Makes (api : Api) (docs : DocSource) (config : GeneratorConfig) (text : String) : Prop :=
  ∃ run, generate api docs config = .ok run ∧
    run.output = partition config.mode (api.coreText docs)
      (api.declarations docs run.classification) ∧
    (text = api.coreText docs ∨ ∃ d ∈ api.declarations docs run.classification, d.text = text)

section Makes

variable (a : Api) (hcheck : config.check = .ok ())

include hcheck

theorem makes_core : a.Makes docs config (a.coreText docs) := by
  have hrun := generate_eq_ok hcheck a docs
  exact ⟨_, hrun, output_eq_partition hrun, .inl rfl⟩

theorem makes_declaration {d : Declaration}
    (hd : d ∈ a.declarations docs (a.classification config.buildConfiguration)) :
    a.Makes docs config d.text := by
  have hrun := generate_eq_ok hcheck a docs
  exact ⟨_, hrun, output_eq_partition hrun, .inr ⟨d, hd, rfl⟩⟩

theorem makes_builtin {b : Builtin} (hb : b ∈ a.builtins) (hdeclared : isDeclared b.name = true) :
    a.Makes docs config
      (render 0 (b.steps (a.classification config.buildConfiguration) (docs.doc? b.name))) := by
  apply makes_declaration a hcheck (d := ⟨.builtins, b.name, _⟩)
  apply List.mem_append_left
  exact List.mem_map_of_mem (List.mem_filter.2 ⟨hb, hdeclared⟩)

theorem makes_class {c : EngineClass} (hc : c ∈ a.classes) :
    a.Makes docs config (render 0 (c.steps (docs.doc? c.name))) := by
  apply makes_declaration a hcheck (d := ⟨.classes, c.name, _⟩)
  apply List.mem_append_right
  exact List.mem_map_of_mem hc

end Makes

/-! ## Values of enum members -/

theorem apply_mem_modify {α : Type} {as : List α} {i : Nat} {a : α} (h : as[i]? = some a)
    (f : α → α) : f a ∈ as.modify i f := by
  obtain ⟨before, after, -, hmodify⟩ := exists_modify_eq h
  rw [hmodify]
  exact List.mem_append_right _ List.mem_cons_self

/-- The enum is declared: those in built-in types that Swift has already are not. -/
def Part.IsDeclared : Part .enum → Api → Prop
  | enumInBuiltin owner _, api => ∃ b : Builtin, owner.get? api = some b ∧ isDeclared b.name = true
  | globalEnum _, _ | enumInClass _ _, _ => True

/-- The enums of a built-in type do not change how types are classified. -/
theorem classification_modify_enums (api : Api) (k : Nat)
    (g : Builtin → Option (List EnumDefinition)) (buildConfiguration : String) :
    Api.classification { api with builtins := api.builtins.modify k fun b =>
      { b with enums := g b } } buildConfiguration = api.classification buildConfiguration := by
  have hmap : (api.builtins.modify k fun b => { b with enums := g b }).map
      (fun b => (b.name, b.typeClass)) = api.builtins.map fun b => (b.name, b.typeClass) := by
    apply List.ext_getElem?
    intro i
    rw [List.getElem?_map, List.getElem?_map, List.getElem?_modify]
    cases api.builtins[i]? with
    | none => rfl
    | some b => split <;> rfl
  rw [Api.classification, Api.classification, Classification.ofBuiltins, Classification.ofBuiltins,
    hmap]

/-- **The value of a member is written in the line of the member.** -/
theorem exists_carryLine_value {owner : Part .enum} {i : Nat} {e : EnumDefinition} {m : EnumMember}
    (he : owner.get? api = some e) (hm : e.members[i]? = some m) (hwrites : e.Writes m)
    (hdeclared : owner.IsDeclared api) (hcheck : config.check = .ok ()) :
    ∃ live text, CarryLine (e.valueLine m live) text ∧ ∀ n,
      ((Part.enumMember owner i).modify (IntegerField.value.put n) api).Makes docs config
        (text n) := by
  cases owner with
  | globalEnum j =>
    obtain ⟨live, h⟩ := carryLine_enumSteps (Api.globalEnumScope docs) he hm hwrites 0
    refine ⟨live, _, (h.around fileHeader fun _ => render 0 api.referenceTypes.steps), fun n => ?_⟩
    have hcore : ∀ a : Api, a.coreText docs = fileHeader ++
        render 0 (enumSteps (Api.globalEnumScope docs) a.globalEnums) ++
          render 0 a.referenceTypes.steps := by
      intro a
      rw [Api.coreText, Writer.text_run, ← render_eq_unlines, render_append, String.append_assoc]
    have hmakes : Api.Makes _ docs config _ := makes_core
      ((Part.enumMember (.globalEnum j) i).modify (IntegerField.value.put n) api) hcheck
    rwa [hcore] at hmakes
  | enumInBuiltin owner j =>
    cases owner with
    | builtin k =>
      obtain ⟨b, hb, he⟩ := Option.bind_eq_some_iff.1 he
      obtain ⟨enums, henums, he⟩ := Option.bind_eq_some_iff.1 he
      obtain ⟨b', hb', hname⟩ := hdeclared
      obtain rfl : b = b' := Option.some.inj (hb.symm.trans hb')
      obtain ⟨live, h⟩ := carryLine_builtin (api.classification config.buildConfiguration)
        (docs.doc? b.name) henums he hm hwrites
      refine ⟨live, _, h, fun n => ?_⟩
      let g (b : Builtin) : Builtin :=
        { b with enums := b.enums.map (·.modify j (·.withValue i n)) }
      have hmodify : (Part.enumMember (.enumInBuiltin (.builtin k) j) i).modify
          (IntegerField.value.put n) api = { api with builtins := api.builtins.modify k g } := rfl
      have hclassification := classification_modify_enums api k
        (fun b => b.enums.map (·.modify j (·.withValue i n))) config.buildConfiguration
      rw [hmodify, ← hclassification]
      exact makes_builtin { api with builtins := api.builtins.modify k g } hcheck
        (apply_mem_modify hb g) hname
  | enumInClass owner j =>
    cases owner with
    | engineClass k =>
      obtain ⟨c, hc, he⟩ := Option.bind_eq_some_iff.1 he
      obtain ⟨enums, henums, he⟩ := Option.bind_eq_some_iff.1 he
      obtain ⟨live, h⟩ := carryLine_class (docs.doc? c.name) henums he hm hwrites
      refine ⟨live, _, h, fun n => ?_⟩
      let g (c : EngineClass) : EngineClass :=
        { c with enums := c.enums.map (·.modify j (·.withValue i n)) }
      have hmodify : (Part.enumMember (.enumInClass (.engineClass k) j) i).modify
          (IntegerField.value.put n) api = { api with classes := api.classes.modify k g } := rfl
      rw [hmodify]
      exact makes_class { api with classes := api.classes.modify k g } hcheck
        (apply_mem_modify hc g)

/-! ## Sizes -/

/-- The entry that a run takes the size of a name from: the last one with the name in the first
table of the build configuration. -/
inductive HoldsSize (api : Api) (buildConfiguration name : String) : Part .typeSize → Prop
  | entry {tables tables' : List SizeTable} {table : SizeTable} {sizes sizes' : List TypeSize}
      {size : TypeSize} (inTables : api.sizeTables = tables ++ table :: tables')
      (first : table.buildConfiguration = buildConfiguration ∧
        ∀ t ∈ tables, t.buildConfiguration ≠ buildConfiguration)
      (inSizes : table.sizes = sizes ++ size :: sizes')
      (last : size.name = name ∧ ∀ s ∈ sizes', s.name ≠ name) :
      HoldsSize api buildConfiguration name (.typeSize (.sizeTable tables.length) sizes.length)

/-- A size that is recorded for a name is the size of the name. -/
theorem sizeOf?_of_holdsSize {buildConfiguration name : String} {part : Part .typeSize}
    (h : HoldsSize api buildConfiguration name part) (n : Nat) :
    (Api.classification (part.modify (IntegerField.size.put n) api)
      buildConfiguration).sizeOf? name = some n := by
  obtain @⟨tables, tables', table, sizes, sizes', size, inTables, first, inSizes, last⟩ := h
  let table' : SizeTable := { table with sizes := sizes ++ { size with size := n } :: sizes' }
  have htables : Api.sizeTables ((Part.typeSize (.sizeTable tables.length) sizes.length).modify
      (IntegerField.size.put n) api) = tables ++ table' :: tables' := by
    show api.sizeTables.modify tables.length (fun t : SizeTable =>
      { t with sizes := t.sizes.modify sizes.length fun s => { s with size := n } }) = _
    rw [inTables, modify_length_append, inSizes, modify_length_append]
  rw [Api.classification, Classification.sizeOf?_eq_some_iff, htables]
  exact ⟨table', ⟨tables, tables', rfl, first⟩, { size with size := n },
    ⟨sizes, sizes', rfl, last⟩, rfl⟩

/-- **A size is written in the line for it of a type that it is recorded for.** -/
theorem exists_carryLine_size {b : Builtin} (hb : b ∈ api.builtins)
    (hdeclared : isDeclared b.name = true) {part : Part .typeSize}
    (hholds : HoldsSize api config.buildConfiguration b.name part)
    (hcheck : config.check = .ok ()) :
    ∃ text, CarryLine (fun n : Nat => "public static let nativeSize = " ++ decimal n) text ∧
      ∀ n : Nat, Api.Makes (part.modify (IntegerField.size.put n) api) docs config (text n) := by
  have hsize := sizeOf?_of_holdsSize hholds
  obtain @⟨tables, tables', table, sizes, sizes', size, inTables, first, inSizes, last⟩ := hholds
  have hclasses : ∀ n : Nat, (Api.classification ((Part.typeSize (.sizeTable tables.length)
      sizes.length).modify (IntegerField.size.put n) api) config.buildConfiguration).classes =
        (api.classification config.buildConfiguration).classes := fun _ => rfl
  refine ⟨_, carryLine_size (docs.doc? b.name) b hclasses hsize, fun n => ?_⟩
  apply makes_builtin _ hcheck ?_ hdeclared
  exact hb

/-! ## From text to text -/

/-- What becomes of an integer in a value that is read as a description. -/
structure KeepsIntegers (v : Value) (api : Api) : Prop where
  /-- It is read as it is if it is in range, and refused otherwise. -/
  read : ∀ (kind : PartKind) (part : Part kind) (field : IntegerField kind) (n : Int) v' text',
    At (Renumbered n) (part.path ++ [.member field.name]) apiShape v v' → Spells v' text' →
    (field.InRange n → Api.ofJson text' = .ok (part.modify (field.put n) api)) ∧
      (¬field.InRange n → ∃ err, Api.ofJson text' = .error err)
  /-- The value of a member that is written is in the line of the member. -/
  values : ∀ (owner : Part .enum) (i : Nat) (e : EnumDefinition) (m : EnumMember),
    owner.get? api = some e → e.members[i]? = some m → e.Writes m → owner.IsDeclared api →
    ∀ (docs : DocSource) (config : GeneratorConfig), config.check = .ok () →
      ∃ live text, CarryLine (e.valueLine m live) text ∧ ∀ n, Api.Makes
        ((Part.enumMember owner i).modify (IntegerField.value.put n) api) docs config (text n)
  /-- A size that is recorded for a type that is declared is in the line for it. -/
  sizes : ∀ (part : Part .typeSize) (b : Builtin), b ∈ api.builtins → isDeclared b.name = true →
    ∀ (docs : DocSource) (config : GeneratorConfig),
      HoldsSize api config.buildConfiguration b.name part → config.check = .ok () →
      ∃ text, CarryLine (fun n : Nat => "public static let nativeSize = " ++ decimal n) text ∧
        ∀ n : Nat, Api.Makes (part.modify (IntegerField.size.put n) api) docs config (text n)

/-- **Integers come from a description to declarations exactly, or the description is refused.** -/
theorem ofJson_keepsIntegers {text : String} {api : Api} (accepted : Api.ofJson text = .ok api) :
    (∃ v, Spells v text) ∧ ∀ v, Spells v text → KeepsIntegers v api := by
  obtain ⟨w, hw, hdecoded⟩ := ofJson_eq_ok_iff.1 accepted
  refine ⟨⟨w, hw⟩, fun v hv => ?_⟩
  obtain rfl : w = v := spells_unique hw hv
  constructor
  · intro kind part field n v' text' hat hv'
    exact ofJson_of_integer hdecoded part field hat hv'
  · intro owner i e m he hm hwrites hdeclared docs config hcheck
    exact exists_carryLine_value he hm hwrites hdeclared hcheck
  · intro part b hb hdeclared docs config hholds hcheck
    exact exists_carryLine_size hb hdeclared hholds hcheck

/-- The least value that a member can have is read and written, the one below it is refused. -/
theorem ofJson_keepsIntegers_of_class :
    let api (n : Int) : Api := ⟨none, [], [], [], [⟨"C", none, none, none,
      some [⟨"E", none, [⟨"A", n⟩]⟩]⟩]⟩
    Api.ofJson (classDescription "" ",\"value\":1") = .ok (api 1) ∧
      Api.ofJson (classDescription "" ",\"value\":-9223372036854775808") =
        .ok (api (-9223372036854775808)) ∧
      (∃ err, Api.ofJson (classDescription "" ",\"value\":-9223372036854775809") = .error err) ∧
      ∃ (live : Int → Bool) (text : Int → String), CarryLine (fun n =>
        (if live n then "" else "// ") ++ "case " ++ "a" ++ " = " ++ decimal n ++ " // " ++ "A")
          text ∧ ∀ n, (api n).Makes .empty {} (text n) := by
  intro api
  let member : Part .enumMember := .enumMember (.enumInClass (.engineClass 0) 0) 0
  let value (n : Int) : List (StringLiteral × Value) := [(⟨some "value"⟩, ofInteger n)]
  have hv : Spells (classValue [] (value 1)) (classDescription "" ",\"value\":1") :=
    spells_classDescription rfl rfl rfl (by decide +kernel)
  have hleast : Spells (classValue [] (value (-9223372036854775808)))
      (classDescription "" ",\"value\":-9223372036854775808") :=
    spells_classDescription rfl rfl rfl (by decide +kernel)
  have hbelow : Spells (classValue [] (value (-9223372036854775809)))
      (classDescription "" ",\"value\":-9223372036854775809") :=
    spells_classDescription rfl rfl rfl (by decide +kernel)
  have accepted : Api.ofJson (classDescription "" ",\"value\":1") = .ok (api 1) :=
    ofJson_eq_ok_iff.2 ⟨_, hv, rfl⟩
  have renumbered : ∀ n, At (Renumbered n) (member.path ++ [.member "value"]) apiShape
      (classValue [] (value 1)) (classValue [] (value n)) := fun n =>
    at_member (@At.entry _ _ _ ⟨"value", true, .plain⟩ [_] [] _ _ (.tail _ (.head _))
      (.here (.intro (Number.integerLiteral 1))))
  have hkeeps := (ofJson_keepsIntegers accepted).2 _ hv
  refine ⟨accepted, ?_, ?_, ?_⟩
  · exact (hkeeps.read .enumMember member .value _ _ _ (renumbered _) hleast).1 (by decide)
  · exact (hkeeps.read .enumMember member .value _ _ _ (renumbered _) hbelow).2 (by decide)
  · have hname : Naming.memberName "E" "A" = "a" := by decide +kernel
    obtain ⟨live, text, hline, hmakes⟩ := hkeeps.values (.enumInClass (.engineClass 0) 0) 0
      ⟨"E", none, [⟨"A", 1⟩]⟩ ⟨"A", 1⟩ rfl rfl (.inr (by decide)) trivial .empty {} (by decide)
    refine ⟨live, text, ?_, hmakes⟩
    rw [← hname]
    exact hline

end SwiftDecls
