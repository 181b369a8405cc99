import SwiftDecls.Proofs.Classification
import SwiftDecls.Proofs.Generation.Files
import SwiftDecls.Proofs.Naming

/-!
# What an edit changes

An edit replaces one built-in type, one class, or the documentation of one name, and keeps the
name (`Edit`). The declaration of another type may depend on the edited one through what all types
share: the classification, the table of constructors and the index of enums. It does not, because
a declaration looks up its own class and size, and of other types only whether they are built-in
types, which their names decide (`Builtin.steps_congr`).

So the types before and after an edit are declared one to one, under the same names and, away from
the edited name, by the same steps (`Edit.alike_typeSteps`); and an edit stays in the file of the
edited type (`generate_edit_local`).
-/

set_option autoImplicit false

namespace SwiftDecls

open Text Source Naming

/-- One built-in type, one class or the documentation of one name is replaced. The groups are
those in which types with the name may change. -/
inductive Edit (name : String) : List Group → Api → DocSource → Api → DocSource → Prop
  | builtin (api : Api) (docs : DocSource) (before after : List Builtin) (old new : Builtin)
      (hold : old.name = name) (hnew : new.name = name) :
      Edit name [.builtins] { api with builtins := before ++ old :: after } docs
        { api with builtins := before ++ new :: after } docs
  | engineClass (api : Api) (docs : DocSource) (before after : List EngineClass)
      (old new : EngineClass) (hold : old.name = name) (hnew : new.name = name) :
      Edit name [.classes] { api with classes := before ++ old :: after } docs
        { api with classes := before ++ new :: after } docs
  | documentation (api : Api) (docs docs' : DocSource) (word : IsWord name)
      (h : ∀ n, n ≠ name → docs n = docs' n) : Edit name [.builtins, .classes] api docs api docs'

/-- The path is that of a declared type with the name in one of the groups. -/
def Api.HoldsType (api : Api) (groups : List Group) (name : String) (path : Path) : Prop :=
  ∃ g ∈ groups, name ∈ api.groupNames g ∧ path.Same (g.typeFile name)

/-- Two outputs have the same paths and the same core file, and differ at most in the texts under
some paths. -/
structure SameOutside (changed : Path → Prop) (o o' : Output) : Prop where
  paths : o.paths = o'.paths
  core : ∃ text, o.get? coreFile = some text ∧ o'.get? coreFile = some text
  texts : ∀ path, ¬ changed path → o.get? path = o'.get? path

/-! ## Declarations -/

/-- A declaration depends on its own class and size and on which names are built-in types. -/
theorem Builtin.steps_congr {c c' : Classification} (b : Builtin) (doc : Option ClassDoc)
    (hclass : c.classOf? b.name = c'.classOf? b.name)
    (hsize : c.sizeOf? b.name = c'.sizeOf? b.name) (hbuiltin : c.isBuiltin = c'.isBuiltin) :
    b.steps c doc = b.steps c' doc := by
  have hdeclared : b.declaredClass c = b.declaredClass c' := by
    rw [declaredClass, declaredClass, hclass]
  have hfield : fieldLine c = fieldLine c' := by
    funext field
    rw [fieldLine, fieldLine, hbuiltin]
  simp only [steps, declHeader, sizeSteps, storageSteps, hdeclared, hsize, hfield]

/-- Two types are declared under one name and, unless they have the edited name, alike. -/
structure Alike (name : String) (groups : List Group) (t t' : TypeSteps) : Prop where
  group : t.group = t'.group
  typeName : t.typeName = t'.typeName
  steps : ¬ (t.group ∈ groups ∧ t.typeName = name) → t.steps = t'.steps

namespace Alike

variable {name : String} {groups : List Group}

theorem refl (t : TypeSteps) : Alike name groups t t := ⟨rfl, rfl, fun _ => rfl⟩

theorem refl_list (ts : List TypeSteps) : List.Forall₂ (Alike name groups) ts ts :=
  List.forall₂_same.2 fun t _ => refl t

/-- One list of types, declared in two ways. -/
theorem map {α : Type} {f f' : α → TypeSteps} (h : ∀ a, Alike name groups (f a) (f' a))
    (as : List α) : List.Forall₂ (Alike name groups) (as.map f) (as.map f') :=
  List.rel_map (fun a _ haa' => haa' ▸ h a) (List.forall₂_same.2 fun _ _ => rfl)

end Alike

/-- What a replaced entry is related to, the entries before and after it being kept. -/
theorem forall₂_replace {α : Type} {R : α → α → Prop} (hrefl : ∀ a, R a a) {old new : α}
    (h : R old new) (before after : List α) :
    List.Forall₂ R (before ++ old :: after) (before ++ new :: after) := by
  have hsame : ∀ as : List α, List.Forall₂ R as as := fun as =>
    List.forall₂_same.2 fun a _ => hrefl a
  exact List.rel_append (hsame before) (.cons h (hsame after))

theorem map_eq_map_of_forall₂ {α β : Type} {R : α → α → Prop} {as as' : List α}
    (h : List.Forall₂ R as as') {f : α → β} (hf : ∀ a a', R a a' → f a = f a') :
    as.map f = as'.map f := by
  rw [← List.forall₂_eq_eq_eq]
  exact List.rel_map hf h

namespace Edit

variable {name : String} {groups : List Group} {api api' : Api} {docs docs' : DocSource}

/-- No edit reaches the core file: it shows the names of classes but nothing else of them, and the
documentation of global enums has a name that is no word. -/
theorem coreText_eq (edit : Edit name groups api docs api' docs') :
    api.coreText docs = api'.coreText docs' := by
  cases edit with
  | builtin => rfl
  | engineClass api docs before after old new hold hnew =>
    simp only [Api.coreText, Api.referenceTypes, List.map_append, List.map_cons, hold, hnew]
  | documentation api docs docs' word h =>
    have hglobal : globalScope ≠ name := by
      rintro rfl
      revert word
      decide
    have hdoc : docs.doc? globalScope = docs'.doc? globalScope := by
      rw [DocSource.doc?, DocSource.doc?, h _ hglobal]
    simp only [Api.coreText, Api.globalEnumScope, hdoc]

theorem alike_builtins {builtins builtins' : List Builtin}
    (h : List.Forall₂ (fun b b' => b.name = b'.name ∧ (b.name ≠ name → b = b')) builtins builtins')
    (tables : List SizeTable) (buildConfiguration : String) (docs : DocSource) :
    List.Forall₂ (Alike name [.builtins])
      ((builtins.filter (isDeclared ·.name)).map
        (·.typeSteps (.ofBuiltins builtins tables buildConfiguration) docs))
      ((builtins'.filter (isDeclared ·.name)).map
        (·.typeSteps (.ofBuiltins builtins' tables buildConfiguration) docs)) := by
  have hnames : builtins.map (·.name) = builtins'.map (·.name) :=
    map_eq_map_of_forall₂ h fun _ _ hb => hb.1
  have hclass : ∀ n, n ≠ name →
      (Classification.ofBuiltins builtins tables buildConfiguration).classOf? n =
        (Classification.ofBuiltins builtins' tables buildConfiguration).classOf? n := by
    intro n hn
    refine Classification.classOf?_ofBuiltins_congr tables buildConfiguration (h.imp ?_)
    exact fun b b' hb => ⟨hb.1, fun hname => hb.2 (hname ▸ hn)⟩
  have hdeclared := List.rel_filter
    (p := fun b : Builtin => isDeclared b.name) (q := fun b : Builtin => isDeclared b.name)
    (fun b b' hb => by simp only [hb.1]) h
  refine List.rel_map (fun b b' hb => ?_) hdeclared
  refine ⟨rfl, hb.1, fun hother => ?_⟩
  have hname : b.name ≠ name := fun hname => hother ⟨List.mem_singleton.2 rfl, hname⟩
  obtain rfl : b = b' := hb.2 hname
  exact b.steps_congr _ (hclass _ hname) rfl
    (Classification.isBuiltin_ofBuiltins_congr tables buildConfiguration hnames)

/-- **The declarations before and after an edit** correspond, and are equal away from the edited
name. -/
theorem alike_typeSteps (edit : Edit name groups api docs api' docs')
    (buildConfiguration : String) :
    List.Forall₂ (Alike name groups) (api.typeSteps docs (api.classification buildConfiguration))
      (api'.typeSteps docs' (api'.classification buildConfiguration)) := by
  cases edit with
  | builtin api docs before after old new hold hnew =>
    refine List.rel_append (alike_builtins ?_ _ _ _) (Alike.refl_list _)
    refine forall₂_replace (fun _ => ⟨rfl, fun _ => rfl⟩) ?_ before after
    exact ⟨hold.trans hnew.symm, fun hne => absurd hold hne⟩
  | engineClass api docs before after old new hold hnew =>
    refine List.rel_append (Alike.refl_list _) ?_
    rw [Api.groupSteps, Api.groupSteps, List.map_append, List.map_append, List.map_cons,
      List.map_cons]
    refine forall₂_replace Alike.refl ?_ _ _
    exact ⟨rfl, hold.trans hnew.symm, fun hother => absurd ⟨List.mem_singleton.2 rfl, hold⟩ hother⟩
  | documentation api docs docs' word h =>
    have hdoc : ∀ n, n ≠ name → docs.doc? n = docs'.doc? n := fun n hn => by
      rw [DocSource.doc?, DocSource.doc?, h n hn]
    refine List.rel_append ?_ ?_
    · rw [Api.groupSteps, Api.groupSteps]
      apply Alike.map
      intro b
      refine ⟨rfl, rfl, fun hother => ?_⟩
      have hname : b.name ≠ name := fun hname => hother ⟨List.mem_cons_self, hname⟩
      simp only [Builtin.typeSteps, hdoc _ hname]
    · rw [Api.groupSteps, Api.groupSteps]
      apply Alike.map
      intro e
      refine ⟨rfl, rfl, fun hother => ?_⟩
      have hname : e.name ≠ name := fun hname => hother ⟨.tail _ List.mem_cons_self, hname⟩
      simp only [EngineClass.typeSteps, hdoc _ hname]

end Edit

/-! ## Files -/

/-- Types that are declared alike are written alike. -/
theorem sameOutside_insertAll {name : String} {groups : List Group} {ts ts' : List TypeSteps}
    (h : List.Forall₂ (Alike name groups) ts ts') (core : String) :
    SameOutside
      (fun path => ∃ t ∈ ts, t.group ∈ groups ∧ t.typeName = name ∧ path.Same t.file.1)
      (({} : Output).insertAll (ts.map (·.file) ++ [(coreFile, core)]))
      (({} : Output).insertAll (ts'.map (·.file) ++ [(coreFile, core)])) := by
  have hpath : ∀ t t', Alike name groups t t' → t.file.1 = t'.file.1 := by
    intro t t' ht
    rw [TypeSteps.path_file, TypeSteps.path_file, ht.group, ht.typeName]
  have hcore : ∀ us : List TypeSteps, (({} : Output).insertAll
      (us.map (·.file) ++ [(coreFile, core)])).get? coreFile = some core := fun us =>
    Output.get?_insertAll_of_last fun f hf => absurd hf List.not_mem_nil
  constructor
  · refine Output.paths_insertAll_congr {} ?_
    rw [List.map_append, List.map_append, List.map_map, List.map_map]
    congr 1
    exact map_eq_map_of_forall₂ h hpath
  · exact ⟨core, hcore ts, hcore ts'⟩
  · intro path hpathNot
    refine Output.get?_insertAll_congr (List.rel_append ?_ (.cons ⟨rfl, fun _ => rfl⟩ .nil)) rfl
    have hmem := (List.forall₂_and_left ts ts').2 ⟨fun _ ht => ht, h⟩
    refine List.rel_map ?_ hmem
    rintro t t' ⟨ht, halike⟩
    refine ⟨hpath t t' halike, fun hsame => ?_⟩
    have hsteps := halike.steps fun hedited =>
      hpathNot ⟨t, ht, hedited.1, hedited.2, Eq.symm hsame⟩
    simp only [TypeSteps.file, TypeSteps.lines, hsteps]

theorem SameOutside.mono {changed changed' : Path → Prop} {o o' : Output}
    (h : SameOutside changed o o') (himp : ∀ path, changed path → changed' path) :
    SameOutside changed' o o' :=
  ⟨h.paths, h.core, fun path hpath => h.texts path fun hc => hpath (himp path hc)⟩

/-- **An edit stays in one file.** Two runs with a file for each type that differ in one built-in
type, one class or the documentation of one name have the same paths, and only the files of
declared types with that name, in the groups that the edit concerns, may differ in their texts.
The core file with its table of constructors never does. -/
theorem generate_edit_local {name : String} {groups : List Group} {api api' : Api}
    {docs docs' : DocSource} (edit : Edit name groups api docs api' docs')
    (buildConfiguration : String) (valid : isBlankText buildConfiguration.toList = false) :
    ∃ run run', generate api docs ⟨buildConfiguration, .perType⟩ = .ok run ∧
      generate api' docs' ⟨buildConfiguration, .perType⟩ = .ok run' ∧
      SameOutside (api.HoldsType groups name) run.output run'.output := by
  refine ⟨_, _, generate_eq_ok (check_of_not_blank valid _) api docs,
    generate_eq_ok (check_of_not_blank valid _) api' docs', ?_⟩
  simp only [writtenFiles_perType, ← edit.coreText_eq]
  refine (sameOutside_insertAll (edit.alike_typeSteps buildConfiguration) _).mono ?_
  rintro path ⟨t, ht, hgroup, rfl, hsame⟩
  rw [TypeSteps.path_file] at hsame
  exact ⟨t.group, hgroup, Api.mem_groupNames_of_mem_typeSteps ht, hsame⟩

/-- A built-in type gets a field and so becomes a value, a class gets another base and an enum,
and a name gets documentation. -/
theorem generate_edit_local_of_three :
    let vector : Builtin := { name := "Vector2" }
    let vector' : Builtin := { name := "Vector2", fields := some [⟨"x", "float"⟩] }
    let rect : Builtin := { name := "Rect2", fields := some [⟨"position", "Vector2"⟩] }
    let node : EngineClass := { name := "Node" }
    let node' : EngineClass := {
      name := "Node"
      inherits := some "Object"
      enums := some [{ name := "Mode", members := [⟨"MODE_ON", 1⟩] }] }
    let api : Api := ⟨none, [], [], [rect, vector], [node, { name := "Object" }]⟩
    let docs : DocSource := .ofList [{ name := "Node", brief := some "A node." }]
    isBlankText "float_64".toList = false ∧
    (∃ run run', generate api .empty ⟨"float_64", .perType⟩ = .ok run ∧
      generate { api with builtins := [rect, vector'] } .empty ⟨"float_64", .perType⟩ = .ok run' ∧
      SameOutside (api.HoldsType [.builtins] "Vector2") run.output run'.output) ∧
    (∃ run run', generate api .empty ⟨"float_64", .perType⟩ = .ok run ∧
      generate { api with classes := [node', { name := "Object" }] } .empty
        ⟨"float_64", .perType⟩ = .ok run' ∧
      SameOutside (api.HoldsType [.classes] "Node") run.output run'.output) ∧
    (∃ run run', generate api .empty ⟨"float_64", .perType⟩ = .ok run ∧
      generate api docs ⟨"float_64", .perType⟩ = .ok run' ∧
      SameOutside (api.HoldsType [.builtins, .classes] "Node") run.output run'.output) := by
  intro vector vector' rect node node' api docs
  have valid : isBlankText "float_64".toList = false := by decide
  have hdocs : ∀ n, n ≠ "Node" → DocSource.empty n = docs n := by
    intro n hn
    simp [docs, DocSource.empty, DocSource.ofList, hn.symm]
  refine ⟨valid, ?_, ?_, ?_⟩
  · exact generate_edit_local (.builtin api .empty [rect] [] vector vector' rfl rfl) _ valid
  · exact generate_edit_local (.engineClass api .empty [] [{ name := "Object" }] node node' rfl rfl)
      _ valid
  · exact generate_edit_local (.documentation api .empty docs (by decide) hdocs) _ valid

end SwiftDecls
