import SwiftDecls.Proofs.Generation.Counts
import SwiftDecls.Proofs.Run.Documentation
import SwiftDecls.Proofs.Text.Flat

/-!
# The warnings of a run

Every warning of a run has its cause and every cause its warning, in the order in which the run
meets them (`WarnsInOrder`): a build configuration that no size table has, documentation on the
disk that fails to load, and a built-in type whose declaration does not record a size. Whether a
declaration records one is read off its text, whose first line in the braces has it
(`recordsSize_iff`).

Documentation that fails to load counts as none: the output depends on what documentation there is
(`writtenFiles_congr`), so a disk without the failing files leads to the same output. The main
statement is `run_warnings_accounted`.
-/

set_option autoImplicit false

namespace SwiftDecls

open Source Text

/-! ## Sizes in declarations -/

/-- A declaration opens with the line of its native size. -/
def RecordsSize (header text : String) : Prop :=
  ∃ size : Nat, (linesInside header text).head? =
    some ("    public static let nativeSize = " ++ toString size).toList

theorem Builtin.linesInside_steps (c : Classification) (doc : Option ClassDoc) (b : Builtin) :
    linesInside (b.declHeader c) (render 0 (b.steps c doc)) =
      stepLines 1 (b.sizeSteps c ++ b.storageSteps c ++ b.nestedSteps doc) ++
        ["\x7d".toList, [], []] := by
  rw [Builtin.steps, b.declHeader_eq]
  exact linesInside_header (b.onlyDocs_briefComment doc) _ _ _

/-- Without a size the body of a declaration opens with its storage, an empty line or its end. -/
theorem Builtin.head?_linesInside_of_unsized {c : Classification} {b : Builtin}
    (h : c.sizeOf? b.name = none) (doc : Option ClassDoc) :
    (linesInside (b.declHeader c) (render 0 (b.steps c doc))).head? ∈
      [some "    var handle: UnsafeMutableRawPointer?".toList, some [], some "\x7d".toList] := by
  rw [b.linesInside_steps, sizeSteps, h, List.nil_append, storageSteps, nestedSteps]
  cases b.declaredClass c with
  | opaqueHandle => exact List.mem_cons_self
  | value =>
    dsimp only
    cases b.fields with
    | some fields => simp [Step.lines]
    | none => cases b.enumList <;> simp [Step.lines]

/-- **A declaration shows the size of its type if it is known.** -/
theorem Builtin.recordsSize_iff (c : Classification) (doc : Option ClassDoc) (b : Builtin) :
    RecordsSize (b.declHeader c) (render 0 (b.steps c doc)) ↔ (c.sizeOf? b.name).isSome = true := by
  cases hsize : c.sizeOf? b.name with
  | some size =>
    refine iff_of_true ⟨size, ?_⟩ rfl
    have hline : '\n' ∉ ("public static let nativeSize = " ++ toString size).toList := by
      have hflat : IsFlat "public static let nativeSize = ".toList := by decide
      rw [String.toList_append]
      exact (isFlat_append.2 ⟨hflat, isFlat_toString_nat size⟩).lineFeed_not_mem
    rw [b.linesInside_steps, sizeSteps, hsize, List.append_assoc, List.cons_append, stepLines_cons,
      Step.lines, linesAt_of_not_mem hline, List.append_assoc, List.cons_append, List.head?_cons,
      String.toList_append, String.toList_append]
    rfl
  | none =>
    refine iff_of_false ?_ (by simp)
    rintro ⟨size, hfirst⟩
    have hopen := b.head?_linesInside_of_unsized hsize doc
    have hstart : ("    public static let nativeSize = " ++ toString size).toList.take 5 =
        "    p".toList := by
      rw [String.toList_append]
      rfl
    rw [hfirst] at hopen
    simp only [List.mem_cons, Option.some.injEq, List.not_mem_nil, or_false] at hopen
    rcases hopen with h | h | h <;> rw [h] at hstart <;> revert hstart <;> decide

/-! ## Causes of warnings -/

/-- One warning if there is a cause for it, and none otherwise. -/
inductive Reports (cause : Warning → Prop) : List Warning → Prop where
  | warned {w : Warning} (caused : cause w) : Reports cause [w]
  | silent (uncaused : ∀ w, ¬ cause w) : Reports cause []

/-- No size table has the build configuration. -/
def Api.MissesSizes (api : Api) (buildConfiguration : String) (w : Warning) : Prop :=
  (∀ t ∈ api.sizeTables, t.buildConfiguration ≠ buildConfiguration) ∧
    w = .unknownBuildConfiguration buildConfiguration

/-- There is something under the name of a documentation file, but no documentation. -/
def Disk.MissesDoc (d : Disk) (root : Path) (name : String) (w : Warning) : Prop :=
  ∃ e, d.FailsToLoad root name e ∧ w = .unreadableDoc name e

/-- The declaration of a built-in type has no line with its size. -/
def Builtin.MissesSize (c : Classification) (docs : DocSource) (b : Builtin) (w : Warning) : Prop :=
  ¬ RecordsSize (b.declHeader c) (b.typeSteps c docs).declaration.text ∧ w = .unknownSize b.name

theorem reports_buildConfiguration (api : Api) (buildConfiguration : String) :
    Reports (api.MissesSizes buildConfiguration)
      (buildConfigurationWarnings api.sizeTables buildConfiguration) := by
  unfold buildConfigurationWarnings sizesFor?
  cases hfind : api.sizeTables.find? (·.buildConfiguration == buildConfiguration) with
  | some table =>
    refine .silent fun w hw => hw.1 table (List.mem_of_find?_eq_some hfind) ?_
    simpa using List.find?_some hfind
  | none => exact .warned ⟨fun t ht => by simpa using List.find?_eq_none.1 hfind t ht, rfl⟩

theorem reports_doc {d : Disk} {root : Path} {docs : DocSource} {name : String}
    (h : docs name = d.doc root name) : Reports (d.MissesDoc root name) (docs.warnings name) := by
  rw [DocSource.warnings, h]
  cases hdoc : d.doc root name with
  | ok doc =>
    refine .silent fun w hw => ?_
    obtain ⟨e, hfails, -⟩ := hw
    rw [Disk.doc_eq_error_iff.2 hfails] at hdoc
    cases hdoc
  | error e => exact .warned ⟨e, Disk.doc_eq_error_iff.1 hdoc, rfl⟩

theorem reports_size (c : Classification) (docs : DocSource) (b : Builtin) :
    Reports (b.MissesSize c docs) (sizeWarnings c b.name) := by
  have hrecords := b.recordsSize_iff c (docs.doc? b.name)
  unfold sizeWarnings
  cases hsize : c.sizeOf? b.name with
  | some size => exact .silent fun w hw => hw.1 (hrecords.2 (by rw [hsize]; rfl))
  | none =>
    refine .warned ⟨fun hline => ?_, rfl⟩
    have hsome := hrecords.1 hline
    rw [hsize] at hsome
    cases hsome

/-- The warnings of a run in the order in which it meets their causes, with the documentation on
a disk. -/
inductive WarnsInOrder (d : Disk) (root : Path) (api : Api) (docs : DocSource)
    (buildConfiguration : String) (c : Classification) : List Warning → Prop where
  | intro {sizes globals : List Warning} {builtins classes : List (List Warning)}
    (ofSizes : Reports (api.MissesSizes buildConfiguration) sizes)
    (ofGlobals : Reports (d.MissesDoc root globalScope) globals)
    (ofBuiltins : List.Forall₂ (fun b ws => ∃ doc size, ws = doc ++ size ∧
      Reports (d.MissesDoc root b.name) doc ∧ Reports (b.MissesSize c docs) size)
      api.declaredBuiltins builtins)
    (ofClasses : List.Forall₂ (fun e => Reports (d.MissesDoc root e.name)) api.classes classes) :
    WarnsInOrder d root api docs buildConfiguration c
      (sizes ++ globals ++ builtins.flatten ++ classes.flatten)

/-- A run warns of every cause in order. -/
theorem warnsInOrder {d : Disk} {root : Path} {api : Api} {docs : DocSource}
    (h : ∀ name ∈ api.documentedNames, docs name = d.doc root name) (buildConfiguration : String) :
    WarnsInOrder d root api docs buildConfiguration (api.classification buildConfiguration)
      (api.warnings docs buildConfiguration) := by
  refine .intro (reports_buildConfiguration api buildConfiguration) (reports_doc (h _ ?_))
    (List.forall₂_map_right_iff.2 (List.forall₂_same.2 fun b hb => ?_))
    (List.forall₂_map_right_iff.2 (List.forall₂_same.2 fun e he => ?_))
  · exact List.mem_append_left _ List.mem_cons_self
  · have hname : b.name ∈ api.documentedNames :=
      List.mem_append_left _ (List.mem_cons_of_mem _ (List.mem_map_of_mem hb))
    exact ⟨_, _, rfl, reports_doc (h _ hname), reports_size _ docs b⟩
  · exact reports_doc (h _ (List.mem_append_right _ (List.mem_map_of_mem he)))

/-! ## Documentation that fails to load -/

/-- What is written depends on the documentation that there is. -/
theorem writtenFiles_congr {api : Api} {docs docs' : DocSource}
    (h : ∀ name ∈ api.documentedNames, docs.doc? name = docs'.doc? name) (mode : OutputMode)
    (c : Classification) :
    writtenFiles mode (api.coreText docs) (api.declarations docs c) =
      writtenFiles mode (api.coreText docs') (api.declarations docs' c) := by
  have hglobals : docs.doc? globalScope = docs'.doc? globalScope :=
    h _ (List.mem_append_left _ List.mem_cons_self)
  have hcore : api.coreText docs = api.coreText docs' := by
    rw [Api.coreText, Api.coreText, Api.globalEnumScope, Api.globalEnumScope, hglobals]
  have hdeclarations : api.declarations docs c = api.declarations docs' c := by
    rw [Api.declarations, Api.declarations]
    congr 1
    · refine List.map_congr_left fun b hb => ?_
      rw [h b.name (List.mem_append_left _ (List.mem_cons_of_mem _ (List.mem_map_of_mem hb)))]
    · refine List.map_congr_left fun e he => ?_
      rw [h e.name (List.mem_append_right _ (List.mem_map_of_mem he))]
  rw [hcore, hdeclarations]

/-- Where documentation fails to load there is none, so none is lost with it. -/
theorem doc?_congr_of_losesFailing {root : Path} {names : List String} {d d' : Disk}
    (h : Disk.LosesFailing root names d d') {docs docs' : DocSource} {name : String}
    (hname : name ∈ names) (hdocs : docs name = d.doc root name)
    (hdocs' : docs' name = d'.doc root name) : docs.doc? name = docs'.doc? name := by
  rw [DocSource.doc?, DocSource.doc?, hdocs, hdocs']
  rcases h name hname with hsame | ⟨hgone, e, hfails⟩
  · rw [hsame]
  · rw [hgone, Disk.doc_eq_error_iff.2 hfails]

/-- A run accounts for what goes wrong with its documentation and with sizes. -/
structure AccountsForWarnings (s : Machine) (root : Path) (api : Api) (config : GeneratorConfig)
    (docs : DocSource) (run : Generation) : Prop where
  /-- The output is made of the declarations of which some may lack a size, each in its file
  (`holdsDeclarations_of_generate`). -/
  output : run.output = partition config.mode (api.coreText docs)
    (api.declarations docs run.classification)
  warnings : WarnsInOrder s.disk root api docs config.buildConfiguration run.classification
    run.warnings
  /-- Without failing documentation the output is the same. -/
  sameOutput : ∀ s' : Machine, Disk.LosesFailing root api.documentedNames s.disk s'.disk →
    ∃ docs' run', (s'.run (docsFor (some root) api)).1 = .ok docs' ∧
      generate api docs' config = .ok run' ∧ run'.output = run.output
  /-- All failing files can be removed. -/
  removable : Disk.LosesFailing root api.documentedNames s.disk
    (s.disk.withoutFailing root api.documentedNames)

/-- **The warnings of a run are accounted for.** With any description, any disk and directory of
documentation and any build configuration that is not blank, a run warns of each cause once and of
nothing else, and it makes what it makes without the documentation that fails to load. -/
theorem run_warnings_accounted (s : Machine) (root : Path) (api : Api) (config : GeneratorConfig)
    (valid : isBlankText config.buildConfiguration.toList = false) :
    ∃ docs run, (s.run (docsFor (some root) api)).1 = .ok docs ∧
      generate api docs config = .ok run ∧ AccountsForWarnings s root api config docs run := by
  have hcheck : config.check = .ok () := check_of_not_blank valid config.mode
  obtain ⟨docs, hrun, hdocs⟩ := exists_docsFor s root api
  have hgenerate := generate_eq_ok hcheck api docs
  refine ⟨docs, _, hrun, hgenerate, output_eq_partition hgenerate, warnsInOrder hdocs _,
    fun s' hloses => ?_, Disk.losesFailing_withoutFailing s.disk root api.documentedNames⟩
  obtain ⟨docs', hrun', hdocs'⟩ := exists_docsFor s' root api
  refine ⟨docs', _, hrun', generate_eq_ok hcheck api docs', ?_⟩
  have hsame : ∀ name ∈ api.documentedNames, docs'.doc? name = docs.doc? name := fun name hname =>
    (doc?_congr_of_losesFailing hloses hname (hdocs name hname) (hdocs' name hname)).symm
  exact congrArg ({} : Output).insertAll (writtenFiles_congr hsame config.mode _)

/-- A directory and a file that is no text where documentation should be, a name that comes twice,
and a table in which it has no size. -/
theorem run_warnings_accounted_of_repeated :
    let disk : Disk := { nodes := (∅ : SortedMap Location Node).insertAll [
      (["doc"], .directory), (["doc", "classes"], .directory),
      (["doc", "classes", "@GlobalScope.xml"], .directory),
      (["doc", "classes", "Color.xml"], .file .bytes)] }
    let api : Api := ⟨none, [⟨"float_64", [⟨"Plane", 16⟩]⟩], [],
      [{ name := "int" }, { name := "Color" }, { name := "Plane" }, { name := "Color" }],
      [{ name := "Color" }]⟩
    isBlankText "float_64".toList = false ∧
    ∃ docs run, ((⟨disk, []⟩ : Machine).run (docsFor (some ⟨"doc"⟩) api)).1 = .ok docs ∧
      generate api docs ⟨"float_64", .perType⟩ = .ok run ∧
      AccountsForWarnings ⟨disk, []⟩ ⟨"doc"⟩ api ⟨"float_64", .perType⟩ docs run := by
  intro disk api
  have valid : isBlankText "float_64".toList = false := by decide
  exact ⟨valid, run_warnings_accounted ⟨disk, []⟩ ⟨"doc"⟩ api ⟨"float_64", .perType⟩ valid⟩

end SwiftDecls
