import SwiftDecls.Proofs.Classification
import SwiftDecls.Proofs.Declarations.Names
import SwiftDecls.Proofs.Docs.Erasure
import SwiftDecls.Proofs.Generation.Files
import SwiftDecls.Summary

/-!
# Counting what a run declares

A declaration shows what it declares in its first line of code: behind its comment it opens with
a keyword (`opensWith`), and no text opens with two of the keywords. So declarations can be counted
in what a run writes, without looking at the description that they were made from. The main
statement, `summary_counts_declarations`, is that these are the counts of the summary: a built-in
type that is declared counts as it is declared, one that Swift has already counts by its class,
and names may come more than once.
-/

set_option autoImplicit false

namespace SwiftDecls

open Source Text

/-! ## What declarations open with -/

/-- The first line of a text that is no documentation. -/
def firstCode (text : String) : List Char := ((textLines text).find? fun l => !isDocLine l).getD []

/-- Behind its comment a text starts with a keyword. -/
def opensWith (keyword text : String) : Bool := keyword.toList.isPrefixOf (firstCode text)

/-- The lines of a declaration behind its comment and its header. -/
def linesInside (header text : String) : List (List Char) :=
  ((textLines text).dropWhile isDocLine).drop (textLines (header ++ " \x7b")).length

/-- What an extension of `Variant` opens with. -/
def extensionKeyword : String := "extension Variant"

/-- What the declaration of a class opens with. -/
def classKeyword : String := "open class "

theorem keyword_openClass (base : String) : (DeclKind.openClass base).keyword = classKeyword := rfl

/-- What the declaration of a global enum opens with. -/
def EnumDefinition.keyword (e : EnumDefinition) : String :=
  match variantName? e.name with
  | some _ => extensionKeyword
  | none => e.declKind.keyword

/-- The lines of steps are documentation. -/
def OnlyDocs (steps : List Step) : Prop := ∀ l ∈ stepLines 0 steps, isDocLine l = true

/-- The first line of a text starts with the beginning of the text. -/
theorem exists_textLines_append {start : String} (h : '\n' ∉ start.toList) (rest : String) :
    ∃ tail lines, textLines (start ++ rest) = (start.toList ++ tail) :: lines := by
  obtain ⟨tail, lines, hlines⟩ :=
    List.exists_cons_of_ne_nil (List.splitOn_ne_nil '\n' rest.toList)
  refine ⟨tail, lines, ?_⟩
  rw [textLines, String.toList_append]
  generalize start.toList = cs at h
  induction cs with
  | nil => exact hlines
  | cons c cs ih =>
    rw [List.mem_cons, not_or] at h
    rw [List.cons_append, List.splitOn_cons_eq_if_modifyHead, if_neg (by simpa using Ne.symm h.1),
      ih h.2]
    rfl

/-- Behind a comment a block opens with the beginning of its header. -/
theorem exists_firstCode_eq {comment : List Step} (hcomment : OnlyDocs comment) (start : String)
    (hline : '\n' ∉ start.toList) (hcode : ∀ tail, isDocLine (start.toList ++ tail) = false)
    (rest : String) (body : List Step) :
    ∃ tail, firstCode (render 0 (comment ++ [.block (start ++ rest) "" body])) =
      start.toList ++ tail := by
  obtain ⟨tail, lines, hheader⟩ := exists_textLines_append hline (rest ++ " \x7b")
  have hareLines := areLines_stepLines 0 (comment ++ [.block (start ++ rest) "" body])
  refine ⟨tail, ?_⟩
  rw [firstCode, render_eq_unlines, textLines_unlines hareLines, stepLines_append, List.append_assoc,
    List.find?_append, List.find?_eq_none.2 fun l hl => by simp [hcomment l hl]]
  rw [stepLines_cons, Step.lines, linesAt, String.append_assoc, hheader, List.map_cons, indented_zero]
  simp only [List.cons_append, List.find?_cons_of_pos, hcode, Bool.not_false, Option.none_or,
    Option.getD_some]

theorem isDocLine_keyword (k : DeclKind) (tail : List Char) :
    isDocLine (k.keyword.toList ++ tail) = false := by
  cases k with
  | openClass base =>
    rw [keyword_openClass]
    rfl
  | _ => rfl

theorem lineFeed_not_mem_keyword (k : DeclKind) : '\n' ∉ k.keyword.toList := by
  cases k <;> simp [DeclKind.keyword]

/-- A declaration opens with the keyword of its kind. -/
theorem exists_firstCode_header {comment : List Step} (hcomment : OnlyDocs comment) (k : DeclKind)
    (name : String) (body : List Step) :
    ∃ tail, firstCode (render 0 (comment ++ [.block (k.header name) "" body])) =
      k.keyword.toList ++ tail := by
  rw [DeclKind.header, String.append_assoc]
  exact exists_firstCode_eq hcomment k.keyword (lineFeed_not_mem_keyword k)
    (isDocLine_keyword k) _ body

/-- Behind the comment and the header of a declaration there is its body. -/
theorem linesInside_header {comment : List Step} (hcomment : OnlyDocs comment) (k : DeclKind)
    (name : String) (body : List Step) :
    linesInside (k.header name) (render 0 (comment ++ [.block (k.header name) "" body])) =
      stepLines 1 body ++ ["\x7d".toList, [], []] := by
  obtain ⟨tail, others, hheader⟩ := exists_textLines_append (lineFeed_not_mem_keyword k)
    (name ++ (k.conformance ++ " \x7b"))
  have hopen : textLines (k.header name ++ " \x7b") = (k.keyword.toList ++ tail) :: others := by
    rw [DeclKind.header, String.append_assoc, String.append_assoc, hheader]
  have hlinesAt : linesAt 0 (k.header name ++ " \x7b") = (k.keyword.toList ++ tail) :: others := by
    rw [linesAt, hopen]
    exact (List.map_congr_left fun l _ => indented_zero l).trans (List.map_id _)
  have hclose : linesAt 0 ("\x7d" ++ "") = ["\x7d".toList] := rfl
  have hlines : textLines (render 0 (comment ++ [.block (k.header name) "" body])) =
      stepLines 0 comment ++ ((k.keyword.toList ++ tail) :: others ++
        (stepLines 1 body ++ ["\x7d".toList, [], []])) := by
    rw [render_eq_unlines, textLines_unlines (areLines_stepLines 0 _), stepLines_append,
      stepLines_cons, Step.lines, hlinesAt, hclose, stepLines_nil]
    simp only [List.append_assoc, List.append_nil, List.cons_append, List.nil_append]
  rw [linesInside, hlines, hopen, List.dropWhile_append_of_pos hcomment, List.cons_append,
    List.dropWhile_cons_of_neg (by simp [isDocLine_keyword k tail])]
  exact List.drop_left

theorem Builtin.onlyDocs_briefComment (doc : Option ClassDoc) (b : Builtin) :
    OnlyDocs (b.briefComment doc) := by
  unfold Builtin.briefComment
  split
  · exact fun _ => isDocLine_of_mem_docComment
  · simp [OnlyDocs]

theorem EngineClass.onlyDocs_briefComment (doc : Option ClassDoc) (e : EngineClass) :
    OnlyDocs (e.briefComment doc) := by
  unfold EngineClass.briefComment
  split
  · exact fun _ => isDocLine_of_mem_docComment
  · simp [OnlyDocs]

/-- What the declaration of a built-in type opens with. -/
def TypeClass.keyword : TypeClass → String
  | value => DeclKind.valueType.keyword
  | opaqueHandle => DeclKind.handle.keyword

/-- A built-in type opens with the keyword of its class and of no other. -/
theorem opensWith_builtin (c : Classification) (doc : Option ClassDoc) (b : Builtin)
    (k : TypeClass) :
    opensWith k.keyword (render 0 (b.steps c doc)) = decide (b.declaredClass c = k) := by
  obtain ⟨tail, htail⟩ := exists_firstCode_header (b.onlyDocs_briefComment doc) (b.declKind c)
    (swiftTypeName b.name) (b.sizeSteps c ++ b.storageSteps c ++ b.nestedSteps doc)
  rw [opensWith, Builtin.steps, b.declHeader_eq, htail, Builtin.declKind]
  cases b.declaredClass c <;> cases k <;> rfl

theorem opensWith_class (doc : Option ClassDoc) (e : EngineClass) :
    opensWith classKeyword (render 0 (e.steps doc)) = true := by
  obtain ⟨tail, htail⟩ := exists_firstCode_header (e.onlyDocs_briefComment doc)
    (.openClass e.base) (swiftTypeName e.name) (enumSteps (e.scope doc) e.enumList)
  rw [opensWith, EngineClass.steps, e.declHeader_eq, htail, keyword_openClass]
  rfl

theorem opensWith_enum (scope : EnumScope) (e : EnumDefinition) :
    opensWith e.keyword (render 0 [enumStep scope e]) = true := by
  have hnone : OnlyDocs [] := by simp [OnlyDocs]
  rw [enumStep, EnumDefinition.keyword]
  cases variantName? e.name with
  | some name =>
    obtain ⟨tail, htail⟩ := exists_firstCode_eq hnone extensionKeyword (by decide)
      (fun _ => rfl) "" [enumBlock scope name e]
    rw [opensWith, List.isPrefixOf_iff_prefix]
    exact ⟨tail, htail.symm⟩
  | none =>
    obtain ⟨body, hbody⟩ := enumBlock_eq scope e.name e
    obtain ⟨tail, htail⟩ := exists_firstCode_header hnone e.declKind (swiftTypeName e.name) body
    rw [opensWith, List.isPrefixOf_iff_prefix]
    dsimp only
    rw [hbody]
    exact ⟨tail, htail.symm⟩

/-! ## Counts -/

/-- The number of declarations of a group that open with a keyword. -/
def countOpening (g : Group) (keyword : String) (declarations : List Declaration) : Nat :=
  declarations.countP fun d => decide (d.group = g) && opensWith keyword d.text

/-- The number of built-in types of a class that are not declared. -/
def Api.countUndeclared (api : Api) (c : Classification) (k : TypeClass) : Nat :=
  api.builtins.countP fun b => !isDeclared b.name && c.classOf? b.name == some k

/-- The texts that declare the global enums. -/
def Api.globalEnumTexts (api : Api) (docs : DocSource) : List String :=
  api.globalEnums.map fun e => render 0 [enumStep (globalEnumScope docs) e]

/-- A summary counts what a run declares. -/
structure CountsDeclarations (s : Summary) (api : Api) (docs : DocSource)
    (config : GeneratorConfig) (run : Generation) : Prop where
  /-- The output is made of the declarations that are counted and of the constructor table, each in
  its file (`holdsDeclarations_of_generate`). -/
  output : run.output = partition config.mode
    (fileHeader ++ String.join (api.globalEnumTexts docs) ++ render 0 run.referenceTypes.steps)
    (api.declarations docs run.classification)
  valueTypes : s.valueTypes =
    countOpening .builtins "public struct " (api.declarations docs run.classification) +
      api.countUndeclared run.classification .value
  opaqueTypes : s.opaqueTypes =
    countOpening .builtins "public final class " (api.declarations docs run.classification) +
      api.countUndeclared run.classification .opaqueHandle
  builtins : s.builtins = s.valueTypes + s.opaqueTypes
  globalEnums : s.globalEnums = (api.globalEnumTexts docs).length ∧
    List.Forall₂ (fun e text => opensWith e.keyword text = true) api.globalEnums
      (api.globalEnumTexts docs)
  classes : s.classes =
    countOpening .classes "open class " (api.declarations docs run.classification)
  hasSizes : ∀ name, .unknownBuildConfiguration name ∈ run.warnings ↔
    s.hasSizes = false ∧ name = config.buildConfiguration

/-- Built-in types are either declared or not. -/
theorem countP_builtins (api : Api) (p : Builtin → Bool) :
    api.builtins.countP p =
      api.declaredBuiltins.countP p + api.builtins.countP fun b => !isDeclared b.name && p b := by
  rw [List.countP_eq_countP_filter_add api.builtins p (isDeclared ·.name), Api.declaredBuiltins]
  congr 1
  rw [List.countP_filter]
  exact List.countP_congr fun b _ => by simp [and_comm]

/-- A type of a description has a class. -/
theorem exists_classOf? {api : Api} {b : Builtin} (hb : b ∈ api.builtins)
    (buildConfiguration : String) :
    ∃ k, (api.classification buildConfiguration).classOf? b.name = some k := by
  have hkey : (api.classification buildConfiguration).isBuiltin b.name = true := by
    simp only [Classification.isBuiltin, Api.classification, Classification.ofBuiltins,
      SortedMap.contains_iff, SortedMap.mem_keys_insertAll, List.map_map, Function.comp_def]
    exact .inr (.inl (List.mem_map_of_mem hb))
  exact Option.isSome_iff_exists.1 hkey

/-- Declared built-in types are counted by what their declarations open with. -/
theorem countOpening_builtins (api : Api) (docs : DocSource) (c : Classification) (k : TypeClass) :
    countOpening .builtins k.keyword (api.declarations docs c) =
      api.declaredBuiltins.countP fun b => decide (b.declaredClass c = k) := by
  rw [countOpening, Api.declarations, List.countP_append, List.countP_map, List.countP_map]
  have hclasses : api.classes.countP ((fun d : Declaration =>
      decide (d.group = .builtins) && opensWith k.keyword d.text) ∘ fun e =>
        ⟨.classes, e.name, render 0 (e.steps (docs.doc? e.name))⟩) = 0 :=
    List.countP_eq_zero.2 fun e _ => by simp
  rw [hclasses, Nat.add_zero]
  refine List.countP_congr fun b _ => ?_
  simp [opensWith_builtin]

/-- Classes are counted by what their declarations open with. -/
theorem countOpening_classes (api : Api) (docs : DocSource) (c : Classification) :
    countOpening .classes classKeyword (api.declarations docs c) = api.classes.length := by
  rw [countOpening, Api.declarations, List.countP_append, List.countP_map, List.countP_map]
  have hbuiltins : api.declaredBuiltins.countP ((fun d : Declaration =>
      decide (d.group = .classes) && opensWith classKeyword d.text) ∘ fun b =>
        ⟨.builtins, b.name, render 0 (b.steps c (docs.doc? b.name))⟩) = 0 :=
    List.countP_eq_zero.2 fun b _ => by simp
  rw [hbuiltins, Nat.zero_add, List.countP_eq_length]
  exact fun e _ => by simp [opensWith_class]

/-- The built-in types of a class: those that are declared as it and those that Swift has. -/
theorem countP_classOf? (api : Api) (docs : DocSource) (buildConfiguration : String)
    (k : TypeClass) :
    (api.builtins.countP fun b =>
        (api.classification buildConfiguration).classOf? b.name == some k) =
      countOpening .builtins k.keyword
          (api.declarations docs (api.classification buildConfiguration)) +
        api.countUndeclared (api.classification buildConfiguration) k := by
  rw [countP_builtins, countOpening_builtins, Api.countUndeclared]
  apply congrArg (· + _)
  refine List.countP_congr fun b hb => ?_
  obtain ⟨k', hk'⟩ := exists_classOf? (List.mem_of_mem_filter hb) buildConfiguration
  rw [Builtin.declaredClass, hk']
  simp

/-- A type of a description is a value or a handle. -/
theorem countP_values_add_handles (api : Api) (buildConfiguration : String) :
    (api.builtins.countP fun b =>
        (api.classification buildConfiguration).classOf? b.name == some .value) +
      (api.builtins.countP fun b =>
        (api.classification buildConfiguration).classOf? b.name == some .opaqueHandle) =
      api.builtins.length := by
  rw [List.length_eq_countP_add_countP fun b : Builtin =>
    (api.classification buildConfiguration).classOf? b.name == some .value]
  apply congrArg (List.countP _ api.builtins + ·)
  refine List.countP_congr fun b hb => ?_
  obtain ⟨k, hk⟩ := exists_classOf? hb buildConfiguration
  rw [hk]
  cases k <;> decide

/-- The core text is made of the texts that declare the global enums and of the constructor
table. -/
theorem coreText_eq_join (api : Api) (docs : DocSource) :
    api.coreText docs =
      fileHeader ++ String.join (api.globalEnumTexts docs) ++ render 0 api.referenceTypes.steps := by
  have henums : ∀ enums : List EnumDefinition,
      unlines (stepLines 0 (enumSteps (Api.globalEnumScope docs) enums)) =
        String.join (enums.map fun e => render 0 [enumStep (Api.globalEnumScope docs) e]) := by
    intro enums
    rw [stepLines_eq_flatMap, List.flatMap, unlines_flatten, enumSteps, List.map_map, List.map_map]
    refine congrArg String.join (List.map_congr_left fun e _ => ?_)
    rw [render_eq_unlines, stepLines_cons, stepLines_nil, List.append_nil]
    rfl
  rw [coreText_eq, Api.coreSteps, stepLines_append, unlines_append, henums, ← render_eq_unlines,
    Api.globalEnumTexts, String.append_assoc]

/-- A run warns of a build configuration without sizes and of no other. -/
theorem unknownBuildConfiguration_mem_warnings (api : Api) (docs : DocSource)
    (buildConfiguration name : String) :
    .unknownBuildConfiguration name ∈ api.warnings docs buildConfiguration ↔
      (api.sizesFor? buildConfiguration).isSome = false ∧ name = buildConfiguration := by
  have hdocs : ∀ owner, Warning.unknownBuildConfiguration name ∉ docs.warnings owner := by
    intro owner
    unfold DocSource.warnings
    split <;> simp
  have hsize : ∀ c owner, Warning.unknownBuildConfiguration name ∉ sizeWarnings c owner := by
    intro c owner
    unfold sizeWarnings
    split <;> simp
  simp only [Api.warnings, List.mem_append, List.mem_flatMap, hdocs, hsize, or_false, and_false,
    exists_false, buildConfigurationWarnings, Api.sizesFor?]
  split <;> simp [*]

/-- **A summary counts what a run declares.** With any description, also one in which names come
more than once, any documentation and any build configuration that is not blank, a run succeeds
and the summary has the numbers of its declarations. -/
theorem summary_counts_declarations (api : Api) (docs : DocSource) (config : GeneratorConfig)
    (valid : isBlankText config.buildConfiguration.toList = false) :
    ∃ run, generate api docs config = .ok run ∧
      CountsDeclarations (Summary.ofApi api config.buildConfiguration) api docs config run := by
  let s := Summary.ofApi api config.buildConfiguration
  have hsplit := countP_values_add_handles api config.buildConfiguration
  have hvalues : s.valueTypes = api.builtins.countP fun b =>
      (api.classification config.buildConfiguration).classOf? b.name == some .value :=
    List.countP_eq_length_filter.symm
  have hhandles : s.opaqueTypes = api.builtins.countP fun b =>
      (api.classification config.buildConfiguration).classOf? b.name == some .opaqueHandle := by
    have hopaque : s.opaqueTypes = api.builtins.length - s.valueTypes := rfl
    omega
  have hrun := generate_eq_ok (check_of_not_blank valid config.mode) api docs
  refine ⟨_, hrun, ?_⟩
  constructor
  · rw [← coreText_eq_join]
    exact output_eq_partition hrun
  · rw [hvalues]
    exact countP_classOf? api docs config.buildConfiguration .value
  · rw [hhandles]
    exact countP_classOf? api docs config.buildConfiguration .opaqueHandle
  · rw [hvalues, hhandles]
    exact hsplit.symm
  · refine ⟨(List.length_map _).symm, ?_⟩
    exact List.forall₂_map_right_iff.2 (List.forall₂_same.2 fun e _ => opensWith_enum _ e)
  · exact (countOpening_classes api docs _).symm
  · exact fun name => unknownBuildConfiguration_mem_warnings api docs config.buildConfiguration name

/-- A primitive that is a value, one that is a handle, a name that is a value in any case, a name
that comes twice, of which the second counts, and two tables for one build configuration. -/
theorem summary_counts_declarations_of_repeated :
    let api : Api := ⟨none, [⟨"float_64", []⟩, ⟨"float_64", [⟨"Pair", 8⟩]⟩],
      [{ name := "Variant.Type", members := [⟨"TYPE_NIL", 0⟩] }],
      [{ name := "Nil" }, { name := "int" }, { name := "Variant" },
        { name := "Pair", fields := some [⟨"x", "float"⟩] }, { name := "Pair" }],
      [{ name := "Node" }, { name := "Node" }]⟩
    isBlankText "float_64".toList = false ∧
    ∃ run, generate api .empty ⟨"float_64", .perType⟩ = .ok run ∧
      CountsDeclarations ⟨1, 5, 2, 3, 2, true⟩ api .empty ⟨"float_64", .perType⟩ run := by
  intro api
  have valid : isBlankText "float_64".toList = false := by decide
  have hsummary : Summary.ofApi api "float_64" = ⟨1, 5, 2, 3, 2, true⟩ := by decide +kernel
  refine ⟨valid, ?_⟩
  rw [← hsummary]
  exact summary_counts_declarations api .empty ⟨"float_64", .perType⟩ valid

end SwiftDecls
