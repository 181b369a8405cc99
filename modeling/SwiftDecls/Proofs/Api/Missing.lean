import SwiftDecls.Proofs.Api.Parts

/-!
# What a description cannot do without

Every part of a description that is written as an object says what its kind requires. Take a text
that is read as a description and any object in it: without one of the required members the text
is not read, and the member is named; without one of the others it is read, and only that member is
gone (`ofJson_of_lacks`).
-/

set_option autoImplicit false

namespace SwiftDecls

open Json FieldRule Text

/-! ## Members that may be missing -/

theorem clears_header : headerRule.Clears := by
  simp only [RecordRule.Clears, headerRule, List.forall_mem_cons]
  exact ⟨clears_of_required rfl, clears_of_required rfl, clears_of_required rfl,
    fun _ => clears_may fun _ _ _ => rfl, fun _ => clears_may fun _ _ _ => rfl,
    List.forall_mem_nil _⟩

theorem clears_enum : enumRule.Clears := by
  simp only [RecordRule.Clears, enumRule, List.forall_mem_cons]
  exact ⟨clears_of_required rfl, fun _ => clears_may fun _ _ _ => rfl, clears_of_required rfl,
    List.forall_mem_nil _⟩

theorem clears_builtin : builtinRule.Clears := by
  simp only [RecordRule.Clears, builtinRule, List.forall_mem_cons]
  exact ⟨clears_of_required rfl, fun _ => clears_may fun _ _ _ => rfl,
    fun _ => clears_may fun _ _ _ => rfl, List.forall_mem_nil _⟩

theorem clears_class : classRule.Clears := by
  simp only [RecordRule.Clears, classRule, List.forall_mem_cons]
  exact ⟨clears_of_required rfl, fun _ => clears_may fun _ _ _ => rfl,
    fun _ => clears_may fun _ _ _ => rfl,
    fun _ => clears_may fun _ _ _ => rfl,
    fun _ => clears_may fun _ _ _ => rfl, List.forall_mem_nil _⟩

theorem clears_api : apiRule.Clears := by
  simp only [RecordRule.Clears, apiRule, List.forall_mem_cons]
  exact ⟨fun _ => clears_may fun _ _ _ => rfl, clears_of_required rfl, clears_of_required rfl,
    clears_of_required rfl, clears_of_required rfl, List.forall_mem_nil _⟩

theorem PartKind.clears (kind : PartKind) : kind.rule.Clears := by
  cases kind with
  | api => exact clears_api
  | header => exact clears_header
  | enum => exact clears_enum
  | builtin => exact clears_builtin
  | engineClass => exact clears_class
  | sizeTable | typeSize | enumMember | field =>
    apply RecordRule.clears_of_required
    exact List.forall_mem_cons.2 ⟨rfl, List.forall_mem_cons.2 ⟨rfl, List.forall_mem_nil _⟩⟩

/-! ## Objects that lack a member -/

theorem message_missingField (name : String) :
    (Problem.missingField name).message = "missing field `" ++ name ++ "`" := by
  show "missing field " ++ ("`" ++ name ++ "`") = _
  rw [← String.append_assoc, ← String.append_assoc]
  congr 2

/-- **Without a required member of an object, at any depth, a description is not read, and the
error names the member; without another member it is read as it was but for that member.** -/
theorem ofJson_of_lacks {text : String} {api : Api} (accepted : Api.ofJson text = .ok api) :
    (∃ v, Spells v text) ∧ ∀ v, Spells v text → ∀ (kind : PartKind) (part : Part kind),
      ∀ f ∈ kind.rule.fields, ∀ v' text', At (Lacks f.name) part.path apiShape v v' →
        Spells v' text' →
        (f.required = true → ∃ problem, Api.ofJson text' = .error (.data problem) ∧
          problem.message = "missing field `" ++ f.name ++ "`") ∧
        (f.required = false → Api.ofJson text' = .ok (part.modify f.cleared api)) := by
  obtain ⟨w, hw, hdecoded⟩ := ofJson_eq_ok_iff.1 accepted
  refine ⟨⟨w, hw⟩, fun v hv kind part f hf v' text' hat hv' => ?_⟩
  obtain rfl : w = v := spells_unique hw hv
  have hfocuses :=
    focuses_part (noNull_lacks f.name) part (focuses_here kind.rule.decoder kind.shape)
  rw [List.append_nil] at hfocuses
  obtain ⟨x, x', b, hlacks, hb, hfails, hkeeps⟩ := hfocuses w v' api hat hdecoded
  rw [Api.ofJson, decode_of_spells hv']
  constructor
  · intro hrequired
    refine ⟨.missingField f.name, hfails _ ?_, message_missingField f.name⟩
    exact RecordRule.decoder_lacks_required kind.lawful hf hrequired hlacks hb
  · intro hoptional
    exact hkeeps f.cleared
      (RecordRule.decoder_lacks_optional kind.lawful kind.clears hf hoptional hlacks hb)

/-! ## One class -/

/-- A description of a class with an enum of one member, and more members of the class and of the
member of the enum. -/
def classDescription (inClass inMember : String) : String :=
  "\x7b\"builtin_class_sizes\":[],\"global_enums\":[],\"builtin_classes\":[],\"classes\":[" ++
    "\x7b\"name\":\"C\"" ++ inClass ++ ",\"enums\":[\x7b\"name\":\"E\",\"values\":[" ++
    "\x7b\"name\":\"A\"" ++ inMember ++ "\x7d]\x7d]\x7d]\x7d"

/-- What that description spells. -/
def classValue (inClass inMember : List (StringLiteral × Value)) : Value :=
  let one (key : String) (entries : List (StringLiteral × Value)) : StringLiteral × Value :=
    (⟨some key⟩, .list [.map entries .closed] .closed)
  let empty (key : String) : StringLiteral × Value := (⟨some key⟩, .list [] .closed)
  let name (s : String) : StringLiteral × Value := (⟨some "name"⟩, .string ⟨some s⟩)
  .map [empty "builtin_class_sizes", empty "global_enums", empty "builtin_classes",
    one "classes" (name "C" :: (inClass ++
      [one "enums" [name "E", one "values" (name "A" :: inMember)]]))] .closed

/-- The characters of that description. -/
def classChars (inClass inMember : List Char) : List Char :=
  "\x7b\"builtin_class_sizes\":[],\"global_enums\":[],\"builtin_classes\":[],\"classes\":[".toList
    ++ "\x7b\"name\":\"C\"".toList ++ inClass ++
    ",\"enums\":[\x7b\"name\":\"E\",\"values\":[".toList ++
    "\x7b\"name\":\"A\"".toList ++ inMember ++ "\x7d]\x7d]\x7d]\x7d".toList

theorem classDescription_ofList (cs ds : List Char) :
    classDescription (String.ofList cs) (String.ofList ds) = String.ofList (classChars cs ds) := by
  unfold classDescription classChars
  simp only [String.ofList_append, String.ofList_toList]

theorem spells_classDescription {inClass inMember : List (StringLiteral × Value)} {a b : String}
    {cs ds : List Char} (ha : a = String.ofList cs) (hb : b = String.ofList ds)
    (hwhole : (classValue inClass inMember).skipFault? = none)
    (h : tokens (classChars cs ds) = (classValue inClass inMember).tokens) :
    Spells (classValue inClass inMember) (classDescription a b) := by
  have htext := classDescription_ofList cs ds
  rw [← ha, ← hb] at htext
  exact spells_of_ofList (isWhole_of_skipFault? _ hwhole) htext h

section Class

variable {change : Value → Value → Prop} {path : List Key}
  {inClass inMember inMember' : List (StringLiteral × Value)}

theorem at_class {entries entries' : List (StringLiteral × Value)}
    {before : List (StringLiteral × Value)}
    (h : At change path classShape (.map entries .closed) (.map entries' .closed)) :
    At change ((Part.engineClass 0).path ++ path) apiShape
      (.map (before ++ [(⟨some "classes"⟩, .list [.map entries .closed] .closed)]) .closed)
      (.map (before ++ [(⟨some "classes"⟩, .list [.map entries' .closed] .closed)]) .closed) :=
  .entry (m := ⟨"classes", true, .list classShape⟩)
    (.tail _ (.tail _ (.tail _ (.tail _ (.head _))))) (@At.item _ _ _ [] [] _ _ h)

/-- A change of the member of the enum. -/
theorem at_member (h : At change path enumMemberShape
      (.map ((⟨some "name"⟩, .string ⟨some "A"⟩) :: inMember) .closed)
      (.map ((⟨some "name"⟩, .string ⟨some "A"⟩) :: inMember') .closed)) :
    At change ((Part.enumMember (.enumInClass (.engineClass 0) 0) 0).path ++ path) apiShape
      (classValue inClass inMember) (classValue inClass inMember') :=
  @at_class _ _ _ _ [_, _, _] (@At.entry _ _ _ ⟨"enums", false, .list enumShape⟩
    ((⟨some "name"⟩, .string ⟨some "C"⟩) :: inClass) [] _ _
    (.tail _ (.tail _ (.tail _ (.tail _ (.head _))))) (@At.item _ _ _ [] [] _ _
      (@At.entry _ _ _ ⟨"values", true, .list enumMemberShape⟩ [_] [] _ _
        (.tail _ (.tail _ (.head _))) (@At.item _ _ _ [] [] _ _ h))))

end Class

/-- A class that does not say what it inherits from, and a member of an enum without a value. -/
theorem ofJson_of_lacks_of_class :
    Api.ofJson (classDescription ",\"inherits\":\"B\"" ",\"value\":1") =
        .ok ⟨none, [], [], [], [⟨"C", some "B", none, none, some [⟨"E", none, [⟨"A", 1⟩]⟩]⟩]⟩ ∧
      (∃ problem, Api.ofJson (classDescription ",\"inherits\":\"B\"" "") =
        .error (.data problem) ∧ problem.message = "missing field `value`") ∧
      Api.ofJson (classDescription "" ",\"value\":1") =
        .ok ⟨none, [], [], [], [⟨"C", none, none, none, some [⟨"E", none, [⟨"A", 1⟩]⟩]⟩]⟩ := by
  let inherits : StringLiteral × Value := (⟨some "inherits"⟩, .string ⟨some "B"⟩)
  let value : StringLiteral × Value := (⟨some "value"⟩, .number ⟨false, ['1'], none, none⟩)
  have hv : Spells (classValue [inherits] [value])
      (classDescription ",\"inherits\":\"B\"" ",\"value\":1") :=
    spells_classDescription rfl rfl rfl (by decide +kernel)
  have hvalue : Spells (classValue [inherits] []) (classDescription ",\"inherits\":\"B\"" "") :=
    spells_classDescription rfl rfl rfl (by decide +kernel)
  have hinherits : Spells (classValue [] [value]) (classDescription "" ",\"value\":1") :=
    spells_classDescription rfl rfl rfl (by decide +kernel)
  have accepted : Api.ofJson (classDescription ",\"inherits\":\"B\"" ",\"value\":1") =
      .ok ⟨none, [], [], [], [⟨"C", some "B", none, none, some [⟨"E", none, [⟨"A", 1⟩]⟩]⟩]⟩ :=
    ofJson_eq_ok_iff.2 ⟨_, hv, rfl⟩
  have withoutValue : At (Lacks "value")
      (Part.enumMember (.enumInClass (.engineClass 0) 0) 0).path apiShape
      (classValue [inherits] [value]) (classValue [inherits] []) :=
    at_member (.here (.intro [_] [] value.2))
  have withoutInherits : At (Lacks "inherits") (Part.engineClass 0).path apiShape
      (classValue [inherits] [value]) (classValue [] [value]) :=
    @at_class _ _ _ _ [_, _, _] (.here (.intro [_] [_] inherits.2))
  refine ⟨accepted, ?_, ?_⟩
  · exact ((ofJson_of_lacks accepted).2 _ hv .enumMember
      (.enumMember (.enumInClass (.engineClass 0) 0) 0) _ (.tail _ (.head _)) _ _ withoutValue
      hvalue).1 rfl
  · exact ((ofJson_of_lacks accepted).2 _ hv .engineClass (.engineClass 0) _ (.tail _ (.head _)) _ _
      withoutInherits hinherits).2 rfl

end SwiftDecls
