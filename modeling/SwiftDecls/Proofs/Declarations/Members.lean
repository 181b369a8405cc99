import SwiftDecls.Proofs.Declarations.Names
import SwiftDecls.Proofs.Declarations.Nesting
import SwiftDecls.Proofs.Source.Layout

/-!
# The members of an enum

The body of an enum declares its members in order, each on one line behind the documentation of
its name (`DeclaresMembers`). A plain enum leaves out what it has no use for; of the rest the first
member of a value is a live case and every later one is kept in a comment (`FirstsLive`). All of
this follows from how the values that are used up grow from one member to the next
(`exists_declaresMembers_caseSteps`). A bit field keeps every member as it is.

The main statement, `enumBlock_declares_members`, is about what a writer at any depth appends.
-/

set_option autoImplicit false

namespace SwiftDecls

open Source Text Naming

/-! ## The documentation of a name -/

/-- A name is documented by the first constant with exactly this name. -/
inductive DocumentedBy (constants : List DocConstant) (name : String) : Option DocConstant → Prop
  where
  | first {before after : List DocConstant} {constant : DocConstant}
      (split : constants = before ++ constant :: after) (named : constant.name = name)
      (new : ∀ other ∈ before, other.name ≠ name) : DocumentedBy constants name (some constant)
  | missing (absent : ∀ constant ∈ constants, constant.name ≠ name) :
      DocumentedBy constants name none

theorem documentedBy_findConstant? (constants : List DocConstant) (name : String) :
    DocumentedBy constants name (findConstant? constants name) := by
  cases hfind : findConstant? constants name with
  | none => exact .missing fun c hc => by simpa using List.find?_eq_none.1 hfind c hc
  | some constant =>
    obtain ⟨hname, before, after, hsplit, hbefore⟩ := List.find?_eq_some_iff_append.1 hfind
    exact .first hsplit (by simpa using hname) fun other hother => by
      simpa using hbefore other hother

/-! ## Declared members -/

/-- A member with its documentation, live or in a comment. -/
structure DeclaredMember where
  member : EnumMember
  doc : Option DocConstant
  live : Bool

/-- The value of the member. -/
def DeclaredMember.value (d : DeclaredMember) : Int := d.member.value

/-- The lines of a member: those of its documentation and the one that declares it. -/
def DeclaredMember.lines (owner : Option String) (code : Bool → EnumMember → String) (depth : Nat)
    (d : DeclaredMember) : List (List Char) :=
  (match d.doc with
    | some constant => stepLines depth (docComment owner constant.text)
    | none => []) ++ [indented depth (code d.live d.member).toList]

/-- Lines declare members one after the other, each with the documentation of its name. -/
structure DeclaresMembers (scope : EnumScope) (code : Bool → EnumMember → String) (depth : Nat)
    (members : List EnumMember) (ds : List DeclaredMember) (lines : List (List Char)) : Prop where
  members : ds.map (·.member) = members
  docs : ∀ d ∈ ds, DocumentedBy scope.constants d.member.name d.doc
  lines : lines = ds.flatMap (·.lines scope.owner code depth)

theorem DeclaresMembers.nil (scope : EnumScope) (code : Bool → EnumMember → String)
    (depth : Nat) : DeclaresMembers scope code depth [] [] [] := ⟨rfl, by simp, rfl⟩

/-- One more member in front. -/
theorem DeclaresMembers.cons {scope : EnumScope} {code : Bool → EnumMember → String} {depth : Nat}
    {members : List EnumMember} {ds : List DeclaredMember} {rest : List Step}
    (h : DeclaresMembers scope code depth members ds (stepLines depth rest)) {member : EnumMember}
    (live : Bool) (hline : '\n' ∉ (code live member).toList) :
    DeclaresMembers scope code depth (member :: members)
      (⟨member, findConstant? scope.constants member.name, live⟩ :: ds)
      (stepLines depth (scope.memberComment member ++ .line (code live member) :: rest)) := by
  refine ⟨by rw [List.map_cons, h.members], List.forall_mem_cons.2
    ⟨documentedBy_findConstant? scope.constants member.name, h.docs⟩, ?_⟩
  rw [stepLines_append, stepLines_cons, Step.lines, linesAt_of_not_mem hline, h.lines,
    List.flatMap_cons, DeclaredMember.lines, EnumScope.memberComment, List.append_assoc]
  cases findConstant? scope.constants member.name with
  | none => rw [stepLines_nil]
  | some constant => rfl

/-! ## Live cases -/

/-- A member is live exactly if its value is not used yet, at first or by a member before it. -/
def LiveAfter (used : List Int) (ds : List DeclaredMember) : Prop :=
  ∀ before d after, ds = before ++ d :: after →
    (d.live = true ↔ d.value ∉ used ∧ ∀ e ∈ before, e.value ≠ d.value)

/-- A member in front uses up its value. -/
theorem LiveAfter.cons {used : List Int} {d : DeclaredMember} {ds : List DeclaredMember}
    (h : LiveAfter (d.value :: used) ds) (hlive : d.live = true ↔ d.value ∉ used) :
    LiveAfter used (d :: ds) := by
  intro before e after hsplit
  cases before with
  | nil =>
    obtain ⟨rfl, rfl⟩ := List.cons.inj hsplit
    simpa using hlive
  | cons first others =>
    obtain ⟨rfl, hrest⟩ := List.cons.inj hsplit
    rw [h others e after hrest, List.mem_cons, not_or, List.forall_mem_cons, ne_comm]
    exact and_assoc.trans (and_left_comm.trans Iff.rfl)

/-- Of each value the first member is live and no other. -/
structure FirstsLive (ds : List DeclaredMember) : Prop where
  live_iff : ∀ before d after, ds = before ++ d :: after →
    (d.live = true ↔ ∀ e ∈ before, e.value ≠ d.value)
  /-- No two live cases have one value. -/
  distinct : ((ds.filter (·.live)).map (·.value)).Nodup
  /-- Every value has a live case, which is its first, and only this one. -/
  first : ∀ d ∈ ds, ∃ before live after, ds = before ++ live :: after ∧ live.live = true ∧
    live.value = d.value ∧ (∀ e ∈ before, e.value ≠ d.value) ∧
    ∀ e ∈ after, e.value = d.value → e.live = false

/-- A value has a first member. -/
theorem exists_first_of_value {ds : List DeclaredMember} {d : DeclaredMember} (hd : d ∈ ds) :
    ∃ before first after, ds = before ++ first :: after ∧ first.value = d.value ∧
      ∀ e ∈ before, e.value ≠ d.value := by
  obtain ⟨first, hfirst⟩ : ∃ first, ds.find? (·.value == d.value) = some first :=
    Option.isSome_iff_exists.1 (List.find?_isSome.2 ⟨d, hd, beq_self_eq_true d.value⟩)
  obtain ⟨hvalue, before, after, hsplit, hbefore⟩ := List.find?_eq_some_iff_append.1 hfirst
  exact ⟨before, first, after, hsplit, by simpa using hvalue,
    fun e he => by simpa using hbefore e he⟩

theorem LiveAfter.firstsLive {ds : List DeclaredMember} (h : LiveAfter [] ds) : FirstsLive ds := by
  have hlive : ∀ before d after, ds = before ++ d :: after →
      (d.live = true ↔ ∀ e ∈ before, e.value ≠ d.value) := fun before d after hsplit => by
    simpa using h before d after hsplit
  refine ⟨hlive, List.pairwise_map.2 (List.pairwise_filter.2 ?_), fun d hd => ?_⟩
  · -- The later one of two members shows that it is not the first of its value.
    refine List.pairwise_iff_forall_sublist.2 fun {a b} hsub _ hb => ?_
    obtain ⟨front, back, rfl, ha, hback⟩ := List.cons_sublist_iff.1 hsub
    obtain ⟨between, after, rfl⟩ := List.append_of_mem (List.singleton_sublist.1 hback)
    rw [hlive (front ++ between) b after (by rw [List.append_assoc])] at hb
    exact hb a (List.mem_append_left between ha)
  · obtain ⟨before, first, after, hsplit, hvalue, hbefore⟩ := exists_first_of_value hd
    refine ⟨before, first, after, hsplit, (hlive before first after hsplit).2 ?_, hvalue, hbefore,
      fun e he heq => ?_⟩
    · rwa [hvalue]
    · obtain ⟨between, rest, rfl⟩ := List.append_of_mem he
      rw [← Bool.not_eq_true, hlive (before ++ first :: between) e rest (by simp [hsplit])]
      intro hnew
      exact hnew first (by simp) (hvalue.trans heq.symm)

/-! ## Bodies -/

theorem lineFeed_not_mem_caseLine (enumName : String) (live : Bool) {member : EnumMember}
    (h : '\n' ∉ member.name.toList) : '\n' ∉ (caseLine enumName live member).toList := by
  have hname := lineFeed_not_mem_memberName enumName h
  have hvalue := (isFlat_toString_int member.value).lineFeed_not_mem
  have hfixed : '\n' ∉ "".toList ∧ '\n' ∉ "// ".toList ∧ '\n' ∉ "case ".toList ∧
      '\n' ∉ " = ".toList ∧ '\n' ∉ " // ".toList := by decide
  cases live <;> simp only [caseLine, if_true, Bool.false_eq_true, if_false, String.toList_append,
    List.mem_append, hfixed, hname, hvalue, h, or_self, not_false_eq_true]

theorem lineFeed_not_mem_flagLine (enumName : String) {typeName : String}
    (htype : '\n' ∉ typeName.toList) {member : EnumMember} (h : '\n' ∉ member.name.toList) :
    '\n' ∉ (flagLine enumName typeName member).toList := by
  have hname := lineFeed_not_mem_memberName enumName h
  have hvalue := (isFlat_toString_int member.value).lineFeed_not_mem
  have hfixed : '\n' ∉ "public static let ".toList ∧ '\n' ∉ " = ".toList ∧
      '\n' ∉ "(rawValue: ".toList ∧ '\n' ∉ ")".toList := by decide
  simp only [toList_flagLine, List.mem_append, hfixed, htype, hname, hvalue, or_self,
    not_false_eq_true]

/-- The members that an enum declares. -/
def keptMembers (enumName : String) (members : List EnumMember) : List EnumMember :=
  members.filter fun m => !isOmitted enumName m.name

/-- Cases after members with some values declare all members that are kept, and those are live
whose values are new. -/
theorem exists_declaresMembers_caseSteps (scope : EnumScope) (enumName : String) (depth : Nat)
    {members : List EnumMember} (h : ∀ m ∈ members, '\n' ∉ m.name.toList) (used : List Int) :
    ∃ ds, DeclaresMembers scope (caseLine enumName) depth (keptMembers enumName members) ds
      (stepLines depth (caseSteps scope enumName used members)) ∧ LiveAfter used ds := by
  induction members generalizing used with
  | nil => exact ⟨[], .nil scope _ depth, by simp [LiveAfter]⟩
  | cons member rest ih =>
    have hrest : ∀ m ∈ rest, '\n' ∉ m.name.toList := fun m hm => h m (List.mem_cons_of_mem _ hm)
    have hmember := h member List.mem_cons_self
    rw [caseSteps, keptMembers, List.filter_cons]
    cases isOmitted enumName member.name with
    | true => exact ih hrest used
    | false =>
      obtain ⟨ds, hdeclares, hlive⟩ := ih hrest (member.value :: used)
      refine ⟨_, hdeclares.cons _ (lineFeed_not_mem_caseLine enumName _ hmember), .cons hlive ?_⟩
      simp [DeclaredMember.value]

/-- The flags of a bit field declare all members. -/
theorem exists_declaresMembers_flagSteps (scope : EnumScope) (enumName : String) (depth : Nat)
    (hname : '\n' ∉ enumName.toList) {members : List EnumMember}
    (h : ∀ m ∈ members, '\n' ∉ m.name.toList) :
    ∃ ds, DeclaresMembers scope (fun _ => flagLine enumName (swiftTypeName enumName)) depth members
      ds (stepLines depth (flagSteps scope enumName members)) ∧ ∀ d ∈ ds, d.live = true := by
  have htype := lineFeed_not_mem_swiftTypeName hname
  induction members with
  | nil => exact ⟨[], .nil scope _ depth, by simp⟩
  | cons member rest ih =>
    obtain ⟨ds, hdeclares, hlive⟩ := ih fun m hm => h m (List.mem_cons_of_mem _ hm)
    have hline := lineFeed_not_mem_flagLine enumName htype (h member List.mem_cons_self)
    rw [flagSteps, List.flatMap_cons, List.append_assoc, List.singleton_append, ← flagSteps]
    exact ⟨_, hdeclares.cons true hline, List.forall_mem_cons.2 ⟨rfl, hlive⟩⟩

/-- The body of an enum, as lines at a depth. The line of a member has its Swift name and its
value, that of a case also the name in the schema, behind a mark if the case is not live. -/
inductive EnumBody (scope : EnumScope) (enumName : String) (e : EnumDefinition) (depth : Nat) :
    List (List Char) → Prop where
  /-- The members that make a type an option set, and one flag for each member. -/
  | flags {ds : List DeclaredMember} {lines : List (List Char)} (bitfield : e.isBitfield = true)
      (declares : DeclaresMembers scope (fun _ m => "public static let " ++
        memberName enumName m.name ++ " = " ++ swiftTypeName enumName ++ "(rawValue: " ++
          toString m.value ++ ")") depth e.members ds lines)
      (live : ∀ d ∈ ds, d.live = true) :
      EnumBody scope enumName e depth (stepLines depth optionSetSteps ++ lines)
  /-- One case for each member that is kept, live for the first of each value. -/
  | cases {ds : List DeclaredMember} {lines : List (List Char)} (plain : e.isBitfield = false)
      (declares : DeclaresMembers scope (fun live m => (if live then "" else "// ") ++ "case " ++
        memberName enumName m.name ++ " = " ++ toString m.value ++ " // " ++ m.name) depth
          (keptMembers enumName e.members) ds lines)
      (live : FirstsLive ds) : EnumBody scope enumName e depth lines

theorem exists_enumBody (scope : EnumScope) (enumName : String) (e : EnumDefinition)
    (hname : '\n' ∉ enumName.toList) (hmembers : ∀ m ∈ e.members, '\n' ∉ m.name.toList)
    (depth : Nat) :
    ∃ body, enumBlock scope enumName e =
        .block (e.declKind.header (swiftTypeName enumName)) "" body ∧
      EnumBody scope enumName e depth (stepLines depth body) := by
  unfold enumBlock EnumDefinition.declKind
  cases hkind : e.isBitfield with
  | true =>
    obtain ⟨ds, hdeclares, hlive⟩ :=
      exists_declaresMembers_flagSteps scope enumName depth hname hmembers
    refine ⟨_, rfl, ?_⟩
    rw [stepLines_append]
    exact .flags hkind hdeclares hlive
  | false =>
    obtain ⟨ds, hdeclares, hlive⟩ :=
      exists_declaresMembers_caseSteps scope enumName depth hmembers []
    exact ⟨_, rfl, .cases hkind hdeclares hlive.firstsLive⟩

/-- The lines that declare an enum at a depth: its header, its members and its end. -/
inductive EnumLines (scope : EnumScope) (enumName : String) (e : EnumDefinition) (depth : Nat) :
    List (List Char) → Prop where
  | intro {body : List (List Char)}
      (members : '\n' ∉ enumName.toList → (∀ m ∈ e.members, '\n' ∉ m.name.toList) →
        EnumBody scope enumName e (depth + 1) body) :
      EnumLines scope enumName e depth
        (linesAt depth (e.declKind.header (swiftTypeName enumName) ++ " \x7b") ++ body ++
          [indented depth "\x7d".toList, []])

theorem enumLines_enumBlock (scope : EnumScope) (enumName : String) (e : EnumDefinition)
    (depth : Nat) :
    EnumLines scope enumName e depth (stepLines depth [enumBlock scope enumName e]) := by
  obtain ⟨body, hblock⟩ := enumBlock_eq scope enumName e
  have hmembers : '\n' ∉ enumName.toList → (∀ m ∈ e.members, '\n' ∉ m.name.toList) →
      EnumBody scope enumName e (depth + 1) (stepLines (depth + 1) body) := by
    intro hname hmembers
    obtain ⟨body', hblock', hbody⟩ := exists_enumBody scope enumName e hname hmembers (depth + 1)
    obtain ⟨-, -, rfl⟩ := Step.block.inj (hblock.symm.trans hblock')
    exact hbody
  have hclose : linesAt depth ("\x7d" ++ "") = [indented depth "\x7d".toList] :=
    linesAt_of_not_mem (by decide) depth
  rw [hblock, stepLines_cons, stepLines_nil, List.append_nil, Step.lines, hclose, List.append_assoc,
    List.singleton_append]
  exact .intro hmembers

/-- **An enum declares every member once, and of each value the first one live.** Whatever has
been written and at whatever depth, an enum with names on one line each appends its header, its
members and its end. -/
theorem enumBlock_declares_members (scope : EnumScope) (enumName : String) (e : EnumDefinition)
    (hname : '\n' ∉ enumName.toList) (hmembers : ∀ m ∈ e.members, '\n' ∉ m.name.toList)
    (w : Writer) :
    ∃ lines, EnumBody scope enumName e (w.depth + 1) lines ∧
      (w.runStep (enumBlock scope enumName e)).text = w.text ++ unlines (
        indented w.depth (e.declKind.header (swiftTypeName enumName) ++ " \x7b").toList ::
          lines ++ [indented w.depth "\x7d".toList, []]) := by
  have hkeyword : '\n' ∉ e.declKind.keyword.toList ∧ '\n' ∉ e.declKind.conformance.toList := by
    unfold EnumDefinition.declKind
    split <;> decide
  have hheader : '\n' ∉ (e.declKind.header (swiftTypeName enumName) ++ " \x7b").toList := by
    have hname := lineFeed_not_mem_swiftTypeName hname
    have hopen : '\n' ∉ " \x7b".toList := by decide
    simp only [DeclKind.header, String.toList_append, List.mem_append, hkeyword, hname, hopen,
      or_self, not_false_eq_true]
  obtain ⟨body, hblock, hbody⟩ := exists_enumBody scope enumName e hname hmembers (w.depth + 1)
  refine ⟨_, hbody, ?_⟩
  rw [hblock, Writer.text_runStep, Step.lines, linesAt_of_not_mem hheader,
    linesAt_of_not_mem (by decide)]
  simp only [List.append_assoc, List.cons_append, String.append_empty, List.nil_append]

/-- A member that is left out comes first with a value that two others share, and the name of the
last is documented twice. -/
theorem enumBlock_declares_members_of_alignment :
    let scope : EnumScope := .globals [{ name := "INLINE_ALIGNMENT_BOTTOM", text := "Low." },
      { name := "INLINE_ALIGNMENT_BOTTOM", text := "Lower." }]
    let e : EnumDefinition := {
      name := inlineAlignment
      members := [⟨"INLINE_ALIGNMENT_TO_TOP", 0⟩, ⟨"INLINE_ALIGNMENT_TOP", 0⟩,
        ⟨"INLINE_ALIGNMENT_BOTTOM", 0⟩] }
    let w : Writer := ⟨"extension Variant \x7b\n", 1⟩
    '\n' ∉ inlineAlignment.toList ∧ (∀ m ∈ e.members, '\n' ∉ m.name.toList) ∧
    ∃ lines, EnumBody scope inlineAlignment e (w.depth + 1) lines ∧
      (w.runStep (enumBlock scope inlineAlignment e)).text = w.text ++ unlines (
        indented w.depth (e.declKind.header (swiftTypeName inlineAlignment) ++ " \x7b").toList ::
          lines ++ [indented w.depth "\x7d".toList, []]) := by
  intro scope e w
  have hname : '\n' ∉ inlineAlignment.toList := by decide
  have hmembers : ∀ m ∈ e.members, '\n' ∉ m.name.toList := by decide
  exact ⟨hname, hmembers, enumBlock_declares_members scope inlineAlignment e hname hmembers w⟩

end SwiftDecls
