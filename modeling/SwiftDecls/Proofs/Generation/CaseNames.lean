import SwiftDecls.Proofs.Declarations.Members
import SwiftDecls.Proofs.Generation.Counts
import SwiftDecls.Proofs.SchemaNames

/-!
# The identifiers of cases

Swift refuses an enum in which two cases have one identifier. Which identifiers the live cases have
is read off the text of the declaration (`liveIdentifiers`). Values are told apart, identifiers are
not: a member that repeats the name of its enum and one that does not can have one short name, and
then both are live under one identifier (`side_left_twice`). With names as the schema has them this
is the only reason, since nothing else about a name gets lost (`liveIdentifiers_nodup_iff`).
-/

set_option autoImplicit false

namespace SwiftDecls

open Source Text Naming

/-! ## Reading identifiers off a declaration -/

/-- The identifier of a live case, if a line declares one. -/
def liveIdentifier? (line : List Char) : Option (List Char) :=
  (dropPrefix? "case ".toList (line.dropWhile (· == ' '))).map fun rest => rest.takeWhile (· != ' ')

/-- The identifiers of the live cases in the declaration of an enum. -/
def liveIdentifiers (scope : EnumScope) (enumName : String) (e : EnumDefinition) :
    List (List Char) :=
  (linesInside (e.declKind.header (swiftTypeName enumName))
    (render 0 [enumBlock scope enumName e])).filterMap liveIdentifier?

theorem liveIdentifier?_indented (depth : Nat) (line : List Char) :
    liveIdentifier? (indented depth line) = liveIdentifier? line := by
  unfold indented
  split
  · rename_i hempty
    rw [List.isEmpty_iff.1 hempty]
  · have hblank : ∀ c ∈ indentation depth, (c == ' ') = true := fun c hc => by
      simpa using blank_of_mem_indentation hc
    rw [liveIdentifier?, List.dropWhile_append_of_pos hblank, liveIdentifier?]

theorem liveIdentifier?_of_isDocLine {line : List Char} (h : isDocLine line = true) :
    liveIdentifier? line = none := by
  obtain ⟨rest, hrest⟩ := List.isPrefixOf_iff_prefix.1 h
  rw [liveIdentifier?, ← hrest]
  rfl

theorem blank_not_mem_memberName (enumName : String) {member : String} (h : IsSchemaName member) :
    ' ' ∉ (memberName enumName member).toList := by
  have hstem : ∀ c ∈ (memberStem enumName member).toList, c ≠ ' ' := fun c hc heq =>
    not_mem_of_isWord (isWord_memberStem enumName h) (by decide) (by decide) (heq ▸ hc)
  exact fun hmem => of_mem_escape (by decide) hstem ' ' hmem rfl

/-- The line of a case shows its identifier if the case is live. -/
theorem liveIdentifier?_caseLine (enumName : String) (live : Bool) {member : EnumMember}
    (h : IsSchemaName member.name) :
    liveIdentifier? (caseLine enumName live member).toList =
      if live then some (memberName enumName member.name).toList else none := by
  cases live with
  | false =>
    rw [caseLine, if_neg (by simp), String.append_assoc, String.append_assoc, String.append_assoc,
      String.append_assoc, String.append_assoc, String.toList_append]
    rfl
  | true =>
    have hline : (caseLine enumName true member).toList = "case ".toList ++
        ((memberName enumName member.name).toList ++ ' ' :: ("= ".toList ++
          ((toString member.value).toList ++ (" // ".toList ++ member.name.toList)))) := by
      simp only [caseLine, if_true, String.toList_append, List.append_assoc]
      rfl
    have hname : ∀ c ∈ (memberName enumName member.name).toList, (c != ' ') = true := by
      intro c hc
      rw [bne_iff_ne]
      rintro rfl
      exact blank_not_mem_memberName enumName h hc
    have hcode : ∀ rest, ("case ".toList ++ rest).dropWhile (· == ' ') = "case ".toList ++ rest :=
      fun _ => rfl
    rw [liveIdentifier?, hline, hcode, dropPrefix?_eq_some_iff.2 rfl, Option.map_some,
      List.takeWhile_append_of_pos hname, List.takeWhile_cons_of_neg (by simp), List.append_nil]
    rfl

/-- The lines of a case show its identifier if the case is live, whatever its documentation. -/
theorem filterMap_lines (owner : Option String) (enumName : String) (depth : Nat)
    {d : DeclaredMember} (h : IsSchemaName d.member.name) :
    (d.lines owner (caseLine enumName) depth).filterMap liveIdentifier? =
      if d.live then [(memberName enumName d.member.name).toList] else [] := by
  have hcode : [indented depth (caseLine enumName d.live d.member).toList].filterMap
      liveIdentifier? = if d.live then [(memberName enumName d.member.name).toList] else [] := by
    rw [List.filterMap_cons, liveIdentifier?_indented, liveIdentifier?_caseLine enumName _ h]
    cases d.live <;> rfl
  rw [DeclaredMember.lines, List.filterMap_append, hcode]
  cases d.doc with
  | none => rfl
  | some constant =>
    rw [List.filterMap_eq_nil_iff.2 fun l hl => ?_, List.nil_append]
    exact liveIdentifier?_of_isDocLine (isDocLine_of_mem_docComment hl)

/-- The lines of an enum show the identifiers of its live cases. -/
theorem filterMap_flatMap_lines (owner : Option String) (enumName : String) (depth : Nat)
    {ds : List DeclaredMember} (h : ∀ d ∈ ds, IsSchemaName d.member.name) :
    (ds.flatMap (·.lines owner (caseLine enumName) depth)).filterMap liveIdentifier? =
      (ds.filter (·.live)).map fun d => (memberName enumName d.member.name).toList := by
  induction ds with
  | nil => rfl
  | cons d rest ih =>
    obtain ⟨hd, hrest⟩ := List.forall_mem_cons.1 h
    rw [List.flatMap_cons, List.filterMap_append, filterMap_lines owner enumName depth hd, ih hrest,
      List.filter_cons]
    cases d.live <;> rfl

/-! ## Cases with one identifier -/

/-- The live cases of an enum and their identifiers. -/
structure IdentifiesCases (enumName : String) (members : List EnumMember)
    (identifiers : List (List Char)) (ds : List DeclaredMember) : Prop where
  /-- The members that are kept, with the first one of each value live. -/
  members : ds.map (·.member) = keptMembers enumName members
  live : FirstsLive ds
  /-- Every live case has one identifier. -/
  shown : identifiers =
    (ds.filter (·.live)).map fun d => (memberName enumName d.member.name).toList
  /-- Identifiers are told apart as short names are. -/
  distinct_iff : identifiers.Nodup ↔ ((ds.filter (·.live)).map fun d =>
    shortName enumName.toList d.member.name.toList).Nodup

/-- Images are told apart alike if two maps tell the same elements apart. -/
theorem nodup_map_congr {α β γ : Type} {f : α → β} {g : α → γ} {as : List α}
    (h : ∀ a ∈ as, ∀ b ∈ as, f a = f b ↔ g a = g b) : (as.map f).Nodup ↔ (as.map g).Nodup := by
  rw [List.Nodup, List.Nodup, List.pairwise_map, List.pairwise_map]
  exact List.Pairwise.iff_of_mem fun ha hb => not_congr (h _ ha _ hb)

/-- **Live cases have different identifiers exactly if their members have different short names.**
This is so for every enum whose members are named as the schema names them, whatever the enum is
called. -/
theorem liveIdentifiers_nodup_iff (scope : EnumScope) (enumName : String) (e : EnumDefinition)
    (plain : e.isBitfield = false) (hnames : ∀ m ∈ e.members, IsSchemaName m.name) :
    ∃ ds, IdentifiesCases enumName e.members (liveIdentifiers scope enumName e) ds := by
  have hlines : ∀ m ∈ e.members, '\n' ∉ m.name.toList := fun m hm =>
    not_mem_of_isWord (hnames m hm).spelled.isWord (by decide) (by decide)
  obtain ⟨ds, hdeclares, hlive⟩ := exists_declaresMembers_caseSteps scope enumName 1 hlines []
  have hds : ∀ d ∈ ds, IsSchemaName d.member.name := by
    intro d hd
    have hmember := List.mem_map_of_mem (f := (·.member)) hd
    rw [hdeclares.members] at hmember
    exact hnames d.member (List.mem_filter.1 hmember).1
  have hidentifiers : liveIdentifiers scope enumName e =
      (ds.filter (·.live)).map fun d => (memberName enumName d.member.name).toList := by
    have hblock : enumBlock scope enumName e =
        .block (e.declKind.header (swiftTypeName enumName)) ""
          (caseSteps scope enumName [] e.members) := by
      rw [enumBlock, EnumDefinition.declKind, plain]
      rfl
    have hcomment : OnlyDocs [] := by simp [OnlyDocs]
    have hinside := linesInside_header hcomment e.declKind (swiftTypeName enumName)
      (caseSteps scope enumName [] e.members)
    rw [List.nil_append] at hinside
    rw [liveIdentifiers, hblock, hinside, List.filterMap_append, hdeclares.lines,
      filterMap_flatMap_lines _ _ _ hds]
    exact List.append_nil _
  refine ⟨ds, hdeclares.members, hlive.firstsLive, hidentifiers, ?_⟩
  rw [hidentifiers]
  refine nodup_map_congr fun d hd d' hd' => ?_
  rw [String.toList_inj]
  exact memberName_eq_iff enumName (hds d (List.mem_filter.1 hd).1)
    (hds d' (List.mem_filter.1 hd').1)

/-- Two members of which the second repeats the value of the first, and a third one of which a digit
would be left. -/
theorem liveIdentifiers_nodup_iff_of_key :
    let e : EnumDefinition := {
      name := "Key", members := [⟨"KEY_A", 1⟩, ⟨"A", 1⟩, ⟨"KEY0", 2⟩] }
    e.isBitfield = false ∧ (∀ m ∈ e.members, IsSchemaName m.name) ∧
      ∃ ds, IdentifiesCases "Key" e.members (liveIdentifiers (.globals []) "Key" e) ds := by
  intro e
  have hnames : ∀ m ∈ e.members, IsSchemaName m.name := by decide
  exact ⟨rfl, hnames, liveIdentifiers_nodup_iff (.globals []) "Key" e rfl hnames⟩

/-- A member that repeats the name of its enum and one that does not are live under one
identifier. -/
theorem side_left_twice :
    let e : EnumDefinition := { name := "Side", members := [⟨"SIDE_LEFT", 0⟩, ⟨"LEFT", 1⟩] }
    e.isBitfield = false ∧ (∀ m ∈ e.members, IsSchemaName m.name) ∧
      (e.members.map (·.name)).Nodup ∧
      liveIdentifiers (.globals []) "Side" e = ["left".toList, "left".toList] ∧
      ¬ (liveIdentifiers (.globals []) "Side" e).Nodup := by
  decide +kernel

end SwiftDecls
