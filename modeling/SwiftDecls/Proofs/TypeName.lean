import SwiftDecls.Proofs.Text.Lines
import SwiftDecls.Proofs.Text.Pieces
import SwiftDecls.TypeName

/-!
# Names and references

Renaming works segment by segment, so the Swift name of a name made of two parts with a dot
between them is made of the parts' Swift names (`swiftTypeName_append_dot`). A reference to an
enum or a bit field is the Swift name of what follows its mark (`swiftType_of_mark`), and a
reference without a mark and without a width is the Swift name of the type it names
(`swiftType_of_noMark`). Renaming brings in no characters but those of a few words
(`of_mem_swiftTypeName`), gives no spelling that it would change again, and gives no spelling
twice, so names stay apart (`swiftTypeName_renamesStably`).
-/

set_option autoImplicit false

namespace SwiftDecls

open Text

/-- **The parts of a name are renamed apart.** -/
theorem swiftTypeName_append_dot (a b : String) :
    swiftTypeName (a ++ "." ++ b) = swiftTypeName a ++ "." ++ swiftTypeName b := by
  have hmap : ∀ s, (segments '.' s).map swiftSegment ≠ [] := by
    intro s
    rw [ne_eq, List.map_eq_nil_iff]
    exact segments_ne_nil '.' s
  have hsegments : segments '.' (a ++ "." ++ b) = segments '.' a ++ segments '.' b :=
    segments_append_sep '.' a b
  rw [swiftTypeName, hsegments, List.map_append, joinSegments_append '.' (hmap a) (hmap b)]
  rfl

/-- A segment is renamed exactly if the table has it. -/
theorem swiftSegment_eq_self_iff {segment : String} :
    swiftSegment segment = segment ↔ segment ∉ renamings.map (·.1) := by
  constructor
  · have htable : ∀ e ∈ renamings, swiftSegment e.1 ≠ e.1 := by decide
    intro hself hmem
    obtain ⟨e, he, rfl⟩ := List.mem_map.1 hmem
    exact htable e he hself
  · intro h
    have hlookup : renamings.lookup segment = none := by
      rw [List.lookup_eq_none_iff]
      intro e he
      rw [bne_iff_ne]
      rintro rfl
      exact h (List.mem_map_of_mem he)
    rw [swiftSegment, hlookup, Option.getD_none]

/-- A name without a dot is one segment. -/
theorem swiftTypeName_of_no_dot {name : String} (h : '.' ∉ name.toList) :
    swiftTypeName name = swiftSegment name := by
  rw [swiftTypeName, segments, List.splitOn_eq_singleton h, List.map_singleton, List.map_singleton,
    String.ofList_toList, joinSegments, List.map_singleton, List.intercalate_singleton,
    String.ofList_toList]

theorem of_mem_swiftSegment {p : Char → Prop} (words : ∀ e ∈ renamings, ∀ c ∈ e.2.toList, p c)
    {segment : String} (h : ∀ c ∈ segment.toList, p c) :
    ∀ c ∈ (swiftSegment segment).toList, p c := by
  unfold swiftSegment
  cases hlookup : renamings.lookup segment with
  | none => exact h
  | some word =>
    obtain ⟨before, after, hs, -⟩ := List.lookup_eq_some_iff.1 hlookup
    exact words (segment, word) (by simp [hs])

/-- A property of the characters of a name holds of its Swift name, if it holds of the dot and
of the words that renaming puts in. -/
theorem of_mem_swiftTypeName {p : Char → Prop} (dot : p '.')
    (words : ∀ e ∈ renamings, ∀ c ∈ e.2.toList, p c) {name : String}
    (h : ∀ c ∈ name.toList, p c) : ∀ c ∈ (swiftTypeName name).toList, p c := by
  intro c hc
  rw [swiftTypeName, joinSegments, String.toList_ofList] at hc
  rcases mem_or_mem_of_mem_intercalate hc with hdot | ⟨part, hpart, hc⟩
  · rwa [List.mem_singleton.1 hdot]
  · simp only [segments, List.map_map, List.mem_map, Function.comp] at hpart
    obtain ⟨segment, hsegment, rfl⟩ := hpart
    refine of_mem_swiftSegment words (fun d hd => ?_) c hc
    rw [String.toList_ofList] at hd
    exact h d ((of_mem_splitOn hsegment).2 d hd)

/-- The Swift name of a name on one line is on one line. -/
theorem lineFeed_not_mem_swiftTypeName {name : String} (h : '\n' ∉ name.toList) :
    '\n' ∉ (swiftTypeName name).toList := by
  have hwords : ∀ e ∈ renamings, '\n' ∉ e.2.toList := by decide
  have hall := of_mem_swiftTypeName (p := (· ≠ '\n')) (by decide)
    (fun e he c hc heq => hwords e he (heq ▸ hc)) fun c hc heq => h (heq ▸ hc)
  intro hmem
  exact hall '\n' hmem rfl

/-! ## Renaming is stable -/

/-- The segments that renaming gives other spellings. -/
def renamedSegments : List String := renamings.map (·.1)

/-- The spellings that renaming gives. -/
def renamedSpellings : List String := renamings.map (·.2)

example : renamedSpellings = ["Int", "Double", "Bool", "Void", "GArray", "GDictionary",
    "GodotError", "GString", "GType"] := rfl

/-- A segment has the spelling of the table, or its own. -/
theorem swiftSegment_cases (segment : String) :
    (segment, swiftSegment segment) ∈ renamings ∨ swiftSegment segment = segment := by
  unfold swiftSegment
  cases hlookup : renamings.lookup segment with
  | none => exact .inr rfl
  | some word =>
    obtain ⟨before, after, hs, -⟩ := List.lookup_eq_some_iff.1 hlookup
    exact .inl (by simp [hs])

/-- No spelling is renamed again. -/
theorem swiftSegment_swiftSegment (segment : String) :
    swiftSegment (swiftSegment segment) = swiftSegment segment := by
  have htable : ∀ e ∈ renamings, swiftSegment e.2 = e.2 := by decide
  rcases swiftSegment_cases segment with hmem | hself
  · exact htable _ hmem
  · rw [hself, hself]

/-- Two segments with one spelling are the same, unless one of them is a spelling that renaming
gives. -/
theorem swiftSegment_inj {a b : String} (ha : a ∉ renamedSpellings) (hb : b ∉ renamedSpellings)
    (h : swiftSegment a = swiftSegment b) : a = b := by
  have htable : ∀ e ∈ renamings, ∀ e' ∈ renamings, e.2 = e'.2 → e.1 = e'.1 := by decide
  rcases swiftSegment_cases a with hmem | hself <;> rcases swiftSegment_cases b with hmem' | hself'
  · exact htable _ hmem _ hmem' h
  · rw [h, hself'] at hmem
    exact absurd (List.mem_map_of_mem hmem) hb
  · rw [← h, hself] at hmem'
    exact absurd (List.mem_map_of_mem hmem') ha
  · rw [← hself, ← hself', h]

/-- Renaming keeps the segments of a name apart. -/
theorem segments_swiftTypeName (name : String) :
    segments '.' (swiftTypeName name) = (segments '.' name).map swiftSegment := by
  have hwords : ∀ e ∈ renamings, '.' ∉ e.2.toList := by decide
  apply segments_joinSegments
  · rw [ne_eq, List.map_eq_nil_iff]
    exact segments_ne_nil '.' name
  · intro part hpart
    obtain ⟨segment, hsegment, rfl⟩ := List.mem_map.1 hpart
    intro hdot
    refine of_mem_swiftSegment (p := (· ≠ '.')) (fun e he c hc heq => hwords e he (heq ▸ hc))
      (fun c hc heq => ?_) '.' hdot rfl
    exact not_mem_of_mem_segments hsegment (heq ▸ hc)

/-- A name is determined by its segments. -/
theorem eq_of_segments_eq (sep : Char) {a b : String} (h : segments sep a = segments sep b) :
    a = b := by
  rw [← joinSegments_segments sep a, h, joinSegments_segments]

theorem eq_of_map_eq {α β : Type} {f : α → β} {as bs : List α}
    (hf : ∀ a ∈ as, ∀ b ∈ bs, f a = f b → a = b) (h : as.map f = bs.map f) : as = bs := by
  induction as generalizing bs with
  | nil => exact (List.map_eq_nil_iff.1 h.symm).symm
  | cons a as ih =>
    cases bs with
    | nil => cases h
    | cons b bs =>
      obtain ⟨hfirst, hrest⟩ := List.cons.inj h
      have hcons : as = bs := ih
        (fun x hx y hy => hf x (List.mem_cons_of_mem _ hx) y (List.mem_cons_of_mem _ hy)) hrest
      rw [hf a List.mem_cons_self b List.mem_cons_self hfirst, hcons]

/-- A name is its own Swift name exactly if none of its segments is renamed. -/
theorem swiftTypeName_eq_self_iff {name : String} :
    swiftTypeName name = name ↔ ∀ segment ∈ segments '.' name, segment ∉ renamedSegments := by
  constructor
  · intro h segment hsegment
    have hmap : (segments '.' name).map swiftSegment = (segments '.' name).map id := by
      rw [← segments_swiftTypeName, h, List.map_id]
    exact swiftSegment_eq_self_iff.1 (List.map_inj_left.1 hmap segment hsegment)
  · intro h
    apply eq_of_segments_eq '.'
    rw [segments_swiftTypeName]
    refine (List.map_congr_left fun segment hsegment => ?_).trans (List.map_id _)
    exact swiftSegment_eq_self_iff.2 (h segment hsegment)

/-- A way of renaming names segment by segment that is done after one step. -/
structure RenamesStably (rename : String → String) : Prop where
  /-- The two sides of a dot are renamed apart. -/
  apart : ∀ a b, rename (a ++ "." ++ b) = rename a ++ "." ++ rename b
  /-- A second time changes nothing. -/
  again : ∀ a, rename (rename a) = rename a
  /-- Names in which nothing is to be renamed are kept, and no others. -/
  kept_iff : ∀ a, rename a = a ↔ ∀ segment ∈ segments '.' a, segment ∉ renamedSegments
  /-- Two names become one only if one of them has a segment that is a new spelling. -/
  injective : ∀ a b, (∀ segment ∈ segments '.' a, segment ∉ renamedSpellings) →
    (∀ segment ∈ segments '.' b, segment ∉ renamedSpellings) → rename a = rename b → a = b

/-- **Swift names are stable, and no two types get one name**, as long as no type of the schema
has the new name of another one. -/
theorem swiftTypeName_renamesStably : RenamesStably swiftTypeName := by
  constructor
  · exact swiftTypeName_append_dot
  · intro a
    apply eq_of_segments_eq '.'
    rw [segments_swiftTypeName, segments_swiftTypeName, List.map_map]
    exact List.map_congr_left fun segment _ => swiftSegment_swiftSegment segment
  · exact fun a => swiftTypeName_eq_self_iff
  · intro a b ha hb h
    have hmap : (segments '.' a).map swiftSegment = (segments '.' b).map swiftSegment := by
      rw [← segments_swiftTypeName, h, segments_swiftTypeName]
    apply eq_of_segments_eq '.'
    exact eq_of_map_eq (fun s hs t ht => swiftSegment_inj (ha s hs) (hb t ht)) hmap

/-- Empty segments at both ends, and two that are renamed. -/
theorem swiftTypeName_renamesStably_of_array : swiftTypeName ".Array.int." = ".GArray.Int." ∧
    ∀ b, (∀ segment ∈ segments '.' b, segment ∉ renamedSpellings) →
      swiftTypeName b = ".GArray.Int." → b = ".Array.int." := by
  have hname : swiftTypeName ".Array.int." = ".GArray.Int." := by decide
  have ha : ∀ segment ∈ segments '.' ".Array.int.", segment ∉ renamedSpellings := by decide
  refine ⟨hname, fun b hb h => ?_⟩
  exact swiftTypeName_renamesStably.injective b ".Array.int." hb ha (h.trans hname.symm)

/-! ## References -/

/-- What references to enums and to bit fields start with. -/
def enumMarks : List String := ["enum::", "bitfield::"]

theorem dropMark?_of_mark {mark : String} (h : mark ∈ enumMarks) (name : String) :
    (dropPrefix? enumMark (mark ++ name).toList <|>
      dropPrefix? bitfieldMark (mark ++ name).toList) = some name.toList := by
  rcases List.mem_cons.1 h with rfl | h
  · have henum : ("enum::" ++ name).toList = enumMark ++ name.toList := String.toList_append
    rw [henum, dropPrefix?_append]
    rfl
  · obtain rfl := List.mem_singleton.1 h
    have hbitfield : ("bitfield::" ++ name).toList = bitfieldMark ++ name.toList :=
      String.toList_append
    have hnot : ¬ enumMark <+: bitfieldMark ++ name.toList := by
      rintro ⟨rest, hrest⟩
      exact absurd (List.cons.inj hrest).1 (by decide)
    rw [hbitfield, dropPrefix?_eq_none_iff.2 hnot, dropPrefix?_append]
    rfl

theorem TypeRef.read_of_mark {mark : String} (h : mark ∈ enumMarks) (name : String) :
    TypeRef.read (mark ++ name).toList = .enumeration name := by
  rw [TypeRef.read, dropMark?_of_mark h]
  simp

/-- A reference to an enum or a bit field is the Swift name of what follows the mark. -/
theorem swiftType_of_mark {mark : String} (h : mark ∈ enumMarks) (isBuiltin : String → Bool)
    (name : String) (width : Option String) :
    swiftType isBuiltin (mark ++ name) width = swiftTypeName name := by
  rw [swiftType, TypeRef.read_of_mark h, TypeRef.swift]

/-- A type of the schema that is neither a reference to an enum nor an array. -/
structure HasNoMark (spelling : String) : Prop where
  enum : ¬ enumMark <+: spelling.toList
  bitfield : ¬ bitfieldMark <+: spelling.toList
  array : ¬ arrayMark <+: spelling.toList

theorem TypeRef.read_of_noMark {spelling : String} (h : HasNoMark spelling) :
    TypeRef.read spelling.toList = .named spelling := by
  rw [TypeRef.read, dropPrefix?_eq_none_iff.2 h.enum, dropPrefix?_eq_none_iff.2 h.bitfield]
  split
  · rename_i hsome
    simp at hsome
  · split
    · rename_i helement
      rw [dropPrefix?_eq_none_iff.2 h.array] at helement
      cases helement
    · rw [String.ofList_toList]

/-- A reference without a mark and a width is the Swift name of the type it names. -/
theorem swiftType_of_noMark {spelling : String} (h : HasNoMark spelling)
    (isBuiltin : String → Bool) : swiftType isBuiltin spelling none = swiftTypeName spelling := by
  rw [swiftType, TypeRef.read_of_noMark h, TypeRef.swift]
  simp

end SwiftDecls
