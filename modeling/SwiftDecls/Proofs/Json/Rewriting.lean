import Mathlib.Data.List.Nodup
import Mathlib.Data.List.Pairwise
import Mathlib.Logic.Relation
import SwiftDecls.Proofs.Json.Records

/-!
# Rewriting values

A decoder gives a value a shape: it says where in the value there are lists and records, and which
members a record has. A step that is taken at records (`Within`) can then be taken at any record
that is decoded as one, at any depth. If every record decodes to the same after the step, so does
the whole value (`Respects`), and this is proved once for the combinators that decoders are built
with.

The members of a record's map can be put in another order, and members can be inserted that the
record does not have, left out where they say nothing, or added where they say nothing (`Edit`). No
lawful record minds (`sound_edit`), where being lawful means that its members have different names
and are stored in different places.
-/

set_option autoImplicit false

namespace SwiftDecls.Json

variable {α β γ : Type}

/-! ## Lawful records -/

/-- It does not matter which of two fields is put into a record first. -/
def FieldRule.Commutes (f g : FieldRule α) : Prop :=
  ∀ v w a c, (∃ b, f.put v a = .ok b ∧ g.put w b = .ok c) ↔
    ∃ b, g.put w a = .ok b ∧ f.put v b = .ok c

instance : Std.Symm (FieldRule.Commutes (α := α)) where
  symm _ _ h v w a c := (h w v a c).symm

/-- The fields of a record have different names and do not disturb one another, nothing broken is
put into them, and null in a field that may be missing says the same as nothing. -/
structure RecordRule.Lawful (rule : RecordRule α) : Prop where
  names : (rule.fields.map (·.name)).Nodup
  whole : ∀ f ∈ rule.fields, f.WholeOnly
  commutes : rule.fields.Pairwise FieldRule.Commutes
  null : ∀ f ∈ rule.fields, f.required = false → f.put .null rule.start = .ok rule.start

/-- Fields that are stored in different places. -/
theorem FieldRule.commutes_of_set {f g : FieldRule α} {d : Decoder β} {d' : Decoder γ}
    {set : β → α → α} {set' : γ → α → α} (hf : f.put = fun v a => return set (← d v) a)
    (hg : g.put = fun v a => return set' (← d' v) a)
    (h : ∀ x y a, set' y (set x a) = set x (set' y a)) : f.Commutes g := by
  intro v w a c
  simp only [hf, hg, bind_eq_ok_iff, pure, Except.pure, Except.ok.injEq]
  constructor
  · rintro ⟨_, ⟨x, hx, rfl⟩, y, hy, rfl⟩
    exact ⟨_, ⟨y, hy, rfl⟩, x, hx, (h x y a).symm⟩
  · rintro ⟨_, ⟨y, hy, rfl⟩, x, hx, rfl⟩
    exact ⟨_, ⟨x, hx, rfl⟩, y, hy, h x y a⟩

namespace RecordRule

variable {rule : RecordRule α} {entries entries' before after : List (StringLiteral × Value)}
  {a : α} {f : FieldRule α} {v v' : Value}

theorem Lawful.wholeOnly_decoder (h : rule.Lawful) : rule.decoder.WholeOnly :=
  RecordRule.wholeOnly_decoder h.whole

theorem field?_name (h : rule.Lawful) (hf : f ∈ rule.fields) :
    rule.field? ⟨some f.name⟩ = some f := by
  have hfind : (rule.fields.find? (·.name == f.name)).isSome = true :=
    List.find?_isSome.2 ⟨f, hf, by simp⟩
  obtain ⟨g, hg⟩ := Option.isSome_iff_exists.1 hfind
  have hname : g.name = f.name := by simpa using List.find?_some hg
  have heq : g = f := List.inj_on_of_nodup_map h.names (List.mem_of_find?_eq_some hg) hf hname
  rw [← heq] at hg ⊢
  exact hg

/-- **The order of a map's entries does not matter.** -/
theorem MapFits.perm (h : rule.Lawful) (hperm : entries.Perm entries')
    (hfits : rule.MapFits entries a) : rule.MapFits entries' a := by
  have hknown : (rule.known entries).Perm (rule.known entries') := hperm.filterMap _
  have hnames : (namesOf (rule.known entries)).Perm (namesOf (rule.known entries')) := hknown.map _
  refine ⟨fun e he => hfits.keys e (hperm.mem_iff.2 he),
    fun e he => hfits.others e (hperm.mem_iff.2 he), hnames.nodup_iff.1 hfits.distinct,
    fun g hg hrequired => hnames.mem_iff.1 (hfits.complete g hg hrequired), ?_⟩
  refine foldlM_perm hknown hfits.distinct ?_ hfits.puts
  rintro ⟨f, v⟩ hf ⟨g, w⟩ hg hne b b' c hfirst hsecond
  obtain ⟨e, -, hfield, -⟩ := mem_known_iff.1 hf
  obtain ⟨e', -, hfield', -⟩ := mem_known_iff.1 hg
  have hcommutes : f.Commutes g := by
    refine h.commutes.forall (name_of_field? hfield).1 (name_of_field? hfield').1 ?_
    rintro rfl
    exact hne rfl
  exact (hcommutes v w b c).1 ⟨b', hfirst, hsecond⟩

theorem mapFits_middle (h : rule.Lawful) {e : StringLiteral × Value} :
    rule.MapFits (before ++ e :: after) a ↔ rule.MapFits (e :: (before ++ after)) a :=
  ⟨.perm h List.perm_middle, .perm h List.perm_middle.symm⟩

/-- An entry that names no field is a record's entry if it can be skipped. -/
theorem mapFits_cons_of_other {e : StringLiteral × Value} (hfield : rule.field? e.1 = none) :
    rule.MapFits (e :: entries) a ↔
      e.1.text?.isSome = true ∧ e.2.IsWhole ∧ rule.MapFits entries a := by
  have hknown := known_cons_of_other hfield entries
  constructor
  · rintro ⟨hkeys, hothers, hdistinct, hcomplete, hputs⟩
    rw [hknown] at hdistinct hcomplete hputs
    obtain ⟨hkey, hkeys⟩ := List.forall_mem_cons.1 hkeys
    obtain ⟨hother, hothers⟩ := List.forall_mem_cons.1 hothers
    exact ⟨hkey, hother hfield, hkeys, hothers, hdistinct, hcomplete, hputs⟩
  · rintro ⟨hkey, hother, hkeys, hothers, hdistinct, hcomplete, hputs⟩
    rw [← hknown] at hdistinct hcomplete hputs
    exact ⟨List.forall_mem_cons.2 ⟨hkey, hkeys⟩, List.forall_mem_cons.2 ⟨fun _ => hother, hothers⟩,
      hdistinct, hcomplete, hputs⟩

/-- An entry that names a field is a record's entry if no other one names the field. -/
theorem mapFits_cons_of_field (h : rule.Lawful) (hf : f ∈ rule.fields) :
    rule.MapFits ((⟨some f.name⟩, v) :: entries) a ↔
      f.name ∉ namesOf (rule.known entries) ∧ (∀ e ∈ entries, e.1.text?.isSome = true) ∧
        (∀ e ∈ entries, rule.field? e.1 = none → e.2.IsWhole) ∧
        (namesOf (rule.known entries)).Nodup ∧
        (∀ g ∈ rule.fields, g.required = true →
          g.name = f.name ∨ g.name ∈ namesOf (rule.known entries)) ∧
        ∃ b, f.put v rule.start = .ok b ∧ putAll (rule.known entries) b = .ok a := by
  have hfield : rule.field? ⟨some f.name⟩ = some f := field?_name h hf
  have hknown : rule.known ((⟨some f.name⟩, v) :: entries) = (f, v) :: rule.known entries :=
    known_cons_of_field hfield entries
  have hputs : putAll ((f, v) :: rule.known entries) rule.start = .ok a ↔
      ∃ b, f.put v rule.start = .ok b ∧ putAll (rule.known entries) b = .ok a :=
    foldlM_cons_eq_ok_iff
  have hnames : namesOf ((f, v) :: rule.known entries) =
      f.name :: namesOf (rule.known entries) := rfl
  constructor
  · intro hfits
    have hothers := (List.forall_mem_cons.1 hfits.others).2
    have hkeys := (List.forall_mem_cons.1 hfits.keys).2
    have hdistinct := hfits.distinct
    have hcomplete := hfits.complete
    rw [hknown, hnames] at hdistinct hcomplete
    obtain ⟨hnew, hdistinct⟩ := List.nodup_cons.1 hdistinct
    exact ⟨hnew, hkeys, hothers, hdistinct,
      fun g hg hrequired => List.mem_cons.1 (hcomplete g hg hrequired),
      hputs.1 (hknown ▸ hfits.puts)⟩
  · rintro ⟨hnew, hkeys, hothers, hdistinct, hcomplete, hfirst⟩
    refine ⟨List.forall_mem_cons.2 ⟨rfl, hkeys⟩, List.forall_mem_cons.2 ⟨fun hnone => ?_, hothers⟩,
      ?_, fun g hg hrequired => ?_, ?_⟩
    · rw [hfield] at hnone
      cases hnone
    · rw [hknown, hnames]
      exact List.nodup_cons.2 ⟨hnew, hdistinct⟩
    · rw [hknown, hnames]
      exact List.mem_cons.2 (hcomplete g hg hrequired)
    · rw [hknown]
      exact hputs.2 hfirst

/-- A field that may be missing is null or not there. -/
theorem mapFits_cons_null (h : rule.Lawful) (hf : f ∈ rule.fields) (hoptional : f.required = false) :
    rule.MapFits ((⟨some f.name⟩, .null) :: entries) a ↔
      f.name ∉ namesOf (rule.known entries) ∧ rule.MapFits entries a := by
  rw [mapFits_cons_of_field h hf]
  constructor
  · rintro ⟨hnew, hkeys, hothers, hdistinct, hcomplete, b, hput, hputs⟩
    rw [h.null f hf hoptional] at hput
    obtain rfl : rule.start = b := Except.ok.inj hput
    refine ⟨hnew, hkeys, hothers, hdistinct, fun g hg hrequired => ?_, hputs⟩
    rcases hcomplete g hg hrequired with hname | hmem
    · rw [List.inj_on_of_nodup_map h.names hg hf hname, hoptional] at hrequired
      cases hrequired
    · exact hmem
  · rintro ⟨hnew, hfits⟩
    exact ⟨hnew, hfits.keys, hfits.others, hfits.distinct,
      fun g hg hrequired => .inr (hfits.complete g hg hrequired), rule.start,
      h.null f hf hoptional, hfits.puts⟩

end RecordRule

/-! ## Shapes -/

/-- A member that a record can have. -/
structure Member (σ : Type) where
  name : String
  required : Bool
  shape : σ

/-- Where there are lists and records in a value, for a decoder. Null in the place of either has
no shape of its own. -/
inductive Shape where
  | plain
  | list (item : Shape)
  | record (members : List (Member Shape))

/-- The members of a record, from the shapes of its fields. -/
def RecordRule.members (rule : RecordRule α) (shapes : List Shape) : List (Member Shape) :=
  (rule.fields.zip shapes).map fun f => ⟨f.1.name, f.1.required, f.2⟩

/-- The shape of a record, from the shapes of its fields. -/
def RecordRule.shape (rule : RecordRule α) (shapes : List Shape) : Shape :=
  .record (rule.members shapes)

/-- A step is taken somewhere in a value: at a record, in an item of a list, or in a member of a
record, which is written as a map or as a list. -/
inductive Within (step : List (Member Shape) → Value → Value → Prop) : Shape → Value → Value → Prop
  | here {members : List (Member Shape)} {v v' : Value} (taken : step members v v') :
      Within step (.record members) v v'
  | item {s : Shape} {before after : List Value} {v v' : Value} (inside : Within step s v v') :
      Within step (.list s) (.list (before ++ v :: after) .closed)
        (.list (before ++ v' :: after) .closed)
  | entry {members : List (Member Shape)} {m : Member Shape}
      {before after : List (StringLiteral × Value)} {v v' : Value} (known : m ∈ members)
      (inside : Within step m.shape v v') :
      Within step (.record members) (.map (before ++ (⟨some m.name⟩, v) :: after) .closed)
        (.map (before ++ (⟨some m.name⟩, v') :: after) .closed)
  | place {members : List (Member Shape)} {m : Member Shape} {before after : List Value}
      {v v' : Value} (known : members[before.length]? = some m) (inside : Within step m.shape v v') :
      Within step (.record members) (.list (before ++ v :: after) .closed)
        (.list (before ++ v' :: after) .closed)

variable {step : List (Member Shape) → Value → Value → Prop}

/-- A step that records do not mind: whatever fields a lawful record has, it decodes to the same
after the step. -/
structure Sound (step : List (Member Shape) → Value → Value → Prop) : Prop where
  noNull : ∀ members v v', step members v v' → v ≠ .null ∧ v' ≠ .null
  keeps : ∀ (α : Type) (rule : RecordRule α) (shapes : List Shape), rule.Lawful →
    rule.fields.length = shapes.length → ∀ v v' a, step (rule.members shapes) v v' →
      rule.decoder v = .ok a → rule.decoder v' = .ok a

/-- A decoder does not mind a step anywhere in its value. -/
def Respects (step : List (Member Shape) → Value → Value → Prop) (d : Decoder α) (s : Shape) :
    Prop := ∀ v v' a, Within step s v v' → d v = .ok a → d v' = .ok a

/-- A field does not mind a step anywhere in its value. -/
def FieldRule.Respects (step : List (Member Shape) → Value → Value → Prop) (f : FieldRule α)
    (s : Shape) : Prop := ∀ v v' a b, Within step s v v' → f.put v a = .ok b → f.put v' a = .ok b

/-- A decoder that does not mind a step does not mind any number of them. -/
theorem Respects.steps {d : Decoder α} {s : Shape} (h : Respects step d s) {v v' : Value} {a : α}
    (hsteps : Relation.ReflTransGen (Within step s) v v') (hv : d v = .ok a) : d v' = .ok a := by
  induction hsteps with
  | refl => exact hv
  | tail _ hstep ih => exact h _ _ a hstep ih

theorem Within.ne_null (h : Sound step) {s : Shape} {v v' : Value} (hw : Within step s v v') :
    v ≠ .null ∧ v' ≠ .null := by
  cases hw with
  | here taken => exact h.noNull _ _ _ taken
  | item | entry | place => simp

theorem respects_plain (d : Decoder α) : Respects step d .plain := nofun

theorem Respects.optional (h : Sound step) {d : Decoder α} {s : Shape} (hd : Respects step d s) :
    Respects step (Decoder.optional d) s := by
  intro v v' a hw hv
  obtain ⟨hne, hne'⟩ := hw.ne_null h
  rw [optional_of_ne_null d hne, map_eq_ok_iff] at hv
  obtain ⟨x, hx, hxa⟩ := hv
  rw [optional_of_ne_null d hne', map_eq_ok_iff]
  exact ⟨x, hd v v' x hw hx, hxa⟩

/-- What is related to the items of a list stays related if one item is replaced. -/
theorem forall₂_replace_middle {R : α → β → Prop} {before after : List α} {x x' : α} {ys : List β}
    (hx : ∀ y, R x y → R x' y) (h : List.Forall₂ R (before ++ x :: after) ys) :
    List.Forall₂ R (before ++ x' :: after) ys := by
  induction before generalizing ys with
  | nil =>
    obtain ⟨y, ys, hy, hrest, rfl⟩ := List.forall₂_cons_left_iff.1 h
    exact .cons (hx y hy) hrest
  | cons w before ih =>
    obtain ⟨y, ys, hy, hrest, rfl⟩ := List.forall₂_cons_left_iff.1 h
    exact .cons hy (ih hrest)

theorem Respects.list {d : Decoder α} {s : Shape} (hd : Respects step d s) :
    Respects step (Decoder.list d) (.list s) := by
  intro v v' as hw hv
  cases hw with
  | @item _ before after v v' inside =>
    obtain ⟨items, hitems, has⟩ := list_eq_ok_iff.1 hv
    obtain rfl : before ++ v :: after = items := (Value.list.inj hitems).1
    exact list_eq_ok_iff.2 ⟨_, rfl, forall₂_replace_middle (fun a => hd v v' a inside) has⟩

theorem respects_must {d : Decoder β} {s : Shape} (hd : Respects step d s) (name : String)
    (set : β → α → α) : (FieldRule.must name d set).Respects step s := by
  intro v v' a b hw hput
  obtain ⟨x, hx, hset⟩ := FieldRule.put_must_eq_ok_iff.1 hput
  exact FieldRule.put_must_eq_ok_iff.2 ⟨x, hd v v' x hw hx, hset⟩

theorem respects_may {d : Decoder β} {s : Shape} (hd : Respects step d s) (name : String)
    (set : β → α → α) : (FieldRule.may name d set).Respects step s :=
  respects_must hd name set

/-- The value of one field in a record that is written as a list. -/
theorem putAll_zip_middle {fields : List (FieldRule α)} {f : FieldRule α} {before after : List Value}
    {v v' : Value} (hf : fields[before.length]? = some f)
    (hput : ∀ a b, f.put v a = .ok b → f.put v' a = .ok b) {a b : α}
    (h : putAll (fields.zip (before ++ v :: after)) a = .ok b) :
    putAll (fields.zip (before ++ v' :: after)) a = .ok b := by
  induction before generalizing fields a with
  | nil =>
    obtain ⟨g, fields, rfl⟩ : ∃ g fields', fields = g :: fields' := by
      cases fields with
      | nil => cases hf
      | cons g fields => exact ⟨g, fields, rfl⟩
    obtain rfl : g = f := Option.some.inj hf
    obtain ⟨b', hfirst, hrest⟩ := foldlM_cons_eq_ok_iff.1 h
    exact foldlM_cons_eq_ok_iff.2 ⟨b', hput a b' hfirst, hrest⟩
  | cons w before ih =>
    cases fields with
    | nil => cases hf
    | cons g fields =>
      obtain ⟨b', hfirst, hrest⟩ := foldlM_cons_eq_ok_iff.1 h
      exact foldlM_cons_eq_ok_iff.2 ⟨b', hfirst, ih hf hrest⟩

/-- A lawful record does not mind a step anywhere in it if its fields do not. -/
theorem RecordRule.respects_decoder (h : Sound step) {rule : RecordRule α} (hrule : rule.Lawful)
    {shapes : List Shape} (hshapes : rule.fields.length = shapes.length)
    (hfields : ∀ f ∈ rule.fields.zip shapes, f.1.Respects step f.2) :
    Respects step rule.decoder (rule.shape shapes) := by
  intro v v' a hw hv
  unfold RecordRule.shape at hw
  cases hw with
  | here taken => exact h.keeps α rule shapes hrule hshapes v v' a taken hv
  | @entry _ m before after v v' known inside =>
    obtain ⟨⟨f, s⟩, hmem, rfl⟩ := List.mem_map.1 known
    have hf : f ∈ rule.fields := (List.of_mem_zip hmem).1
    rcases decoder_eq_ok_iff.1 hv with ⟨entries, hentries, hfits⟩ | ⟨items, hitems, -⟩
    · obtain rfl : before ++ (⟨some f.name⟩, v) :: after = entries := (Value.map.inj hentries).1
      rw [mapFits_middle hrule, mapFits_cons_of_field hrule hf] at hfits
      obtain ⟨hnew, hkeys, hothers, hdistinct, hcomplete, b, hput, hputs⟩ := hfits
      refine decoder_eq_ok_iff.2 (.inl ⟨_, rfl, ?_⟩)
      rw [mapFits_middle hrule, mapFits_cons_of_field hrule hf]
      exact ⟨hnew, hkeys, hothers, hdistinct, hcomplete, b,
        hfields (f, s) hmem v v' _ _ inside hput, hputs⟩
    · cases hitems
  | @place _ m before after v v' known inside =>
    rw [RecordRule.members, List.getElem?_map, Option.map_eq_some_iff] at known
    obtain ⟨⟨f, s⟩, hzip, rfl⟩ := known
    have hmem : (f, s) ∈ rule.fields.zip shapes := List.mem_of_getElem? hzip
    have hf : rule.fields[before.length]? = some f := (List.getElem?_zip_eq_some.1 hzip).1
    rcases decoder_eq_ok_iff.1 hv with ⟨entries, hentries, -⟩ | ⟨items, hitems, hfits⟩
    · cases hentries
    · obtain rfl : before ++ v :: after = items := (Value.list.inj hitems).1
      refine decoder_eq_ok_iff.2 (.inr ⟨_, rfl, ?_, ?_, ?_⟩)
      · simpa using hfits.length
      · simpa using hfits.complete
      · exact putAll_zip_middle hf (fun a b => hfields (f, s) hmem v v' a b inside) hfits.puts

/-! ## Edits of a record -/

/-- A change of the entries of a record's map that changes nothing the record has. -/
inductive Edit (members : List (Member Shape)) : Value → Value → Prop
  | reorder {entries entries' : List (StringLiteral × Value)} (perm : entries.Perm entries') :
      Edit members (.map entries .closed) (.map entries' .closed)
  /-- An entry whose key is a text that names no member. -/
  | insert {before after : List (StringLiteral × Value)} {name : String} {value : Value}
      (other : ∀ m ∈ members, m.name ≠ name) (whole : value.IsWhole) :
      Edit members (.map (before ++ after) .closed)
        (.map (before ++ (⟨some name⟩, value) :: after) .closed)
  | dropNull {m : Member Shape} {before after : List (StringLiteral × Value)} (known : m ∈ members)
      (optional : m.required = false) :
      Edit members (.map (before ++ (⟨some m.name⟩, .null) :: after) .closed)
        (.map (before ++ after) .closed)
  | addNull {m : Member Shape} {before after : List (StringLiteral × Value)} (known : m ∈ members)
      (optional : m.required = false)
      (absent : ∀ e ∈ before ++ after, e.1.text? ≠ some m.name) :
      Edit members (.map (before ++ after) .closed)
        (.map (before ++ (⟨some m.name⟩, .null) :: after) .closed)

theorem mem_zip_of_mem {fields : List (FieldRule α)} {shapes : List Shape} {f : FieldRule α}
    (hlength : fields.length = shapes.length) (hf : f ∈ fields) :
    ∃ s, (f, s) ∈ fields.zip shapes := by
  obtain ⟨i, hi, rfl⟩ := List.getElem_of_mem hf
  exact ⟨shapes[i], List.mem_iff_getElem.2 ⟨i, by simp; omega, by simp⟩⟩

/-- **No lawful record minds an edit of its entries.** -/
theorem sound_edit : Sound Edit where
  noNull members v v' h := by
    cases h <;> simp
  keeps α rule shapes hrule hshapes v v' a h hv := by
    have hfits : ∀ {entries}, rule.decoder (.map entries .closed) = .ok a ↔ rule.MapFits entries a := by
      intro entries
      simp [RecordRule.decoder_eq_ok_iff]
    cases h with
    | reorder perm => exact hfits.2 ((hfits.1 hv).perm hrule perm)
    | @insert before after name value other whole =>
      have hfield : rule.field? ⟨some name⟩ = none := by
        refine List.find?_eq_none.2 fun f hf hname => ?_
        obtain ⟨s, hs⟩ := mem_zip_of_mem hshapes hf
        exact other _ (List.mem_map_of_mem hs) (beq_iff_eq.1 hname)
      rw [hfits, RecordRule.mapFits_middle hrule, RecordRule.mapFits_cons_of_other hfield]
      exact ⟨rfl, whole, hfits.1 hv⟩
    | dropNull known optional =>
      obtain ⟨⟨f, s⟩, hmem, rfl⟩ := List.mem_map.1 known
      have hf : f ∈ rule.fields := (List.of_mem_zip hmem).1
      rw [hfits, RecordRule.mapFits_middle hrule,
        RecordRule.mapFits_cons_null hrule hf optional] at hv
      exact hfits.2 hv.2
    | addNull known optional absent =>
      obtain ⟨⟨f, s⟩, hmem, rfl⟩ := List.mem_map.1 known
      have hf : f ∈ rule.fields := (List.of_mem_zip hmem).1
      rw [hfits, RecordRule.mapFits_middle hrule,
        RecordRule.mapFits_cons_null hrule hf optional]
      refine ⟨fun hname => ?_, hfits.1 hv⟩
      obtain ⟨⟨g, w⟩, hg, hname⟩ := List.mem_map.1 hname
      obtain ⟨e, he, hfield, -⟩ := RecordRule.mem_known_iff.1 hg
      refine absent e he ?_
      rw [(RecordRule.name_of_field? hfield).2]
      exact congrArg some hname

end SwiftDecls.Json
