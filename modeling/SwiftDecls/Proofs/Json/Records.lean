import SwiftDecls.Json.Decode
import SwiftDecls.Proofs.Except
import SwiftDecls.Proofs.Json.Writing

/-!
# What decoders accept

A decoder that ends well has gone through the whole of a value, and nothing in it was broken. So it
accepts a text exactly if it accepts the value that the text spells (`decode_eq_ok_iff`), and what
holds of decoding can be said of values, without a word about texts.

A record is put together from values of its fields. What they are is read off a map
(`ofMap_eq_ok_iff`) or a list (`ofItems_eq_ok_iff`) in one and the same form, a list of fields with
their values, so it does not matter in which of the two ways the record is written.
-/

set_option autoImplicit false

namespace SwiftDecls.Json

open Number Text

variable {α β : Type}

/-! ## Values that can be skipped -/

theorem skipItems_eq_none_iff {items : List Value} :
    skipItems items = none ↔ ∀ v ∈ items, v.skipFault? = none := by
  induction items with
  | nil => simp [skipItems]
  | cons item items ih => simp [skipItems, ih]

theorem skipEntries_eq_none_iff {entries : List (StringLiteral × Value)} :
    skipEntries entries = none ↔ ∀ e ∈ entries, e.2.skipFault? = none := by
  induction entries with
  | nil => simp [skipEntries]
  | cons e entries ih => simp [skipEntries, ih]

theorem ListStop.fault?_eq_none_iff {stop : ListStop} : stop.fault? = none ↔ stop = .closed := by
  cases stop <;> simp [ListStop.fault?]

theorem MapStop.fault?_eq_none_iff {stop : MapStop} : stop.fault? = none ↔ stop = .closed := by
  cases stop with
  | noKey found => cases found <;> simp [MapStop.fault?]
  | _ => simp [MapStop.fault?]

theorem MapStop.skipFault?_eq_none_iff {stop : MapStop} :
    stop.skipFault? = none ↔ stop = .closed := by
  cases stop with
  | noKey found => cases found <;> simp [MapStop.skipFault?]
  | _ => simp [MapStop.skipFault?]

theorem isWhole_of_skipFault? (v : Value) (h : v.skipFault? = none) : v.IsWhole := by
  match v, h with
  | .null, _ => exact .null
  | .bool b, _ => exact .bool b
  | .number l, _ => exact .number l
  | .string l, _ => exact .string l
  | .list items stop, h =>
    rw [Value.skipFault?, Option.or_eq_none_iff, skipItems_eq_none_iff,
      ListStop.fault?_eq_none_iff] at h
    obtain ⟨hitems, rfl⟩ := h
    exact .list fun v hv => isWhole_of_skipFault? v (hitems v hv)
  | .map entries stop, h =>
    rw [Value.skipFault?, Option.or_eq_none_iff, skipEntries_eq_none_iff,
      MapStop.skipFault?_eq_none_iff] at h
    obtain ⟨hentries, rfl⟩ := h
    exact .map fun e he => isWhole_of_skipFault? e.2 (hentries e he)
  | .broken none, h => cases h
  | .broken (some _), h => cases h
termination_by sizeOf v
decreasing_by
  · have := List.sizeOf_lt_of_mem hv
    simp only [Value.list.sizeOf_spec]
    omega
  · have := List.sizeOf_lt_of_mem he
    have : sizeOf e = 1 + sizeOf e.1 + sizeOf e.2 := rfl
    simp only [Value.map.sizeOf_spec]
    omega

/-- A value can be skipped without a fault if nothing in it is broken. -/
theorem skipFault?_eq_none_iff {v : Value} : v.skipFault? = none ↔ v.IsWhole := by
  refine ⟨isWhole_of_skipFault? v, fun h => ?_⟩
  induction h with
  | null | bool | number | string => rfl
  | list _ ih => simpa [Value.skipFault?, ListStop.fault?, skipItems_eq_none_iff] using ih
  | map _ ih => simpa [Value.skipFault?, MapStop.skipFault?, skipEntries_eq_none_iff] using ih

theorem guardFault_eq_ok_iff {fault : Option Fault} {u : Unit} :
    guardFault fault = .ok u ↔ fault = none := by
  cases fault <;> simp [guardFault]

/-! ## Decoders of single values -/

/-- A decoder that accepts only values in which nothing is broken. -/
def Decoder.WholeOnly (d : Decoder α) : Prop := ∀ v a, d v = .ok a → v.IsWhole

theorem wrongKind_ne_ok (v : Value) (expected : String) (a : α) : wrongKind v expected ≠ .ok a := by
  unfold wrongKind
  cases v.kind <;> simp

/-- The only thing that is decoded as a string is a string with a text. -/
theorem string_eq_ok_iff {v : Value} {s : String} :
    Decoder.string v = .ok s ↔ v = .string ⟨some s⟩ := by
  unfold Decoder.string
  split
  · simp
  · simp
  · rename_i hsome hnone
    simp only [wrongKind_ne_ok, false_iff]
    exact hsome s

theorem wholeOnly_string : Decoder.WholeOnly Decoder.string := by
  intro v s h
  rw [string_eq_ok_iff.1 h]
  exact .string _

theorem wholeOnly_bool : Decoder.WholeOnly Decoder.bool := by
  intro v b h
  unfold Decoder.bool at h
  split at h
  · exact .bool _
  · exact absurd h (wrongKind_ne_ok _ _ _)

theorem wholeOnly_integer (least greatest : Int) (type : String) :
    Decoder.WholeOnly (Decoder.integer least greatest type) := by
  intro v n h
  unfold Decoder.integer at h
  split at h
  · exact .number _
  · exact absurd h (wrongKind_ne_ok _ _ _)

theorem wholeOnly_int64 : Decoder.WholeOnly Decoder.int64 := wholeOnly_integer _ _ _

theorem wholeOnly_map {d : Decoder α} (hd : d.WholeOnly) (f : α → β) :
    Decoder.WholeOnly fun v => (d v).map f := by
  intro v b h
  obtain ⟨a, ha, -⟩ := map_eq_ok_iff.1 h
  exact hd v a ha

theorem wholeOnly_nat32 : Decoder.WholeOnly Decoder.nat32 :=
  wholeOnly_map (wholeOnly_integer _ _ _) Int.toNat

theorem wholeOnly_nat64 : Decoder.WholeOnly Decoder.nat64 :=
  wholeOnly_map (wholeOnly_integer _ _ _) Int.toNat

theorem optional_of_ne_null (d : Decoder α) {v : Value} (h : v ≠ .null) :
    Decoder.optional d v = (d v).map some := by
  unfold Decoder.optional
  split
  · exact absurd rfl h
  · rfl

theorem wholeOnly_optional {d : Decoder α} (hd : d.WholeOnly) :
    Decoder.WholeOnly (Decoder.optional d) := by
  intro v a h
  by_cases hv : v = .null
  · rw [hv]
    exact .null
  · rw [optional_of_ne_null d hv] at h
    exact wholeOnly_map hd some v a h

/-- The values of a list are decoded one by one. -/
theorem list_eq_ok_iff {d : Decoder α} {v : Value} {as : List α} :
    Decoder.list d v = .ok as ↔
      ∃ items, v = .list items .closed ∧ List.Forall₂ (fun v a => d v = .ok a) items as := by
  unfold Decoder.list
  split
  · rename_i items stop
    simp only [bind_eq_ok_iff, mapM_eq_ok_iff, guardFault_eq_ok_iff, ListStop.fault?_eq_none_iff,
      pure, Except.pure, Except.ok.injEq, Value.list.injEq]
    constructor
    · rintro ⟨as, hitems, -, rfl, rfl⟩
      exact ⟨items, ⟨rfl, rfl⟩, hitems⟩
    · rintro ⟨items, ⟨rfl, rfl⟩, hitems⟩
      exact ⟨as, hitems, (), rfl, rfl⟩
  · rename_i hlist
    refine iff_of_false (wrongKind_ne_ok _ _ _) ?_
    rintro ⟨items, rfl, -⟩
    exact hlist _ _ rfl

theorem wholeOnly_list {d : Decoder α} (hd : d.WholeOnly) :
    Decoder.WholeOnly (Decoder.list d) := by
  intro v as h
  obtain ⟨items, rfl, hitems⟩ := list_eq_ok_iff.1 h
  exact .list ((List.forall₂_and_left _ _).1 (hitems.imp fun v a h => ⟨hd v a h, h⟩)).1

/-- **A text is decoded if it spells a value that is decoded.** -/
theorem decode_eq_ok_iff {d : Decoder α} (hd : d.WholeOnly) {text : String} {a : α} :
    decode d text = .ok a ↔ ∃ v, Spells v text ∧ d v = .ok a := by
  constructor
  · intro h
    obtain ⟨a', hvalue, hrest⟩ := bind_eq_ok_iff.1 h
    split at hrest
    · rename_i hempty
      obtain rfl : a' = a := Except.ok.inj hrest
      exact ⟨_, spells_parse (hd _ _ hvalue) (List.isEmpty_iff.1 hempty), hvalue⟩
    · cases hrest
  · rintro ⟨v, hspells, hvalue⟩
    rw [decode, parse_of_spells hspells]
    simp [hvalue, bind, Except.bind, pure, Except.pure]

/-- A text that spells a value is decoded as the value is. -/
theorem decode_of_spells {d : Decoder α} {v : Value} {text : String} (h : Spells v text) :
    decode d text = d v := by
  rw [decode, parse_of_spells h]
  cases d v <;> rfl

/-! ## Records -/

/-- Puts the values of fields into a record, one after the other. -/
def putAll (fields : List (FieldRule α × Value)) (a : α) : Except DecodeError α :=
  fields.foldlM (fun a f => f.1.put f.2 a) a

/-- The names of fields. -/
def namesOf (fields : List (FieldRule α × Value)) : List String := fields.map (·.1.name)

namespace RecordRule

variable (rule : RecordRule α)

/-- The field that a key names. -/
def field? (key : StringLiteral) : Option (FieldRule α) :=
  key.text?.bind fun name => rule.fields.find? (·.name == name)

/-- The fields that the entries of a map name, with their values. -/
def known (entries : List (StringLiteral × Value)) : List (FieldRule α × Value) :=
  entries.filterMap fun e => (rule.field? e.1).map (·, e.2)

/-- The entries of a map are a record: what they name that is no field can be skipped, no field
comes twice and no required one is missing, and the values of the fields make the record. -/
structure MapFits (entries : List (StringLiteral × Value)) (a : α) : Prop where
  keys : ∀ e ∈ entries, e.1.text?.isSome = true
  others : ∀ e ∈ entries, rule.field? e.1 = none → e.2.IsWhole
  distinct : (namesOf (rule.known entries)).Nodup
  complete : ∀ f ∈ rule.fields, f.required = true → f.name ∈ namesOf (rule.known entries)
  puts : putAll (rule.known entries) rule.start = .ok a

/-- The items of a list are a record: there are not too many of them, no required field is missing
at the end, and the values of the fields make the record. -/
structure ListFits (items : List Value) (a : α) : Prop where
  length : items.length ≤ rule.fields.length
  complete : ∀ f ∈ rule.fields.drop items.length, f.required = false
  puts : putAll (rule.fields.zip items) rule.start = .ok a

variable {rule} {entries : List (StringLiteral × Value)} {items : List Value} {a b : α}

theorem name_of_field? {key : StringLiteral} {f : FieldRule α} (h : rule.field? key = some f) :
    f ∈ rule.fields ∧ key = ⟨some f.name⟩ := by
  obtain ⟨text?⟩ := key
  cases text? with
  | none => cases h
  | some name =>
    have hname := List.find?_some h
    exact ⟨List.mem_of_find?_eq_some h, by rw [beq_iff_eq.1 hname]⟩

/-- An entry that names no field is skipped, if it can be. -/
theorem entry_of_other {d d' : Draft α} {e : StringLiteral × Value}
    (hfield : rule.field? e.1 = none) :
    rule.entry d e = .ok d' ↔ e.1.text?.isSome = true ∧ e.2.IsWhole ∧ d = d' := by
  obtain ⟨⟨text?⟩, v⟩ := e
  cases text? with
  | none => simp [entry, Decoder.string, bind, Except.bind]
  | some name =>
    have hfind : rule.fields.find? (·.name == name) = none := hfield
    have hentry : rule.entry d (⟨some name⟩, v) = (guardFault v.skipFault? >>= fun _ => .ok d) := by
      simp [entry, Decoder.string, hfind, bind, Except.bind, pure, Except.pure]
    simp [hentry, bind_eq_ok_iff, guardFault_eq_ok_iff, skipFault?_eq_none_iff]

/-- An entry that names a field is put into the record, if the field has not come yet. -/
theorem entry_of_field {d d' : Draft α} {e : StringLiteral × Value} {f : FieldRule α}
    (hfield : rule.field? e.1 = some f) :
    rule.entry d e = .ok d' ↔
      f.name ∉ d.seen ∧ ∃ a, f.put e.2 d.record = .ok a ∧ ⟨f.name :: d.seen, a⟩ = d' := by
  obtain ⟨key, v⟩ := e
  obtain ⟨-, hkey⟩ := name_of_field? hfield
  obtain rfl : key = ⟨some f.name⟩ := hkey
  have hfind : rule.fields.find? (·.name == f.name) = some f := hfield
  have hentry : rule.entry d (⟨some f.name⟩, v) =
      if f.name ∈ d.seen then .error (.data (.duplicateField f.name))
      else (f.put v d.record >>= fun a => .ok ⟨f.name :: d.seen, a⟩) := by
    simp [entry, Decoder.string, hfind, bind, Except.bind, pure, Except.pure]
  rw [hentry]
  by_cases hseen : f.name ∈ d.seen
  · simp [hseen]
  · simp [hseen, bind_eq_ok_iff]

theorem known_cons_of_other {e : StringLiteral × Value} (hfield : rule.field? e.1 = none)
    (entries : List (StringLiteral × Value)) :
    rule.known (e :: entries) = rule.known entries := by
  simp [known, hfield]

theorem known_cons_of_field {e : StringLiteral × Value} {f : FieldRule α}
    (hfield : rule.field? e.1 = some f) (entries : List (StringLiteral × Value)) :
    rule.known (e :: entries) = (f, e.2) :: rule.known entries := by
  simp [known, hfield]

/-- The entries of a map one after the other. -/
theorem foldlM_entry_eq_ok_iff {d d' : Draft α} :
    entries.foldlM rule.entry d = .ok d' ↔
      (∀ e ∈ entries, e.1.text?.isSome = true) ∧
      (∀ e ∈ entries, rule.field? e.1 = none → e.2.IsWhole) ∧
      (namesOf (rule.known entries)).Nodup ∧ (∀ n ∈ namesOf (rule.known entries), n ∉ d.seen) ∧
      d'.seen = (namesOf (rule.known entries)).reverse ++ d.seen ∧
      putAll (rule.known entries) d.record = .ok d'.record := by
  induction entries generalizing d with
  | nil =>
    constructor
    · intro h
      obtain rfl : d = d' := Except.ok.inj h
      exact ⟨nofun, nofun, .nil, nofun, rfl, rfl⟩
    · rintro ⟨-, -, -, -, hseen, hputs⟩
      have hrecord : d.record = d'.record := Except.ok.inj hputs
      obtain ⟨seen, record⟩ := d
      obtain rfl : d'.seen = seen := hseen
      obtain rfl : record = d'.record := hrecord
      rfl
  | cons e entries ih =>
    rw [foldlM_cons_eq_ok_iff]
    cases hfield : rule.field? e.1 with
    | none =>
      simp only [entry_of_other hfield, known_cons_of_other hfield, List.forall_mem_cons]
      constructor
      · rintro ⟨_, ⟨hkey, hwhole, rfl⟩, hrest⟩
        obtain ⟨hkeys, hothers, hbehind⟩ := ih.1 hrest
        exact ⟨⟨hkey, hkeys⟩, ⟨fun _ => hwhole, hothers⟩, hbehind⟩
      · rintro ⟨⟨hkey, hkeys⟩, ⟨hwhole, hothers⟩, hbehind⟩
        exact ⟨d, ⟨hkey, hwhole hfield, rfl⟩, ih.2 ⟨hkeys, hothers, hbehind⟩⟩
    | some f =>
      have hkey : e.1.text?.isSome = true := by rw [(name_of_field? hfield).2]; rfl
      simp only [entry_of_field hfield, known_cons_of_field hfield, List.forall_mem_cons, namesOf,
        List.map_cons, List.nodup_cons, putAll, foldlM_cons_eq_ok_iff, List.reverse_cons,
        List.append_assoc, List.singleton_append]
      constructor
      · rintro ⟨_, ⟨hseen, a, hput, rfl⟩, hrest⟩
        obtain ⟨hkeys, hothers, hdistinct, hfresh, hnames, hputs⟩ := ih.1 hrest
        refine ⟨⟨hkey, hkeys⟩, ⟨by simp [hfield], hothers⟩, ⟨fun hmem => ?_, hdistinct⟩,
          ⟨hseen, fun n hn => ?_⟩, hnames, a, hput, hputs⟩
        · exact hfresh _ hmem List.mem_cons_self
        · exact fun hmem => hfresh n hn (List.mem_cons_of_mem _ hmem)
      · rintro ⟨⟨-, hkeys⟩, ⟨-, hothers⟩, ⟨hnew, hdistinct⟩, ⟨hseen, hfresh⟩, hnames, a, hput, hputs⟩
        refine ⟨⟨f.name :: d.seen, a⟩, ⟨hseen, a, hput, rfl⟩, ih.2 ⟨hkeys, hothers, hdistinct,
          fun n hn hmem => ?_, hnames, hputs⟩⟩
        rcases List.mem_cons.1 hmem with rfl | hmem
        · exact hnew hn
        · exact hfresh n hn hmem

/-- **A record that is written as a map.** -/
theorem ofMap_eq_ok_iff {stop : MapStop} :
    rule.ofMap entries stop = .ok a ↔ stop = .closed ∧ rule.MapFits entries a := by
  simp only [ofMap, bind_eq_ok_iff, guardFault_eq_ok_iff, MapStop.fault?_eq_none_iff]
  constructor
  · rintro ⟨⟨seen, record⟩, hentries, u, hstop, hend⟩
    obtain ⟨hkeys, hothers, hdistinct, -, hseen, hputs⟩ := foldlM_entry_eq_ok_iff.1 hentries
    rw [List.append_nil] at hseen
    split at hend
    · cases hend
    · rename_i hmissing
      obtain rfl : record = a := Except.ok.inj hend
      refine ⟨hstop, hkeys, hothers, hdistinct, fun f hf hrequired => ?_, hputs⟩
      have hfield := List.find?_eq_none.1 hmissing f hf
      dsimp only at hfield hseen
      simpa [hrequired, hseen] using hfield
  · rintro ⟨hstop, hkeys, hothers, hdistinct, hcomplete, hputs⟩
    refine ⟨⟨(namesOf (rule.known entries)).reverse, a⟩, foldlM_entry_eq_ok_iff.2
      ⟨hkeys, hothers, hdistinct, by simp, by simp, hputs⟩, (), hstop, ?_⟩
    have hmissing : (rule.fields.find? fun f =>
        f.required && !(namesOf (rule.known entries)).reverse.contains f.name) = none := by
      refine List.find?_eq_none.2 fun f hf hrequired => ?_
      simp only [Bool.and_eq_true, Bool.not_eq_true', List.contains_reverse] at hrequired
      have hmem := hcomplete f hf hrequired.1
      simp [hmem] at hrequired
    rw [hmissing]
    rfl

/-- The items of a list from one place on. -/
theorem ofItems_from_eq_ok_iff (place : Nat) (fields : List (FieldRule α)) (items : List Value)
    (stop : ListStop) (a b : α) :
    rule.ofItems place fields items stop a = .ok b ↔
      stop = .closed ∧ items.length ≤ fields.length ∧
        (∀ f ∈ fields.drop items.length, f.required = false) ∧
        putAll (fields.zip items) a = .ok b := by
  fun_induction RecordRule.ofItems rule place fields items stop a with
  | case1 place a field fields item items ih =>
    simp only [bind_eq_ok_iff, ih, List.zip_cons_cons, putAll, foldlM_cons_eq_ok_iff,
      List.length_cons, Nat.add_le_add_iff_right, List.drop_succ_cons]
    constructor
    · rintro ⟨a', hput, hstop, hlength, hcomplete, hputs⟩
      exact ⟨hstop, hlength, hcomplete, a', hput, hputs⟩
    · rintro ⟨hstop, hlength, hcomplete, a', hput, hputs⟩
      exact ⟨a', hput, hstop, hlength, hcomplete, hputs⟩
  | case2 place a hstop => simp [hstop, putAll, pure, Except.pure]
  | case3 place a fault hstop => simp [hstop]
  | case4 place a fault hstop => simp [hstop]
  | case5 place a item items => simp
  | case6 place a fields hfields =>
    simp only [bind_eq_ok_iff, guardFault_eq_ok_iff, ListStop.fault?_eq_none_iff]
    cases hmissing : fields.findIdx? (·.required) with
    | none =>
      have hcomplete : ∀ f ∈ fields, f.required = false := List.findIdx?_eq_none_iff.1 hmissing
      simpa [putAll, pure, Except.pure] using fun _ _ => hcomplete
    | some i =>
      have hrequired : ¬∀ f ∈ fields, f.required = false := fun hcomplete => by
        rw [List.findIdx?_eq_none_iff.2 hcomplete] at hmissing
        cases hmissing
      simp [hrequired]

/-- **A record that is written as a list.** -/
theorem ofItems_eq_ok_iff {stop : ListStop} :
    rule.ofItems 0 rule.fields items stop rule.start = .ok a ↔
      stop = .closed ∧ rule.ListFits items a := by
  rw [ofItems_from_eq_ok_iff]
  constructor
  · rintro ⟨hstop, hlength, hcomplete, hputs⟩
    exact ⟨hstop, hlength, hcomplete, hputs⟩
  · rintro ⟨hstop, hlength, hcomplete, hputs⟩
    exact ⟨hstop, hlength, hcomplete, hputs⟩

/-- A record is written as a map or as a list. -/
theorem decoder_eq_ok_iff {v : Value} :
    rule.decoder v = .ok a ↔
      (∃ entries, v = .map entries .closed ∧ rule.MapFits entries a) ∨
        ∃ items, v = .list items .closed ∧ rule.ListFits items a := by
  unfold decoder
  split
  · rw [ofMap_eq_ok_iff]
    simp [eq_comm]
  · simp [ofItems_eq_ok_iff]
  · rename_i hmap hlist
    refine iff_of_false (wrongKind_ne_ok _ _ _) ?_
    rintro (⟨entries, rfl, -⟩ | ⟨items, rfl, -⟩)
    · exact hmap _ _ rfl
    · exact hlist _ _ rfl

end RecordRule

/-! ## Fields that accept nothing broken -/

/-- A field that accepts only values in which nothing is broken. -/
def FieldRule.WholeOnly (f : FieldRule α) : Prop := ∀ v a b, f.put v a = .ok b → v.IsWhole

theorem FieldRule.put_must_eq_ok_iff {name : String} {d : Decoder β} {set : β → α → α} {v : Value}
    {a b : α} : (FieldRule.must name d set).put v a = .ok b ↔ ∃ x, d v = .ok x ∧ set x a = b := by
  simp [FieldRule.must, bind_eq_ok_iff, pure, Except.pure]

theorem FieldRule.put_may_eq_ok_iff {name : String} {d : Decoder β} {set : β → α → α} {v : Value}
    {a b : α} : (FieldRule.may name d set).put v a = .ok b ↔ ∃ x, d v = .ok x ∧ set x a = b := by
  simp [FieldRule.may, bind_eq_ok_iff, pure, Except.pure]

theorem FieldRule.wholeOnly_must {d : Decoder β} (hd : d.WholeOnly) (name : String)
    (set : β → α → α) : (FieldRule.must name d set).WholeOnly := by
  intro v a b h
  obtain ⟨x, hx, -⟩ := FieldRule.put_must_eq_ok_iff.1 h
  exact hd v x hx

theorem FieldRule.wholeOnly_may {d : Decoder β} (hd : d.WholeOnly) (name : String)
    (set : β → α → α) : (FieldRule.may name d set).WholeOnly :=
  FieldRule.wholeOnly_must hd name set

theorem wholeOnly_of_putAll {fields : List (FieldRule α × Value)} {a b : α}
    (hfields : ∀ f ∈ fields, f.1.WholeOnly) (h : putAll fields a = .ok b) :
    ∀ f ∈ fields, f.2.IsWhole := by
  intro f hf
  obtain ⟨a', b', hput⟩ := exists_ok_of_foldlM h f hf
  exact hfields f hf f.2 a' b' hput

theorem RecordRule.mem_known_iff {rule : RecordRule α} {entries : List (StringLiteral × Value)}
    {f : FieldRule α × Value} :
    f ∈ rule.known entries ↔ ∃ e ∈ entries, rule.field? e.1 = some f.1 ∧ e.2 = f.2 := by
  simp [RecordRule.known, Prod.ext_iff]

theorem RecordRule.wholeOnly_decoder {rule : RecordRule α}
    (hfields : ∀ f ∈ rule.fields, f.WholeOnly) : rule.decoder.WholeOnly := by
  intro v a h
  rcases RecordRule.decoder_eq_ok_iff.1 h with ⟨entries, rfl, hfits⟩ | ⟨items, rfl, hfits⟩
  · have hknown : ∀ f ∈ rule.known entries, f.2.IsWhole := by
      refine wholeOnly_of_putAll (fun f hf => ?_) hfits.puts
      obtain ⟨e, -, hfield, -⟩ := RecordRule.mem_known_iff.1 hf
      exact hfields f.1 (RecordRule.name_of_field? hfield).1
    refine .map fun e he => ?_
    cases hfield : rule.field? e.1 with
    | none => exact hfits.others e he hfield
    | some f => exact hknown (f, e.2) (RecordRule.mem_known_iff.2 ⟨e, he, hfield, rfl⟩)
  · have hzip : ∀ f ∈ rule.fields.zip items, f.2.IsWhole :=
      wholeOnly_of_putAll (fun f hf => hfields f.1 (List.of_mem_zip hf).1) hfits.puts
    refine .list fun v hv => ?_
    obtain ⟨i, hi, rfl⟩ := List.getElem_of_mem hv
    have hlength := hfits.length
    exact hzip (rule.fields[i], items[i]) (List.mem_iff_getElem.2 ⟨i, by simp; omega, by simp⟩)

end SwiftDecls.Json
