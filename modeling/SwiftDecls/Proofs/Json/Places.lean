import SwiftDecls.Proofs.Json.Rewriting

/-!
# A place in a value

A way into a value names an item of a list or a member of a record at every step (`Key`). What is
at its end can be changed and everything around it left as it is (`At`). Where the value was
decoded, this shows in the result in one place only, or the change is an error and the whole value
fails with it (`Focuses`). As with steps anywhere in a value this is proved once for the
combinators that decoders are built with, a record's field being a part of it that can be read and
replaced (`Lens`).

An object can lose a member (`Lacks`). A required one is then missed; without an optional one the
object is what it would be with null in its place (`RecordRule.decoder_lacks`).
-/

set_option autoImplicit false

namespace SwiftDecls.Json

variable {α β γ : Type}

/-! ## Fields one after the other -/

theorem putAll_append_eq_ok_iff {fields fields' : List (FieldRule α × Value)} {a c : α} :
    putAll (fields ++ fields') a = .ok c ↔
      ∃ b, putAll fields a = .ok b ∧ putAll fields' b = .ok c := foldlM_append_eq_ok_iff

/-- A field that does not disturb others can be put in before or after them. -/
theorem put_putAll_comm {f : FieldRule α} {v : Value} {fields : List (FieldRule α × Value)}
    (h : ∀ g ∈ fields, f.Commutes g.1) {a c : α} :
    (∃ b, f.put v a = .ok b ∧ putAll fields b = .ok c) ↔
      ∃ b, putAll fields a = .ok b ∧ f.put v b = .ok c := by
  induction fields generalizing a with
  | nil => simp [putAll, pure, Except.pure]
  | cons g fields ih =>
    obtain ⟨hg, hfields⟩ := List.forall_mem_cons.1 h
    have hcons : ∀ {b d : α}, putAll (g :: fields) b = .ok d ↔
        ∃ b', g.1.put g.2 b = .ok b' ∧ putAll fields b' = .ok d := foldlM_cons_eq_ok_iff
    simp only [hcons]
    constructor
    · rintro ⟨b, hf, b', hput, hrest⟩
      obtain ⟨b₁, hput, hf⟩ := (hg v g.2 a b').1 ⟨b, hf, hput⟩
      obtain ⟨b₂, hrest, hf⟩ := (ih hfields).1 ⟨b', hf, hrest⟩
      exact ⟨b₂, ⟨b₁, hput, hrest⟩, hf⟩
    · rintro ⟨b₂, ⟨b₁, hput, hrest⟩, hf⟩
      obtain ⟨b', hf, hrest⟩ := (ih hfields).2 ⟨b₂, hrest, hf⟩
      obtain ⟨b, hf, hput⟩ := (hg v g.2 a b').2 ⟨b₁, hput, hf⟩
      exact ⟨b, hf, b', hput, hrest⟩

/-- One of the fields can be put in last. -/
theorem putAll_middle {f : FieldRule α} {v : Value} {before after : List (FieldRule α × Value)}
    (h : ∀ g ∈ after, f.Commutes g.1) {a c : α} :
    putAll (before ++ (f, v) :: after) a = .ok c ↔
      ∃ b, putAll (before ++ after) a = .ok b ∧ f.put v b = .ok c := by
  have hcons : ∀ {b : α}, putAll ((f, v) :: after) b = .ok c ↔
      ∃ b', f.put v b = .ok b' ∧ putAll after b' = .ok c := foldlM_cons_eq_ok_iff
  simp only [putAll_append_eq_ok_iff, hcons, put_putAll_comm h]
  constructor
  · rintro ⟨b, hbefore, b', hafter, hput⟩
    exact ⟨b', ⟨b, hbefore, hafter⟩, hput⟩
  · rintro ⟨b', ⟨b, hbefore, hafter⟩, hput⟩
    exact ⟨b, hbefore, b', hafter, hput⟩

namespace RecordRule

variable {rule : RecordRule α} {entries before after : List (StringLiteral × Value)}
  {items itemsAfter : List Value} {a : α} {f : FieldRule α} {v v' : Value}

theorem Lawful.commutes_of_name_ne (h : rule.Lawful) {g : FieldRule α} (hf : f ∈ rule.fields)
    (hg : g ∈ rule.fields) (hne : f.name ≠ g.name) : f.Commutes g := by
  refine h.commutes.forall hf hg ?_
  rintro rfl
  exact hne rfl

theorem mem_fields_of_known {g : FieldRule α × Value} (hg : g ∈ rule.known entries) :
    g.1 ∈ rule.fields := by
  obtain ⟨e, -, hfield, -⟩ := mem_known_iff.1 hg
  exact (name_of_field? hfield).1

/-- **The entry of a field, anywhere among a record's entries, is put into what the other entries
make.** -/
theorem mapFits_middle_iff (h : rule.Lawful) (hf : f ∈ rule.fields) :
    rule.MapFits (before ++ (⟨some f.name⟩, v) :: after) a ↔
      f.name ∉ namesOf (rule.known (before ++ after)) ∧
        (∀ e ∈ before ++ after, e.1.text?.isSome = true) ∧
        (∀ e ∈ before ++ after, rule.field? e.1 = none → e.2.IsWhole) ∧
        (namesOf (rule.known (before ++ after))).Nodup ∧
        (∀ g ∈ rule.fields, g.required = true →
          g.name = f.name ∨ g.name ∈ namesOf (rule.known (before ++ after))) ∧
        ∃ b, putAll (rule.known (before ++ after)) rule.start = .ok b ∧ f.put v b = .ok a := by
  rw [mapFits_middle h, mapFits_cons_of_field h hf]
  refine and_congr_right fun hnew => ?_
  rw [put_putAll_comm]
  intro g hg
  apply h.commutes_of_name_ne hf (mem_fields_of_known hg)
  rintro heq
  exact hnew (heq ▸ List.mem_map_of_mem hg)

/-- The fields before one of a record's fields, it, and those after it. -/
theorem fields_eq_of_getElem? {n : Nat} (hf : rule.fields[n]? = some f) :
    rule.fields = rule.fields.take n ++ f :: rule.fields.drop (n + 1) := by
  obtain ⟨hn, rfl⟩ := List.getElem?_eq_some_iff.1 hf
  rw [← List.drop_eq_getElem_cons hn, List.take_append_drop]

/-- The items of a list with a value for one of the fields. -/
theorem zip_fields_middle (hf : rule.fields[items.length]? = some f) (v : Value) :
    rule.fields.zip (items ++ v :: itemsAfter) =
      (rule.fields.take items.length).zip items ++
        (f, v) :: (rule.fields.drop (items.length + 1)).zip itemsAfter := by
  have hn : items.length < rule.fields.length := (List.getElem?_eq_some_iff.1 hf).1
  conv_lhs => rw [fields_eq_of_getElem? hf]
  rw [List.zip_append (by rw [List.length_take]; omega), List.zip_cons_cons]

/-- **The value of a field, anywhere in the list that a record is written as, is put into what the
other values make.** -/
theorem putAll_zip_middle_iff (h : rule.Lawful) (hf : rule.fields[items.length]? = some f) :
    putAll (rule.fields.zip (items ++ v :: itemsAfter)) rule.start = .ok a ↔
      ∃ b, putAll ((rule.fields.take items.length).zip items ++
        (rule.fields.drop (items.length + 1)).zip itemsAfter) rule.start = .ok b ∧
        f.put v b = .ok a := by
  rw [zip_fields_middle hf, putAll_middle]
  have hpairwise := h.commutes
  rw [fields_eq_of_getElem? hf, List.pairwise_append, List.pairwise_cons] at hpairwise
  intro g hg
  apply hpairwise.2.1.1
  exact (List.of_mem_zip hg).1

/-! ## Where a record fails -/

/-- A record that is written as a map fails as the value of one of its fields does. -/
theorem ofMap_middle_eq_error {x : Value} {stop : MapStop} {err : DecodeError} (h : rule.Lawful)
    (hf : f ∈ rule.fields) (hok : rule.MapFits (before ++ (⟨some f.name⟩, x) :: after) a)
    (herror : ∀ b, f.put v b = .error err) :
    rule.ofMap (before ++ (⟨some f.name⟩, v) :: after) stop = .error err := by
  obtain ⟨d, hd, -⟩ := bind_eq_ok_iff.1 (ofMap_eq_ok_iff.2 ⟨rfl, hok⟩)
  obtain ⟨d₁, hbefore, hrest⟩ := foldlM_append_eq_ok_iff.1 hd
  obtain ⟨d₂, hentry, -⟩ := foldlM_cons_eq_ok_iff.1 hrest
  have hnew : f.name ∉ d₁.seen := ((entry_of_field (field?_name h hf)).1 hentry).1
  have hfails : rule.entry d₁ (⟨some f.name⟩, v) = .error err := by
    have hfind : rule.fields.find? (·.name == f.name) = some f := field?_name h hf
    simp [entry, Decoder.string, hfind, hnew, herror, bind, Except.bind]
  rw [ofMap, foldlM_middle_eq_error hbefore hfails]
  rfl

/-- A record that is written as a list fails as the value of one of its fields does. -/
theorem ofItems_middle_eq_error {place : Nat} {fields : List (FieldRule α)} {x : Value}
    {stop stop' : ListStop} {b c : α} {err : DecodeError} (hf : fields[items.length]? = some f)
    (hok : rule.ofItems place fields (items ++ x :: itemsAfter) stop b = .ok c)
    (herror : ∀ b, f.put v b = .error err) :
    rule.ofItems place fields (items ++ v :: itemsAfter) stop' b = .error err := by
  induction items generalizing place fields b with
  | nil =>
    cases fields with
    | nil => cases hf
    | cons g fields =>
      obtain rfl : g = f := Option.some.inj hf
      rw [List.nil_append, ofItems, herror]
      rfl
  | cons item items ih =>
    cases fields with
    | nil => cases hf
    | cons g fields =>
      rw [List.cons_append, ofItems] at hok ⊢
      obtain ⟨b', hput, hrest⟩ := bind_eq_ok_iff.1 hok
      rw [hput]
      exact ih hf hrest

end RecordRule

/-! ## Ways into a value -/

/-- One step of a way into a value. -/
inductive Key where
  | item (index : Nat)
  | member (name : String)
deriving DecidableEq, Repr

/-- A change at the end of a way into a value: at an item of a list, or at a member of a record,
which is written as a map or as a list. -/
inductive At (change : Value → Value → Prop) : List Key → Shape → Value → Value → Prop
  | here {s : Shape} {v v' : Value} (changed : change v v') : At change [] s v v'
  | item {path : List Key} {s : Shape} {before after : List Value} {v v' : Value}
      (inside : At change path s v v') :
      At change (.item before.length :: path) (.list s) (.list (before ++ v :: after) .closed)
        (.list (before ++ v' :: after) .closed)
  | entry {path : List Key} {members : List (Member Shape)} {m : Member Shape}
      {before after : List (StringLiteral × Value)} {v v' : Value} (known : m ∈ members)
      (inside : At change path m.shape v v') :
      At change (.member m.name :: path) (.record members)
        (.map (before ++ (⟨some m.name⟩, v) :: after) .closed)
        (.map (before ++ (⟨some m.name⟩, v') :: after) .closed)
  | place {path : List Key} {members : List (Member Shape)} {m : Member Shape}
      {before after : List Value} {v v' : Value} (known : members[before.length]? = some m)
      (inside : At change path m.shape v v') :
      At change (.member m.name :: path) (.record members) (.list (before ++ v :: after) .closed)
        (.list (before ++ v' :: after) .closed)

/-- A way leads from a shape to one in it. -/
inductive Leads : List Key → Shape → Shape → Prop
  | here {s : Shape} : Leads [] s s
  | item {path : List Key} {s t : Shape} (i : Nat) (inside : Leads path s t) :
      Leads (.item i :: path) (.list s) t
  | member {path : List Key} {members : List (Member Shape)} {m : Member Shape} {t : Shape}
      (known : m ∈ members) (inside : Leads path m.shape t) :
      Leads (.member m.name :: path) (.record members) t

/-- A way to a record in an item of a list. -/
theorem leads_list_iff {path : List Key} {s : Shape} {members : List (Member Shape)} :
    Leads path (.list s) (.record members) ↔
      ∃ i inner, path = .item i :: inner ∧ Leads inner s (.record members) := by
  constructor
  · rintro (_ | ⟨i, inside⟩)
    exact ⟨i, _, rfl, inside⟩
  · rintro ⟨i, inner, rfl, inside⟩
    exact .item i inside

/-- A way to a record in a record. -/
theorem leads_record_iff {path : List Key} {members members' : List (Member Shape)} :
    Leads path (.record members) (.record members') ↔
      path = [] ∧ members = members' ∨ ∃ m ∈ members, ∃ inner, path = .member m.name :: inner ∧
        Leads inner m.shape (.record members') := by
  constructor
  · rintro (_ | _ | ⟨known, inside⟩)
    · exact .inl ⟨rfl, rfl⟩
    · exact .inr ⟨_, known, _, rfl, inside⟩
  · rintro (⟨rfl, rfl⟩ | ⟨m, known, inner, rfl, inside⟩)
    · exact .here
    · exact .member known inside

theorem not_leads_plain {path : List Key} {members : List (Member Shape)} :
    ¬Leads path .plain (.record members) := nofun

variable {change : Value → Value → Prop}

/-- A change that neither is made at null nor leads to it. -/
def NoNull (change : Value → Value → Prop) : Prop := ∀ v v', change v v' → v ≠ .null ∧ v' ≠ .null

theorem At.ne_null (h : NoNull change) {path : List Key} {s : Shape} {v v' : Value}
    (hat : At change path s v v') : v ≠ .null ∧ v' ≠ .null := by
  cases hat with
  | here changed => exact h _ _ changed
  | item | entry | place => simp

/-! ## What shows of a change -/

/-- A part of a record that can be read and replaced. -/
structure Lens (α β : Type) where
  get : α → β
  set : β → α → α
  get_set : ∀ x a, get (set x a) = x
  set_set : ∀ x y a, set y (set x a) = set y a

/-- A field is decoded and goes into a part of the record. -/
def FieldRule.Stores (f : FieldRule α) (d : Decoder β) (l : Lens α β) : Prop :=
  f.put = fun v a => return l.set (← d v) a

/-- What comes of a value after a change of one in it, that was decoded before: `d` decodes the
value, `e` the one in it, and `modify` says where in the result that shows. -/
structure Follows (d : Decoder α) (e : Decoder β) (modify : (β → β) → α → α) (v' : Value) (a : α)
    (w' : Value) (b : β) : Prop where
  fails : ∀ err, e w' = .error err → d v' = .error err
  keeps : ∀ g, e w' = .ok (g b) → d v' = .ok (modify g a)

/-- Where a value was decoded, there was a value to decode at the end of a way into it, and what
comes of a change there comes of the whole value. -/
def Focuses (change : Value → Value → Prop) (d : Decoder α) (s : Shape) (path : List Key)
    (e : Decoder β) (modify : (β → β) → α → α) : Prop :=
  ∀ v v' a, At change path s v v' → d v = .ok a →
    ∃ w w' b, change w w' ∧ e w = .ok b ∧ Follows d e modify v' a w' b

theorem focuses_here (d : Decoder α) (s : Shape) : Focuses change d s [] d id := by
  intro v v' a hat hv
  cases hat with
  | here changed => exact ⟨v, v', a, changed, hv, fun _ herr => herr, fun _ hg => hg⟩

/-- A value or null, in the place of which there is a value. -/
theorem Focuses.optional (h : NoNull change) {d : Decoder α} {s : Shape} {path : List Key}
    {e : Decoder β} {modify : (β → β) → α → α} (hd : Focuses change d s path e modify) :
    Focuses change (Decoder.optional d) s path e fun g => Option.map (modify g) := by
  intro v v' a? hat hv
  obtain ⟨hne, hne'⟩ := hat.ne_null h
  rw [optional_of_ne_null d hne, map_eq_ok_iff] at hv
  obtain ⟨a, ha, rfl⟩ := hv
  obtain ⟨w, w', b, hchange, hb, hfails, hkeeps⟩ := hd v v' a hat ha
  refine ⟨w, w', b, hchange, hb, fun err herr => ?_, fun g hg => ?_⟩
  · rw [optional_of_ne_null d hne', hfails err herr]
    rfl
  · rw [optional_of_ne_null d hne', hkeeps g hg]
    rfl

/-- What is related to the items of a list, one of which is replaced. -/
theorem forall₂_modify {R : α → β → Prop} {before after : List α} {x : α} {ys : List β}
    (h : List.Forall₂ R (before ++ x :: after) ys) :
    ∃ y, R x y ∧ ∀ x' g, R x' (g y) →
      List.Forall₂ R (before ++ x' :: after) (ys.modify before.length g) := by
  induction before generalizing ys with
  | nil =>
    obtain ⟨y, ys, hy, hrest, rfl⟩ := List.forall₂_cons_left_iff.1 h
    exact ⟨y, hy, fun x' g hg => .cons hg hrest⟩
  | cons w before ih =>
    obtain ⟨z, ys, hz, hrest, rfl⟩ := List.forall₂_cons_left_iff.1 h
    obtain ⟨y, hy, hmodify⟩ := ih hrest
    exact ⟨y, hy, fun x' g hg => .cons hz (hmodify x' g hg)⟩

theorem Focuses.list {d : Decoder α} {s : Shape} {path : List Key} {e : Decoder β}
    {modify : (β → β) → α → α} (hd : Focuses change d s path e modify) (i : Nat) :
    Focuses change (Decoder.list d) (.list s) (.item i :: path) e
      fun g as => as.modify i (modify g) := by
  intro v v' as hat hv
  cases hat with
  | @item _ _ before after v v' inside =>
    obtain ⟨items, hitems, has⟩ := list_eq_ok_iff.1 hv
    obtain rfl : before ++ v :: after = items := (Value.list.inj hitems).1
    obtain ⟨a, ha, hmodify⟩ := forall₂_modify has
    obtain ⟨w, w', b, hchange, hb, hfails, hkeeps⟩ := hd v v' a inside ha
    refine ⟨w, w', b, hchange, hb, fun err herr => ?_, fun g hg => ?_⟩
    · obtain ⟨as₁, hbefore, -⟩ := bind_eq_ok_iff.1
        ((List.mapM_append (m := Except DecodeError)).symm.trans (mapM_eq_ok_iff.2 has))
      rw [Decoder.list, mapM_middle_eq_error hbefore (hfails err herr)]
      rfl
    · exact list_eq_ok_iff.2 ⟨_, rfl, hmodify v' (modify g) (hkeeps g hg)⟩

/-- Where a field is stored, it can be replaced later as well as while the record is read. -/
theorem FieldRule.Stores.put_eq_ok_iff {f : FieldRule α} {d : Decoder β} {l : Lens α β}
    (hf : f.Stores d l) {v : Value} {a b : α} :
    f.put v a = .ok b ↔ ∃ x, d v = .ok x ∧ l.set x a = b := by
  rw [hf]
  simp [bind_eq_ok_iff, pure, Except.pure]

theorem FieldRule.Stores.put_eq_error {f : FieldRule α} {d : Decoder β} {l : Lens α β}
    (hf : f.Stores d l) {v : Value} {err : DecodeError} (hv : d v = .error err) (a : α) :
    f.put v a = .error err := by
  have hput : f.put v a = (d v >>= fun x => .ok (l.set x a)) := congrFun (congrFun hf v) a
  rw [hput, hv]
  rfl

/-- A name of a record's members belongs to one field and its shape. -/
theorem RecordRule.eq_of_mem_zip {rule : RecordRule α} (h : rule.Lawful) {shapes : List Shape}
    (hshapes : rule.fields.length = shapes.length) {f g : FieldRule α × Shape}
    (hf : f ∈ rule.fields.zip shapes) (hg : g ∈ rule.fields.zip shapes)
    (hname : f.1.name = g.1.name) : f = g := by
  have hnames : ((rule.fields.zip shapes).map fun f => f.1.name).Nodup := by
    have hfst := List.map_fst_zip (Nat.le_of_eq hshapes)
    have hnodup := h.names
    rw [← hfst, List.map_map] at hnodup
    exact hnodup
  exact List.inj_on_of_nodup_map hnames hf hg hname

/-- **A lawful record shows a change in one of its fields in one place.** -/
theorem Focuses.member {rule : RecordRule α} (hrule : rule.Lawful) {t : Shape}
    {shapes : List Shape} (ht : t = rule.shape shapes)
    (hshapes : rule.fields.length = shapes.length) (i : Nat) {f : FieldRule α} {s : Shape}
    (hi : (rule.fields.zip shapes)[i]? = some (f, s)) (l : Lens α β) {d : Decoder β}
    (hstores : f.Stores d l) {path : List Key} {e : Decoder γ} {modify : (γ → γ) → β → β}
    (hd : Focuses change d s path e modify) :
    Focuses change rule.decoder t (.member f.name :: path) e
      fun g a => l.set (modify g (l.get a)) a := by
  have hf : (f, s) ∈ rule.fields.zip shapes := List.mem_of_getElem? hi
  have hfield : f ∈ rule.fields := (List.of_mem_zip hf).1
  -- the whole record once the value of the field is replaced, whatever the other fields make
  have hreplace : ∀ {v v' : Value} {a b : α}, At change path s v v' → f.put v b = .ok a →
      ∃ w w' c, change w w' ∧ e w = .ok c ∧
        (∀ err, e w' = .error err → ∀ b, f.put v' b = .error err) ∧
        ∀ g, e w' = .ok (g c) → f.put v' b = .ok (l.set (modify g (l.get a)) a) := by
    intro v v' a b hat hput
    obtain ⟨x, hx, rfl⟩ := hstores.put_eq_ok_iff.1 hput
    obtain ⟨w, w', c, hchange, hc, hfails, hkeeps⟩ := hd v v' x hat hx
    refine ⟨w, w', c, hchange, hc, fun err herr => hstores.put_eq_error (hfails err herr), ?_⟩
    intro g hg
    rw [l.get_set, l.set_set]
    exact hstores.put_eq_ok_iff.2 ⟨_, hkeeps g hg, rfl⟩
  intro v v' a hat hv
  rw [ht, RecordRule.shape] at hat
  generalize hname : f.name = name at hat
  cases hat with
  | @entry _ _ m before after v v' known inside =>
    obtain ⟨⟨f', s'⟩, hmem, rfl⟩ := List.mem_map.1 known
    obtain ⟨rfl, rfl⟩ := Prod.ext_iff.1 (RecordRule.eq_of_mem_zip hrule hshapes hf hmem hname)
    rcases RecordRule.decoder_eq_ok_iff.1 hv with ⟨entries, hentries, hfits⟩ | ⟨items, hitems, -⟩
    · obtain rfl : before ++ (⟨some f.name⟩, v) :: after = entries := (Value.map.inj hentries).1
      obtain ⟨hnew, hkeys, hothers, hdistinct, hcomplete, b, hputs, hput⟩ :=
        (RecordRule.mapFits_middle_iff hrule hfield).1 hfits
      obtain ⟨w, w', c, hchange, hc, hfails, hkeeps⟩ := hreplace inside hput
      refine ⟨w, w', c, hchange, hc, fun err herr => ?_, fun g hg => ?_⟩
      · exact RecordRule.ofMap_middle_eq_error hrule hfield hfits (hfails err herr)
      · apply RecordRule.decoder_eq_ok_iff.2
        refine .inl ⟨_, rfl, (RecordRule.mapFits_middle_iff hrule hfield).2 ?_⟩
        exact ⟨hnew, hkeys, hothers, hdistinct, hcomplete, b, hputs, hkeeps g hg⟩
    · cases hitems
  | @place _ _ m before after v v' known inside =>
    rw [RecordRule.members, List.getElem?_map, Option.map_eq_some_iff] at known
    obtain ⟨⟨f', s'⟩, hzip, rfl⟩ := known
    obtain ⟨rfl, rfl⟩ :=
      Prod.ext_iff.1 (RecordRule.eq_of_mem_zip hrule hshapes hf (List.mem_of_getElem? hzip) hname)
    have hplace : rule.fields[before.length]? = some f := (List.getElem?_zip_eq_some.1 hzip).1
    rcases RecordRule.decoder_eq_ok_iff.1 hv with ⟨entries, hentries, -⟩ | ⟨items, hitems, hfits⟩
    · cases hentries
    · obtain rfl : before ++ v :: after = items := (Value.list.inj hitems).1
      obtain ⟨b, hputs, hput⟩ := (RecordRule.putAll_zip_middle_iff hrule hplace).1 hfits.puts
      obtain ⟨w, w', c, hchange, hc, hfails, hkeeps⟩ := hreplace inside hput
      refine ⟨w, w', c, hchange, hc, fun err herr => ?_, fun g hg => ?_⟩
      · exact RecordRule.ofItems_middle_eq_error hplace
          (RecordRule.ofItems_eq_ok_iff.2 ⟨rfl, hfits⟩) (hfails err herr)
      · refine RecordRule.decoder_eq_ok_iff.2 (.inr ⟨_, rfl, ?_, ?_, ?_⟩)
        · simpa using hfits.length
        · simpa using hfits.complete
        · exact (RecordRule.putAll_zip_middle_iff hrule hplace).2 ⟨b, hputs, hkeeps g hg⟩

/-! ## Objects that lack a member -/

/-- An object, and the same object without one of its members. -/
inductive Lacks (name : String) : Value → Value → Prop
  | intro (before after : List (StringLiteral × Value)) (x : Value) :
      Lacks name (.map (before ++ (⟨some name⟩, x) :: after) .closed)
        (.map (before ++ after) .closed)

theorem noNull_lacks (name : String) : NoNull (Lacks name) := by
  rintro _ _ ⟨before, after, x⟩
  simp

/-- A record with null in a field of it, where null can be put there. -/
def FieldRule.cleared (f : FieldRule α) (a : α) : α :=
  match f.put .null a with
  | .ok b => b
  | .error _ => a

/-- Null in a field replaces what was put there. -/
def FieldRule.Clears (f : FieldRule α) : Prop :=
  ∀ v a b, f.put v a = .ok b → f.put .null b = f.put .null a

/-- Null replaces what was put into a field that may be missing. -/
def RecordRule.Clears (rule : RecordRule α) : Prop :=
  ∀ f ∈ rule.fields, f.required = false → f.Clears

theorem FieldRule.clears_may {name : String} {d : Decoder β} {set : β → α → α}
    (hset : ∀ x y a, set y (set x a) = set y a) : (FieldRule.may name d set).Clears := by
  intro v a b h
  obtain ⟨x, -, rfl⟩ := FieldRule.put_may_eq_ok_iff.1 h
  simp only [FieldRule.may, hset]

theorem FieldRule.clears_of_required {f : FieldRule α} (h : f.required = true)
    (hoptional : f.required = false) : f.Clears := by
  rw [h] at hoptional
  cases hoptional

/-- A record of which nothing may be missing. -/
theorem RecordRule.clears_of_required {rule : RecordRule α}
    (h : ∀ f ∈ rule.fields, f.required = true) : rule.Clears :=
  fun f hf => FieldRule.clears_of_required (h f hf)

namespace RecordRule

variable {rule : RecordRule α} {f : FieldRule α} {v v' : Value} {a : α}

/-- What is left of an object's entries, one of which was a field's. -/
theorem fits_of_lacks (h : rule.Lawful) (hf : f ∈ rule.fields) (hlacks : Lacks f.name v v')
    (hv : rule.decoder v = .ok a) :
    ∃ entries x b, v' = .map entries .closed ∧ f.name ∉ namesOf (rule.known entries) ∧
      (∀ e ∈ entries, e.1.text?.isSome = true) ∧
      (∀ e ∈ entries, rule.field? e.1 = none → e.2.IsWhole) ∧
      (namesOf (rule.known entries)).Nodup ∧
      (∀ g ∈ rule.fields, g.required = true →
        g.name = f.name ∨ g.name ∈ namesOf (rule.known entries)) ∧
      putAll (rule.known entries) rule.start = .ok b ∧ f.put x b = .ok a := by
  obtain ⟨before, after, x⟩ := hlacks
  rcases decoder_eq_ok_iff.1 hv with ⟨entries, hentries, hfits⟩ | ⟨items, hitems, -⟩
  · obtain rfl : before ++ (⟨some f.name⟩, x) :: after = entries := (Value.map.inj hentries).1
    obtain ⟨hnew, hkeys, hothers, hdistinct, hcomplete, b, hputs, hput⟩ :=
      (mapFits_middle_iff h hf).1 hfits
    exact ⟨before ++ after, x, b, rfl, hnew, hkeys, hothers, hdistinct, hcomplete, hputs, hput⟩
  · cases hitems

/-- **An object that lacks a required member is not decoded, and the member is named.** -/
theorem decoder_lacks_required (h : rule.Lawful) (hf : f ∈ rule.fields)
    (hrequired : f.required = true) (hlacks : Lacks f.name v v') (hv : rule.decoder v = .ok a) :
    rule.decoder v' = .error (.data (.missingField f.name)) := by
  obtain ⟨entries, x, b, rfl, hnew, hkeys, hothers, hdistinct, hcomplete, hputs, -⟩ :=
    fits_of_lacks h hf hlacks hv
  have hentries : entries.foldlM rule.entry ⟨[], rule.start⟩ =
      .ok ⟨(namesOf (rule.known entries)).reverse, b⟩ := by
    apply foldlM_entry_eq_ok_iff.2
    exact ⟨hkeys, hothers, hdistinct, by simp, by simp, hputs⟩
  -- whichever required field is found missing, it has the name of this one
  obtain ⟨g, hfind⟩ : ∃ g, (rule.fields.find? fun g => g.required &&
      !(namesOf (rule.known entries)).reverse.contains g.name) = some g := by
    apply Option.isSome_iff_exists.1
    apply List.find?_isSome.2
    exact ⟨f, hf, by simp [hrequired, hnew]⟩
  have hmissing := List.find?_some hfind
  simp only [Bool.and_eq_true, Bool.not_eq_true', List.contains_reverse] at hmissing
  have hname : g.name = f.name := by
    refine (hcomplete g (List.mem_of_find?_eq_some hfind) hmissing.1).resolve_right fun hmem => ?_
    rw [List.contains_iff_mem.2 hmem] at hmissing
    cases hmissing.2
  show rule.ofMap entries .closed = _
  simp only [ofMap, hentries, bind, Except.bind, MapStop.fault?, guardFault, hfind, hname]

/-- **An object that lacks an optional member is decoded to what it was with nothing in the
field.** -/
theorem decoder_lacks_optional (h : rule.Lawful) (hclears : rule.Clears) (hf : f ∈ rule.fields)
    (hoptional : f.required = false) (hlacks : Lacks f.name v v') (hv : rule.decoder v = .ok a) :
    rule.decoder v' = .ok (f.cleared a) := by
  obtain ⟨entries, x, b, rfl, hnew, hkeys, hothers, hdistinct, hcomplete, hputs, hput⟩ :=
    fits_of_lacks h hf hlacks hv
  have hnull : f.put .null b = .ok b := by
    have hcommutes : ∀ g ∈ rule.known entries, f.Commutes g.1 := fun g hg =>
      h.commutes_of_name_ne hf (mem_fields_of_known hg) fun heq =>
        hnew (heq ▸ List.mem_map_of_mem hg)
    obtain ⟨b', hputs', hnull⟩ :=
      (put_putAll_comm hcommutes).1 ⟨rule.start, h.null f hf hoptional, hputs⟩
    obtain rfl : b = b' := Except.ok.inj (hputs.symm.trans hputs')
    exact hnull
  have hcleared : f.cleared a = b := by
    rw [FieldRule.cleared, hclears f hf hoptional x b a hput, hnull]
  rw [hcleared]
  refine decoder_eq_ok_iff.2 (.inl ⟨entries, rfl, hkeys, hothers, hdistinct, ?_, hputs⟩)
  intro g hg hrequired
  refine (hcomplete g hg hrequired).resolve_left fun hname => ?_
  rw [List.inj_on_of_nodup_map h.names hg hf hname, hoptional] at hrequired
  cases hrequired

end RecordRule

end SwiftDecls.Json
