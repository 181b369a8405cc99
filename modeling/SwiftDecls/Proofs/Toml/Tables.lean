import SwiftDecls.Proofs.Toml.Lines

/-!
# TOML tables grow

Whatever is added to a table, its keys stay, and what is a table stays a table with its keys
(`Extends`). So a key of a document that some line names is in its table in the end, whatever
other lines there are (`names_of_hasPath`).
-/

set_option autoImplicit false

namespace SwiftDecls.Toml

open Text

/-! ## What stays -/

/-- A value has been changed by adding to it. -/
inductive Grows : Value → Value → Prop
  | table {origin origin' : Origin} {inner inner' : Entries} :
      (∀ key, inner.lookup key ≠ none → inner'.lookup key ≠ none) →
      Grows (.table origin inner) (.table origin' inner')
  | other {old new : Value} : (∀ origin inner, old ≠ .table origin inner) →
      (∀ origin inner, new ≠ .table origin inner) → Grows old new

/-- A table has been changed by adding to it. -/
def Extends (es es' : Entries) : Prop :=
  ∀ key old, es.lookup key = some old → ∃ new, es'.lookup key = some new ∧ Grows old new

/-- Some change to an entry only adds to it. -/
def OnlyAdds (last : Option Value → Option Value) : Prop :=
  ∀ old new, last (some old) = some new → Grows old new

theorem Grows.refl (v : Value) : Grows v v := by
  by_cases h : ∃ origin inner, v = .table origin inner
  · obtain ⟨origin, inner, rfl⟩ := h
    exact .table fun _ => id
  · have hnot : ∀ origin inner, v ≠ .table origin inner := fun origin inner heq =>
      h ⟨origin, inner, heq⟩
    exact .other hnot hnot

theorem Grows.trans {u v w : Value} (h : Grows u v) (h' : Grows v w) : Grows u w := by
  cases h with
  | table hkeys =>
    cases h' with
    | table hkeys' => exact .table fun key => hkeys' key ∘ hkeys key
    | other hnot => exact absurd rfl (hnot _ _)
  | other hnot hnot' =>
    cases h' with
    | table => exact absurd rfl (hnot' _ _)
    | other _ hnot'' => exact .other hnot hnot''

namespace Extends

variable {es es' es'' : Entries}

theorem refl (es : Entries) : Extends es es := fun _ old h => ⟨old, h, .refl old⟩

theorem trans (h : Extends es es') (h' : Extends es' es'') : Extends es es'' := by
  intro key old hold
  obtain ⟨mid, hmid, hfirst⟩ := h key old hold
  obtain ⟨new, hnew, hothers⟩ := h' key mid hmid
  exact ⟨new, hnew, hfirst.trans hothers⟩

theorem keys (h : Extends es es') (key : String) (hkey : es.lookup key ≠ none) :
    es'.lookup key ≠ none := by
  obtain ⟨old, hold⟩ := Option.ne_none_iff_exists'.1 hkey
  obtain ⟨new, hnew, -⟩ := h key old hold
  rw [hnew]
  nofun

end Extends

/-! ## What is added -/

namespace Entries

variable {es es' : Entries} {key : String} {value : Value} {path : List String}

theorem lookup_set_self (es : Entries) (key : String) (value : Value) :
    (es.set key value).lookup key = some value := by
  induction es with
  | nil => simp [set]
  | cons e rest ih =>
    obtain ⟨k, v⟩ := e
    rw [set]
    split
    · rename_i hk
      rw [hk, List.lookup_cons_self]
    · rename_i hk
      rw [List.lookup_cons, beq_false_of_ne (Ne.symm hk), ih]

theorem lookup_set_of_ne {key' : String} (h : key' ≠ key) (es : Entries) (value : Value) :
    (es.set key value).lookup key' = es.lookup key' := by
  induction es with
  | nil => simp [set, h]
  | cons e rest ih =>
    obtain ⟨k, v⟩ := e
    rw [set]
    split
    · rename_i hk
      rw [hk, List.lookup_cons, List.lookup_cons, beq_false_of_ne h]
    · rw [List.lookup_cons, List.lookup_cons, ih]

theorem extends_set (h : ∀ old, es.lookup key = some old → Grows old value) :
    Extends es (es.set key value) := by
  intro key' old hold
  by_cases hkey : key' = key
  · subst hkey
    exact ⟨value, lookup_set_self es key' value, h old hold⟩
  · exact ⟨old, (lookup_set_of_ne hkey es value).trans hold, .refl old⟩

/-- What a change along a path leaves at its first key. -/
inductive AlterOutcome (dotted : Bool) (last : Option Value → Option Value) (es : Entries)
    (key : String) : List String → Value → Prop
  | last {value : Value} : last (es.lookup key) = some value →
      AlterOutcome dotted last es key [] value
  | fresh {next : String} {rest : List String} {origin : Origin} {inner : Entries} :
      es.lookup key = none → alter dotted last (next :: rest) [] = some inner →
      AlterOutcome dotted last es key (next :: rest) (.table origin inner)
  | inside {next : String} {rest : List String} {origin : Origin} {inner inner' : Entries} :
      es.lookup key = some (.table origin inner) →
      alter dotted last (next :: rest) inner = some inner' →
      AlterOutcome dotted last es key (next :: rest) (.table origin inner')
  | listed {next : String} {rest : List String} {items changed : List Value} : dotted = false →
      es.lookup key = some (.list items true) →
      AlterOutcome dotted last es key (next :: rest) (.list changed true)

variable {dotted : Bool} {last : Option Value → Option Value} {rest : List String}

theorem alterOutcome (h : alter dotted last (key :: rest) es = some es') :
    ∃ value, es' = es.set key value ∧ AlterOutcome dotted last es key rest value := by
  cases rest with
  | nil =>
    obtain ⟨value, hvalue, rfl⟩ := Option.map_eq_some_iff.1 h
    exact ⟨value, rfl, .last hvalue⟩
  | cons next rest =>
    rw [alter] at h
    · split at h
      · rename_i hnone
        obtain ⟨inner, hinner, hes⟩ := Option.bind_eq_some_iff.1 h
        cases hes
        exact ⟨_, rfl, .fresh hnone hinner⟩
      · rename_i origin inner htable
        split at h
        · obtain ⟨inner', hinner, hes⟩ := Option.bind_eq_some_iff.1 h
          cases hes
          exact ⟨_, rfl, .inside htable hinner⟩
        · cases h
      · rename_i items hlist
        split at h
        · split at h
          · cases h
          · rename_i hdotted
            obtain ⟨inner', -, hes⟩ := Option.bind_eq_some_iff.1 h
            cases hes
            exact ⟨_, rfl, .listed (Bool.eq_false_iff.2 hdotted) hlist⟩
        · cases h
      · cases h
    · nofun

/-- A change along a path only adds, if what it does at the end of the path does. -/
theorem extends_alter (hlast : OnlyAdds last) (h : alter dotted last path es = some es') :
    Extends es es' := by
  induction path generalizing es es' with
  | nil => cases h
  | cons key rest ih =>
    obtain ⟨value, rfl, houtcome⟩ := alterOutcome h
    refine extends_set fun old hold => ?_
    cases houtcome with
    | last hvalue =>
      rw [hold] at hvalue
      exact hlast old value hvalue
    | fresh hnone => cases hold.symm.trans hnone
    | inside htable hinner =>
      cases hold.symm.trans htable
      exact .table (ih hinner).keys
    | listed _ hlist =>
      cases hold.symm.trans hlist
      exact .other nofun nofun

/-! ## Keys that are named -/

/-- There is a table at some key. -/
def HasTable (es : Entries) (key : String) : Prop :=
  ∃ origin inner, es.lookup key = some (.table origin inner)

/-- There is no list of tables at some key. -/
def NoListAt (es : Entries) (key : String) : Prop :=
  ∀ items, es.lookup key ≠ some (.list items true)

theorem HasTable.extends (h : HasTable es key) (hextends : Extends es es') : HasTable es' key := by
  obtain ⟨origin, inner, htable⟩ := h
  obtain ⟨new, hnew, hgrows⟩ := hextends key _ htable
  cases hgrows with
  | table => exact ⟨_, _, hnew⟩
  | other hnot => exact absurd rfl (hnot _ _)

theorem NoListAt.set (h : NoListAt es key) {changed : String}
    (hvalue : ∀ items, value ≠ .list items true) : NoListAt (es.set changed value) key := by
  intro items
  by_cases hkey : key = changed
  · rw [hkey, lookup_set_self]
    exact fun heq => hvalue items (Option.some.inj heq)
  · rw [lookup_set_of_ne hkey]
    exact h items

/-- A path leads somewhere in a table, as far as its first two keys go. -/
def Names (es : Entries) : List String → Prop
  | [] => True
  | [key] => es.lookup key ≠ none
  | key :: next :: _ => es.lookup key ≠ none ∧
      ∀ origin inner, es.lookup key = some (.table origin inner) → inner.lookup next ≠ none

theorem Names.of_append {more : List String} (h : Names es (path ++ more)) : Names es path := by
  match path, more, h with
  | [], _, _ => trivial
  | [key], [], h => exact h
  | [key], _ :: _, h => exact h.1
  | _ :: _ :: _, _, h => exact h

theorem Names.extends (h : Names es path) (hextends : Extends es es') : Names es' path := by
  match path, h with
  | [], _ => trivial
  | [key], h => exact hextends.keys key h
  | key :: next :: _, ⟨hkey, hnext⟩ =>
    refine ⟨hextends.keys key hkey, fun origin inner htable => ?_⟩
    obtain ⟨old, hold⟩ := Option.ne_none_iff_exists'.1 hkey
    obtain ⟨new, hnew, hgrows⟩ := hextends key old hold
    cases htable.symm.trans hnew
    cases hgrows with
    | table hkeys => exact hkeys next (hnext _ _ hold)
    | other _ hnot => exact absurd rfl (hnot origin inner)

theorem lookup_ne_none_of_alter (h : alter dotted last (key :: rest) es = some es') :
    es'.lookup key ≠ none := by
  obtain ⟨value, rfl, -⟩ := alterOutcome h
  rw [lookup_set_self]
  nofun

/-- The path of a change is named behind it. -/
theorem names_of_alter (h : alter dotted last path es = some es') : Names es' path := by
  match path, h with
  | [key], h => exact lookup_ne_none_of_alter h
  | key :: next :: rest, h =>
    refine ⟨lookup_ne_none_of_alter h, fun origin inner htable => ?_⟩
    obtain ⟨value, rfl, houtcome⟩ := alterOutcome h
    rw [lookup_set_self] at htable
    cases htable
    cases houtcome with
    | fresh _ hinner | inside _ hinner => exact lookup_ne_none_of_alter hinner

/-- A change further down leaves a table at its first key, if there is no list of tables. -/
theorem hasTable_of_alter {next : String} (hlist : dotted = false → NoListAt es key)
    (h : alter dotted last (key :: next :: rest) es = some es') : HasTable es' key := by
  obtain ⟨value, rfl, houtcome⟩ := alterOutcome h
  rw [HasTable, lookup_set_self]
  cases houtcome with
  | fresh | inside => exact ⟨_, _, rfl⟩
  | listed hdotted hitems => exact absurd hitems (hlist hdotted _)

/-! ## Values -/

section steps

variable {α : Type} {step : Entries → α → Option Entries} {as : List α}

theorem foldlM_induction {P : Entries → Prop} (hstep : ∀ a ∈ as, ∀ es es', P es →
    step es a = some es' → P es') (h : as.foldlM step es = some es') (hes : P es) : P es' := by
  induction as generalizing es with
  | nil =>
    cases h
    exact hes
  | cons a as ih =>
    obtain ⟨mid, hmid, hrest⟩ := Option.bind_eq_some_iff.1 h
    obtain ⟨hfirst, hothers⟩ := List.forall_mem_cons.1 hstep
    exact ih hothers hrest (hfirst es mid hes hmid)

/-- Steps only add to a table, if each of them does. -/
theorem extends_foldlM (hstep : ∀ a es es', step es a = some es' → Extends es es')
    (h : as.foldlM step es = some es') : Extends es es' :=
  foldlM_induction (fun a _ mid mid' hmid h => hmid.trans (hstep a mid mid' h)) h (.refl es)

/-- What a step adds is there behind the steps that come after it. -/
theorem exists_step_of_mem (hstep : ∀ a es es', step es a = some es' → Extends es es')
    (h : as.foldlM step es = some es') {a : α} (ha : a ∈ as) :
    ∃ before after, step before a = some after ∧ Extends after es' := by
  obtain ⟨front, back, rfl⟩ := List.append_of_mem ha
  rw [List.foldlM_append] at h
  obtain ⟨before, -, hback⟩ := Option.bind_eq_some_iff.1 h
  obtain ⟨after, hafter, hrest⟩ := Option.bind_eq_some_iff.1 hback
  exact ⟨before, after, hafter, extends_foldlM hstep hrest⟩

end steps

theorem onlyAdds_add (value : Value) :
    OnlyAdds fun old => if old.isNone then some value else none := by
  intro old new h
  cases h

theorem extends_addAll {new : List (List String × Value)} (h : es.addAll new = some es') :
    Extends es es' :=
  extends_foldlM (fun p _ _ hadd => extends_alter (onlyAdds_add p.2) hadd) h

/-- What a value adds is there behind the values that come after it. -/
theorem exists_add {new : List (List String × Value)} (h : es.addAll new = some es')
    {p : List String × Value} (hp : p ∈ new) :
    ∃ before after : Entries, before.add p.1 p.2 = some after ∧ Extends after es' :=
  exists_step_of_mem (fun p _ _ hadd => extends_alter (onlyAdds_add p.2) hadd) h hp

theorem names_of_addAll {new : List (List String × Value)} (h : es.addAll new = some es') :
    ∀ p ∈ new, Names es' p.1 := by
  intro p hp
  obtain ⟨before, after, hadd, hextends⟩ := exists_add h hp
  exact (names_of_alter hadd).extends hextends

/-- Distinct keys are added in their order. -/
theorem addAll_keys {new : List (String × Value)} (hnodup : (new.map Prod.fst).Nodup)
    (hnew : ∀ p ∈ new, es.lookup p.1 = none) :
    es.addAll (new.map fun p => ([p.1], p.2)) = some (es ++ new) := by
  induction new generalizing es with
  | nil => rw [List.append_nil]; rfl
  | cons p new ih =>
    rw [List.map_cons, List.nodup_cons] at hnodup
    have hset : ∀ es : Entries, es.lookup p.1 = none → es.set p.1 p.2 = es ++ [p] := by
      intro es hnone
      induction es with
      | nil => rfl
      | cons e es ih =>
        obtain ⟨k, v⟩ := e
        rw [List.lookup_cons] at hnone
        split at hnone
        · cases hnone
        · rename_i hne
          have hkey : k ≠ p.1 := fun heq => by simp [heq] at hne
          rw [set, if_neg hkey, ih hnone, List.cons_append]
    have hadd : es.add [p.1] p.2 = some (es ++ [p]) := by
      have hnone := hnew p List.mem_cons_self
      rw [add, alter, hnone, ← hset es hnone]
      rfl
    have hrest : ∀ q ∈ new, (es ++ [p]).lookup q.1 = none := by
      intro q hq
      have hne : q.1 ≠ p.1 := fun heq => hnodup.1 (heq ▸ List.mem_map_of_mem hq)
      rw [List.lookup_append, hnew q (List.mem_cons_of_mem p hq)]
      simp [hne]
    have htail := ih hnodup.2 hrest
    rw [List.append_assoc, List.singleton_append] at htail
    show (es.add [p.1] p.2 >>= fun es => es.addAll _) = _
    rw [hadd]
    exact htail

/-! ## Sections -/

theorem onlyAdds_last (s : Section) : OnlyAdds (addSection.last s) := by
  intro old new h
  unfold addSection.last at h
  split at h
  · obtain ⟨inner, -, hlist⟩ := Option.bind_eq_some_iff.1 h
    dsimp only at hlist
    split at hlist
    · rename_i heq
      cases heq
    · rename_i items heq
      cases heq
      cases hlist
      exact .other nofun nofun
    · cases hlist
  · split at h
    · rename_i heq
      cases heq
    · rename_i inner heq
      cases heq
      obtain ⟨inner', hinner, rfl⟩ := Option.map_eq_some_iff.1 h
      exact .table (extends_addAll hinner).keys
    · cases h

theorem extends_addSection {s : Section} (h : es.addSection s = some es') : Extends es es' :=
  extends_alter (onlyAdds_last s) h

/-- The table of a header has the keys under the header. -/
theorem last_eq_some {s : Section} {old : Option Value} {new : Value}
    (h : addSection.last s old = some new) :
    if s.listed then ∃ items, new = .list items true
    else ∃ inner, new = .table .header inner ∧ ∀ p ∈ s.values, Names inner p.1 := by
  unfold addSection.last at h
  split at h
  · rename_i hlisted
    rw [if_pos hlisted]
    obtain ⟨inner, -, hlist⟩ := Option.bind_eq_some_iff.1 h
    dsimp only at hlist
    split at hlist
    · cases hlist
      exact ⟨_, rfl⟩
    · cases hlist
      exact ⟨_, rfl⟩
    · cases hlist
  · rename_i hsingle
    rw [if_neg hsingle]
    split at h
    · obtain ⟨inner, hinner, rfl⟩ := Option.map_eq_some_iff.1 h
      exact ⟨inner, rfl, names_of_addAll hinner⟩
    · obtain ⟨inner, hinner, rfl⟩ := Option.map_eq_some_iff.1 h
      exact ⟨inner, rfl, names_of_addAll hinner⟩
    · cases h

theorem Names.lookup_ne_none {more : List String} (h : Names es (key :: more)) :
    es.lookup key ≠ none := by
  cases more with
  | nil => exact h
  | cons next more => exact h.1

/-- The keys under a header are named in the table of the header. -/
theorem names_of_addSection {s : Section} (h : es.addSection s = some es') {p : List String × Value}
    (hp : p ∈ s.values) : Names es' (s.path ++ p.1) := by
  have hpath : Names es' s.path := names_of_alter h
  obtain ⟨path, listed, values⟩ := s
  obtain ⟨names, value⟩ := p
  match path, names with
  | [], _ => cases h
  | [key], [] => exact hpath
  | [key], next :: more =>
    refine ⟨hpath, fun origin inner htable => ?_⟩
    obtain ⟨value, rfl, houtcome⟩ := alterOutcome h
    rw [lookup_set_self] at htable
    cases htable
    cases houtcome with
    | last hlast =>
      have hsection := last_eq_some hlast
      split at hsection
      · obtain ⟨items, hlist⟩ := hsection
        cases hlist
      · obtain ⟨inner', htable, hnames⟩ := hsection
        cases htable
        exact (hnames _ hp).lookup_ne_none
  | _ :: _ :: _, _ => exact hpath

/-- A header in single brackets makes a table. -/
theorem hasTable_of_addSection {s : Section} (h : es.addSection s = some es')
    (hpath : s.path = [key]) (hsingle : s.listed = false) : HasTable es' key := by
  rw [addSection, hpath] at h
  obtain ⟨value, rfl, houtcome⟩ := alterOutcome h
  rw [HasTable, lookup_set_self]
  cases houtcome with
  | last hlast =>
    have hsection := last_eq_some hlast
    rw [if_neg (by simp [hsingle])] at hsection
    obtain ⟨inner, rfl, -⟩ := hsection
    exact ⟨.header, inner, rfl⟩

theorem extends_sections {sections : List Section} (h : sections.foldlM addSection es = some es') :
    Extends es es' :=
  extends_foldlM (fun _ _ _ => extends_addSection) h

/-- What a section adds is there behind the sections that come after it. -/
theorem exists_addSection {sections : List Section} (h : sections.foldlM addSection es = some es')
    {s : Section} (hs : s ∈ sections) :
    ∃ before after : Entries, before.addSection s = some after ∧ Extends after es' :=
  exists_step_of_mem (fun _ _ _ => extends_addSection) h hs

end Entries

/-! ## Documents -/

section documents

open Entries

variable {values : List (List String × Value)} {all : List Section} {es : Entries}

/-- What a document has under some path: the values before its first header, the headers, and the
values under these. -/
inductive HasPath (values : List (List String × Value)) (all : List Section) :
    List String → Prop
  | value {key : List String} {v : Value} : (key, v) ∈ values → HasPath values all key
  | header {s : Section} : s ∈ all → HasPath values all s.path
  | entry {s : Section} {key : List String} {v : Value} : s ∈ all → (key, v) ∈ s.values →
      HasPath values all (s.path ++ key)

/-- Every path of a document is named in its table. -/
theorem names_of_hasPath (h : document values all = some es) {path : List String}
    (hpath : HasPath values all path) : Names es path := by
  obtain ⟨start, hstart, hsections⟩ := Option.bind_eq_some_iff.1 h
  cases hpath with
  | value hmem =>
    exact (names_of_addAll hstart _ hmem).extends (extends_sections hsections)
  | header hs =>
    obtain ⟨before, after, hadded, hextends⟩ := exists_addSection hsections hs
    exact (names_of_alter hadded).extends hextends
  | entry hs hmem =>
    obtain ⟨before, after, hadded, hextends⟩ := exists_addSection hsections hs
    exact (names_of_addSection hadded hmem).extends hextends

/-- A table with a header of its own is a table in the end. -/
theorem hasTable_of_header (h : document values all = some es) {s : Section} (hs : s ∈ all)
    {key : String} (hpath : s.path = [key]) (hsingle : s.listed = false) : HasTable es key := by
  obtain ⟨start, -, hsections⟩ := Option.bind_eq_some_iff.1 h
  obtain ⟨before, after, hadded, hextends⟩ := exists_addSection hsections hs
  exact (hasTable_of_addSection hadded hpath hsingle).extends hextends

/-- A dotted key before the first header leads into a table. -/
theorem hasTable_of_dotted (h : document values all = some es) {key next : String}
    {more : List String} {v : Value} (hmem : (key :: next :: more, v) ∈ values) :
    HasTable es key := by
  obtain ⟨start, hstart, hsections⟩ := Option.bind_eq_some_iff.1 h
  obtain ⟨before, after, hadded, hextends⟩ := exists_add hstart hmem
  have hadd : alter true (fun old => if old.isNone then some v else none) (key :: next :: more)
      before = some after := hadded
  have htable : HasTable after key := hasTable_of_alter (fun hfalse => by cases hfalse) hadd
  exact htable.extends (hextends.trans (extends_sections hsections))

/-- A table alone, with distinct keys. -/
theorem document_table (name : String) {entries : Entries}
    (hnodup : (entries.map Prod.fst).Nodup) :
    document [] [⟨[name], false, entries.map fun p => ([p.1], p.2)⟩] =
      some [(name, .table .header entries)] := by
  have hvalues : Entries.addAll [] (entries.map fun p => ([p.1], p.2)) = some entries :=
    addAll_keys hnodup fun _ _ => rfl
  have hsection : Entries.addSection [] ⟨[name], false, entries.map fun p => ([p.1], p.2)⟩ =
      some [(name, .table .header entries)] := by
    show ((Entries.addAll [] _).map (Value.table .header)).map (Entries.set [] name) = _
    rw [hvalues]
    rfl
  show (Entries.addSection [] _ >>= fun es => some es) = _
  rw [hsection]
  rfl

end documents

/-! ## Lines -/

/-- A line that does not start a table. -/
def StaysInTable (line : Line) : Prop := ∀ path listed, line ≠ .header path listed

section lines

variable {before after : List Line} {key : List String} {value : Value}

theorem mem_values_sections (h : ∀ line ∈ before, StaysInTable line) :
    (key, value) ∈ (sections (before ++ .entry key value :: after)).1 := by
  induction before with
  | nil => exact List.mem_cons_self
  | cons line before ih =>
    obtain ⟨hline, hbefore⟩ := List.forall_mem_cons.1 h
    cases line with
    | empty => exact ih hbefore
    | entry => exact List.mem_cons_of_mem _ (ih hbefore)
    | header path listed => exact absurd rfl (hline path listed)

/-- A header starts a section, with the values up to the next header. -/
theorem sections_header (before : List Line) (path : List String) (listed : Bool)
    (after : List Line) : sections (before ++ .header path listed :: after) =
      ((sections before).1,
        (sections before).2 ++ ⟨path, listed, (sections after).1⟩ :: (sections after).2) := by
  induction before with
  | nil => rfl
  | cons line before ih =>
    cases line <;> rw [List.cons_append, sections, ih] <;> rfl

theorem mem_sections (before : List Line) (path : List String) (listed : Bool)
    (after : List Line) : ⟨path, listed, (sections after).1⟩ ∈
      (sections (before ++ .header path listed :: after)).2 := by
  rw [sections_header]
  exact List.mem_append_right _ List.mem_cons_self

end lines

/-! ## Lines that are written -/

/-- A line with at most one key, for a table of its own or for a text. -/
inductive HasOneKey : Line → Prop
  | empty : HasOneKey .empty
  | header (name : String) : HasOneKey (.header [name] false)
  | entry (name s : String) : HasOneKey (.entry [name] (.text s))

section written

open Entries

variable {lines : List Line} {key : String} {es es' : Entries}

theorem WritesLines.hasOneKey {cs : List Char} (h : WritesLines lines cs) :
    ∀ line ∈ lines, HasOneKey line := by
  induction h with
  | nil => nofun
  | cons hline _ _ ih =>
    refine List.forall_mem_cons.2 ⟨?_, ih⟩
    cases hline with
    | empty => exact .empty
    | statement _ hbody =>
      cases hbody with
      | header => exact .header _
      | entry => exact .entry _ _

theorem forall_sections (h : ∀ line ∈ lines, HasOneKey line) :
    (∀ p ∈ (sections lines).1, ∃ name s, p = ([name], .text s)) ∧
      ∀ s ∈ (sections lines).2, ∃ name, s.path = [name] ∧ s.listed = false := by
  induction lines with
  | nil => exact ⟨nofun, nofun⟩
  | cons line lines ih =>
    obtain ⟨hline, hlines⟩ := List.forall_mem_cons.1 h
    obtain ⟨hvalues, hsections⟩ := ih hlines
    cases hline with
    | empty => exact ⟨hvalues, hsections⟩
    | header name => exact ⟨nofun, List.forall_mem_cons.2 ⟨⟨name, rfl, rfl⟩, hsections⟩⟩
    | entry name s => exact ⟨List.forall_mem_cons.2 ⟨⟨name, s, rfl⟩, hvalues⟩, hsections⟩

theorem noListAt_add {name s : String} (h : NoListAt es key)
    (hadd : es.add [name] (.text s) = some es') : NoListAt es' key := by
  obtain ⟨value, rfl, houtcome⟩ := alterOutcome hadd
  cases houtcome with
  | last hlast =>
    apply h.set
    rintro items rfl
    split at hlast <;> cases hlast

theorem noListAt_addSection {s : Section} {name : String} (hpath : s.path = [name])
    (hsingle : s.listed = false) (h : NoListAt es key) (hadd : es.addSection s = some es') :
    NoListAt es' key := by
  rw [addSection, hpath] at hadd
  obtain ⟨value, rfl, houtcome⟩ := alterOutcome hadd
  cases houtcome with
  | last hlast =>
    have hsection := last_eq_some hlast
    rw [if_neg (by simp [hsingle])] at hsection
    obtain ⟨inner, rfl, -⟩ := hsection
    exact h.set nofun

/-- Lines with one key each make no lists of tables. -/
theorem noListAt_document (h : ∀ line ∈ lines, HasOneKey line)
    (hdocument : document (sections lines).1 (sections lines).2 = some es) : NoListAt es key := by
  obtain ⟨start, hstart, hsections⟩ := Option.bind_eq_some_iff.1 hdocument
  obtain ⟨hvalues, hothers⟩ := forall_sections h
  have hempty : NoListAt [] key := nofun
  have hfront : NoListAt start key := by
    refine foldlM_induction (P := (NoListAt · key)) (fun p hp es es' hes hadd => ?_) hstart hempty
    obtain ⟨name, s, rfl⟩ := hvalues p hp
    exact noListAt_add hes hadd
  refine foldlM_induction (P := (NoListAt · key)) (fun s hs es es' hes hadd => ?_) hsections hfront
  obtain ⟨name, hpath, hsingle⟩ := hothers s hs
  exact noListAt_addSection hpath hsingle hes hadd

/-- Behind such lines the header of a table inside another table leads into a table. -/
theorem hasTable_of_inner_header {before after : List Line}
    (hbefore : ∀ line ∈ before, HasOneKey line) {next : String} {more : List String} {listed : Bool}
    (h : document (sections (before ++ .header (key :: next :: more) listed :: after)).1
      (sections (before ++ .header (key :: next :: more) listed :: after)).2 = some es) :
    HasTable es key := by
  rw [sections_header] at h
  obtain ⟨start, hstart, hall⟩ := Option.bind_eq_some_iff.1 h
  rw [List.foldlM_append] at hall
  obtain ⟨front, hfront, hback⟩ := Option.bind_eq_some_iff.1 hall
  obtain ⟨mid, hmid, hrest⟩ := Option.bind_eq_some_iff.1 hback
  have hdocument : document (sections before).1 (sections before).2 = some front :=
    Option.bind_eq_some_iff.2 ⟨start, hstart, hfront⟩
  have htable : HasTable mid key :=
    hasTable_of_alter (fun _ => noListAt_document hbefore hdocument) hmid
  exact htable.extends (extends_sections hrest)

end written

end SwiftDecls.Toml
