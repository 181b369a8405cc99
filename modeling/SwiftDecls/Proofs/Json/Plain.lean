import SwiftDecls.Proofs.Json.Rewriting
import SwiftDecls.Proofs.Number.Integer

/-!
# Writing values plainly

A value made of texts, integers, booleans and null has a plain text: nothing stands between its
tokens, and a string has an escape only where it cannot do without. That text spells the value
(`spells_text`).

A record is written plainly as a map of all its members in order. It can be written as the list of
their values instead (`AsList`), and lawful records do not mind (`sound_asList`).
-/

set_option autoImplicit false

namespace SwiftDecls.Json

open Number Text

variable {α : Type}

/-! ## Plain tokens -/

/-- The characters that are written as a backslash and a letter. -/
def escapeLetters : List (Char × Char) := [
  ('"', '"'), ('\\', '\\'), ('\x08', 'b'), ('\x0c', 'f'), ('\n', 'n'), ('\r', 'r'), ('\t', 't')]

/-- How a character of a string is written. -/
def escapeChar (c : Char) : List Char :=
  match escapeLetters.lookup c with
  | some letter => ['\\', letter]
  | none =>
    if c.toNat < 32 then
      ['\\', 'u', '0', '0', Nat.digitChar (c.toNat / 16), Nat.digitChar (c.toNat % 16)]
    else [c]

/-- How a string is written. -/
def quoteJson (s : String) : List Char := '"' :: (s.toList.flatMap escapeChar ++ ['"'])

/-- How a token is written, if it is a mark, a word, an integer or a text. -/
def Token.text : Token → List Char
  | openBrace => ['\x7b']
  | closeBrace => ['\x7d']
  | openBracket => ['[']
  | closeBracket => [']']
  | colon => [':']
  | comma => [',']
  | null => "null".toList
  | bool value => (if value then "true" else "false").toList
  | number literal => (if literal.negative then ['-'] else []) ++ literal.whole
  | string ⟨some s⟩ => quoteJson s
  | _ => []

/-- The plain text of a value. -/
def Value.text (v : Value) : String := String.ofList (v.tokens.flatMap Token.text)

theorem Value.text_eq {v : Value} {text : String} {cs : List Char}
    (htext : text = String.ofList cs) (h : v.tokens.flatMap Token.text = cs) : v.text = text := by
  rw [Value.text, h, htext]

/-- A text as a value. -/
def ofText (s : String) : Value := .string ⟨some s⟩

/-- An integer as a value. -/
def ofInteger (n : Int) : Value := .number (integerLiteral n)

/-- A map of members by name. -/
def objectOf (members : List (String × Value)) : Value :=
  .map (members.map fun m => (⟨some m.1⟩, m.2)) .closed

/-- A list. -/
def arrayOf (write : α → Value) (items : List α) : Value :=
  .list (items.map write) .closed

/-- A value that may be missing. -/
def orNull (write : α → Value) : Option α → Value
  | some a => write a
  | none => .null

/-- A natural number. -/
def ofNatural (n : Nat) : Value := ofInteger n

/-- A value that has a plain text. -/
inductive Value.IsPlain : Value → Prop
  | null : IsPlain .null
  | bool (value : Bool) : IsPlain (.bool value)
  | integer (n : Int) : IsPlain (ofInteger n)
  | text (s : String) : IsPlain (ofText s)
  | list {items : List Value} (plain : ∀ v ∈ items, v.IsPlain) : IsPlain (.list items .closed)
  | map {entries : List (StringLiteral × Value)} (keys : ∀ e ∈ entries, ∃ s, e.1 = ⟨some s⟩)
      (plain : ∀ e ∈ entries, e.2.IsPlain) : IsPlain (.map entries .closed)

theorem isPlain_objectOf {members : List (String × Value)} (h : ∀ m ∈ members, m.2.IsPlain) :
    (objectOf members).IsPlain := by
  refine .map (fun e he => ?_) fun e he => ?_
  · obtain ⟨m, -, rfl⟩ := List.mem_map.1 he
    exact ⟨m.1, rfl⟩
  · obtain ⟨m, hm, rfl⟩ := List.mem_map.1 he
    exact h m hm

theorem isPlain_arrayOf {write : α → Value} (h : ∀ a, (write a).IsPlain) (items : List α) :
    (arrayOf write items).IsPlain := by
  refine .list fun v hv => ?_
  obtain ⟨a, -, rfl⟩ := List.mem_map.1 hv
  exact h a

theorem isPlain_orNull {write : α → Value} (h : ∀ a, (write a).IsPlain) (a? : Option α) :
    (orNull write a?).IsPlain := by
  cases a? with
  | none => exact .null
  | some a => exact h a

theorem digitsIn?_control {n : Nat} (h : n < 32) :
    digitsIn? 16 ['0', '0', Nat.digitChar (n / 16), Nat.digitChar (n % 16)] = some n := by
  revert n
  decide

/-- The parts of a string with one more character in front. -/
theorem exists_part_of_escapeChar {body : List Char} {parts : List StringPart}
    (h : PartsSpelled body parts) (c : Char) :
    ∃ part, PartsSpelled (escapeChar c ++ body) (part :: parts) ∧
      partsText (part :: parts) = (partsText parts).map (c :: ·) := by
  unfold escapeChar
  cases hletter : escapeLetters.lookup c with
  | some letter =>
    have hknown : (letter, c) ∈ shortEscapes := by
      have hall : ∀ e ∈ escapeLetters, (e.2, e.1) ∈ shortEscapes := by decide
      obtain ⟨before, after, hletters, -⟩ := List.lookup_eq_some_iff.1 hletter
      exact hall (c, letter) (by rw [hletters]; simp)
    exact ⟨.char c, .short hknown h, rfl⟩
  | none =>
    dsimp only
    by_cases hcontrol : c.toNat < 32
    · rw [if_pos hcontrol]
      refine ⟨.unit c.toNat, .unit (digitsIn?_control hcontrol) h, ?_⟩
      have hhigh : isHighSurrogate c.toNat = false := by
        simp [isHighSurrogate]
        omega
      have hlow : isLowSurrogate c.toNat = false := by
        simp [isLowSurrogate]
        omega
      rw [partsText_unit hhigh, hlow, Char.ofNat_toNat]
      rfl
    · rw [if_neg hcontrol]
      have hnone : ∀ d ∈ escapeLetters, c ≠ d.1 := by
        rintro d hd rfl
        have := List.lookup_eq_none_iff.1 hletter d hd
        simp at this
      exact ⟨.char c, .plain (hnone ('"', '"') (by decide)) (hnone ('\\', '\\') (by decide))
        (Nat.le_of_not_lt hcontrol) h, rfl⟩

theorem stringSpelled_quoteJson (s : String) : StringSpelled (quoteJson s) ⟨some s⟩ := by
  have hparts : ∀ cs : List Char, ∃ parts, PartsSpelled (cs.flatMap escapeChar) parts ∧
      partsText parts = some cs := by
    intro cs
    induction cs with
    | nil => exact ⟨[], .nil, rfl⟩
    | cons c cs ih =>
      obtain ⟨parts, hparts, htext⟩ := ih
      obtain ⟨part, hpart, hmore⟩ := exists_part_of_escapeChar hparts c
      exact ⟨part :: parts, hpart, by rw [hmore, htext]; rfl⟩
  obtain ⟨parts, hparts, htext⟩ := hparts s.toList
  exact ⟨_, parts, hparts, by simp [htext], rfl⟩

theorem numberSpelled_integerLiteral (n : Int) :
    NumberSpelled (Token.number (integerLiteral n)).text (integerLiteral n) := by
  have hdigits : ∀ c ∈ Nat.toDigits 10 n.natAbs, c.isDigit = true :=
    fun c hc => Nat.isDigit_of_mem_toDigits (by decide) (by decide) hc
  exact ⟨⟨Nat.toDigits_ne_nil, hdigits⟩, toDigits_eq_of_head?, [], [], rfl, rfl,
    by simp [Token.text]⟩

theorem spelled_of_isMark (t : Token) (h : t.isMark = true) : t.Spelled t.text := by
  cases t with
  | openBrace | closeBrace | openBracket | closeBracket | colon | comma => rfl
  | _ => cases h

theorem isWhole_of_isPlain {v : Value} (hv : v.IsPlain) : v.IsWhole := by
  induction hv with
  | null => exact .null
  | bool b => exact .bool b
  | integer n => exact .number _
  | text s => exact .string _
  | list _ ih => exact .list ih
  | map _ _ ih => exact .map ih

theorem spelled_of_isPlain {v : Value} (hv : v.IsPlain) : ∀ t ∈ v.tokens, t.Spelled t.text := by
  induction hv with
  | null => simp [Value.tokens, Token.Spelled, Token.text]
  | bool b => simp [Value.tokens, Token.Spelled, Token.text]
  | integer n => exact List.forall_mem_singleton.2 (numberSpelled_integerLiteral n)
  | text s => exact List.forall_mem_singleton.2 (stringSpelled_quoteJson s)
  | list _ ih => exact forall_listTokens spelled_of_isMark ih
  | map keys _ ih =>
    refine forall_mapTokens spelled_of_isMark (fun e he => ?_) ih
    obtain ⟨s, hs⟩ := keys e he
    rw [hs]
    exact stringSpelled_quoteJson s

/-- **A plain text spells its value.** -/
theorem spells_text {v : Value} (hv : v.IsPlain) : Spells v v.text := by
  have htokens : ∀ ts : List Token, (∀ t ∈ ts, t.Spelled t.text) →
      TokensSpelled ts (ts.flatMap Token.text) := by
    intro ts hts
    induction ts with
    | nil => exact .nil
    | cons t ts ih =>
      obtain ⟨ht, hts⟩ := List.forall_mem_cons.1 hts
      exact .token ht (ih hts)
  refine ⟨isWhole_of_isPlain hv, ?_⟩
  rw [Value.text, String.toList_ofList]
  exact htokens _ (spelled_of_isPlain hv)

/-! ## Records of all their fields -/

/-- The members of a map of all fields in order. -/
theorem known_of_inOrder {rule : RecordRule α} (h : rule.Lawful)
    {entries : List (StringLiteral × Value)}
    (inOrder : entries.map (·.1) = rule.fields.map fun f => ⟨some f.name⟩) :
    rule.known entries = rule.fields.zip (entries.map (·.2)) := by
  have hsuffix : ∀ (fields : List (FieldRule α)) (entries : List (StringLiteral × Value)),
      (∀ f ∈ fields, f ∈ rule.fields) →
      entries.map (·.1) = fields.map (fun f => ⟨some f.name⟩) →
      rule.known entries = fields.zip (entries.map (·.2)) := by
    intro fields entries hfields hnames
    induction entries generalizing fields with
    | nil => cases fields <;> simp_all [RecordRule.known]
    | cons e entries ih =>
      cases fields with
      | nil => cases hnames
      | cons f fields =>
        obtain ⟨hname, hnames⟩ := List.cons.inj hnames
        have hfield : rule.field? e.1 = some f := by
          rw [show e.1 = ⟨some f.name⟩ from hname]
          exact RecordRule.field?_name h (hfields f List.mem_cons_self)
        rw [RecordRule.known_cons_of_field hfield,
          ih fields (fun f hf => hfields f (List.mem_cons_of_mem _ hf)) hnames]
        rfl
  exact hsuffix rule.fields entries (fun _ hf => hf) inOrder

theorem namesOf_zip {fields : List (FieldRule α)} {values : List Value}
    (h : fields.length = values.length) :
    namesOf (fields.zip values) = fields.map (·.name) := by
  have hfields : (fields.zip values).map Prod.fst = fields := List.map_fst_zip (Nat.le_of_eq h)
  conv_rhs => rw [← hfields, List.map_map]
  rfl

/-- A map of all fields in order is a record if the values can be put into it. -/
theorem mapFits_of_inOrder {rule : RecordRule α} (h : rule.Lawful)
    {entries : List (StringLiteral × Value)}
    (inOrder : entries.map (·.1) = rule.fields.map fun f => ⟨some f.name⟩) {a : α}
    (hputs : putAll (rule.fields.zip (entries.map (·.2))) rule.start = .ok a) :
    rule.MapFits entries a := by
  have hlength : entries.length = rule.fields.length := by
    simpa using congrArg List.length inOrder
  have hnames : namesOf (rule.known entries) = rule.fields.map (·.name) := by
    rw [known_of_inOrder h inOrder, namesOf_zip (by simp [hlength])]
  have hfield : ∀ e ∈ entries, ∃ f ∈ rule.fields, e.1 = ⟨some f.name⟩ := by
    intro e he
    have hmem : e.1 ∈ rule.fields.map fun f => (⟨some f.name⟩ : StringLiteral) :=
      inOrder ▸ List.mem_map_of_mem he
    obtain ⟨f, hf, hname⟩ := List.mem_map.1 hmem
    exact ⟨f, hf, hname.symm⟩
  refine ⟨fun e he => ?_, fun e he hnone => ?_, ?_, fun f hf _ => ?_, ?_⟩
  · obtain ⟨f, -, hkey⟩ := hfield e he
    rw [hkey]
    rfl
  · obtain ⟨f, hf, hkey⟩ := hfield e he
    rw [hkey, RecordRule.field?_name h hf] at hnone
    cases hnone
  · rw [hnames]
    exact h.names
  · rw [hnames]
    exact List.mem_map_of_mem hf
  · rw [known_of_inOrder h inOrder]
    exact hputs

/-! ## Reading plain values back -/

theorem integer_ofInteger {least greatest n : Int} (type : String)
    (hleast : -0x8000000000000000 ≤ least) (hgreatest : greatest ≤ 0xffffffffffffffff)
    (h : least ≤ n ∧ n ≤ greatest) :
    Decoder.integer least greatest type (ofInteger n) = .ok n := by
  have hkind : (Token.number (integerLiteral n)).kind = .ok (.integer n) := by
    unfold Token.kind
    by_cases hneg : n < 0
    · have hvalue := value?_integerLiteral_of_neg hneg (by unfold wordLimit; omega)
      simp only [hvalue]
      congr 2
      omega
    · have hvalue :=
        value?_integerLiteral_of_nonneg (Int.not_lt.1 hneg) (by unfold wordLimit; omega)
      simp only [hvalue]
      congr 2
      omega
  simp only [ofInteger, Decoder.integer, hkind, h, and_self, if_true]

/-- An integer beyond the bounds is refused, also where its literal is read as a double. -/
theorem integer_ofInteger_eq_error {least greatest n : Int} (type : String)
    (h : ¬(least ≤ n ∧ n ≤ greatest)) :
    ∃ e, Decoder.integer least greatest type (ofInteger n) = .error e := by
  have hinteger (hkind : (Token.number (integerLiteral n)).kind = .ok (.integer n)) :
      Decoder.integer least greatest type (ofInteger n) =
        .error (.data (.wrongInteger n type)) := by
    simp only [ofInteger, Decoder.integer, hkind, h, if_false]
  rcases value?_integerLiteral_cases n with ⟨hnonneg, hvalue⟩ | ⟨hneg, hvalue⟩ | ⟨text?, hvalue⟩
  · refine ⟨_, hinteger ?_⟩
    simp only [Token.kind, hvalue]
    congr 2
    omega
  · refine ⟨_, hinteger ?_⟩
    simp only [Token.kind, hvalue]
    congr 2
    omega
  · cases text? with
    | none =>
      have hkind : (Token.number (integerLiteral n)).kind = .error .malformed := by
        simp [Token.kind, hvalue]
      refine ⟨.fault .malformed, ?_⟩
      simp only [ofInteger, Decoder.integer, wrongKind, Value.kind, hkind]
    | some text =>
      have hkind : (Token.number (integerLiteral n)).kind = .ok (.double text) := by
        simp [Token.kind, hvalue]
      refine ⟨.data (.wrongKind (.double text) type), ?_⟩
      simp only [ofInteger, Decoder.integer, wrongKind, Value.kind, hkind]

theorem nat32_ofNatural {n : Nat} (h : n ≤ 0xffffffff) :
    Decoder.nat32 (ofNatural n) = .ok n := by
  unfold Decoder.nat32 ofNatural
  rw [integer_ofInteger "u32" (by decide) (by decide) (by omega)]
  rfl

theorem nat64_ofNatural {n : Nat} (h : n ≤ 0xffffffffffffffff) :
    Decoder.nat64 (ofNatural n) = .ok n := by
  unfold Decoder.nat64 ofNatural
  rw [integer_ofInteger "usize" (by decide) (by decide) (by omega)]
  rfl

theorem int64_ofInteger {n : Int} (h : -0x8000000000000000 ≤ n ∧ n ≤ 0x7fffffffffffffff) :
    Decoder.int64 (ofInteger n) = .ok n := integer_ofInteger "i64" (by decide) (by decide) h

theorem list_arrayOf {d : Decoder α} {write : α → Value} {items : List α}
    (h : ∀ a ∈ items, d (write a) = .ok a) : Decoder.list d (arrayOf write items) = .ok items := by
  refine list_eq_ok_iff.2 ⟨_, rfl, ?_⟩
  rw [List.forall₂_map_left_iff]
  exact List.forall₂_same.2 h

theorem string_ofText (s : String) : Decoder.string (ofText s) = .ok s := rfl

theorem bool_bool (b : Bool) : Decoder.bool (.bool b) = .ok b := rfl

theorem optional_orNull {d : Decoder α} {write : α → Value} {a? : Option α}
    (hne : ∀ a, write a ≠ .null) (h : ∀ a ∈ a?, d (write a) = .ok a) :
    Decoder.optional d (orNull write a?) = .ok a? := by
  cases a? with
  | none => rfl
  | some a =>
    rw [orNull, optional_of_ne_null d (hne a), h a rfl]
    rfl

/-- A record is read back from a map of all its fields in order. -/
theorem decoder_objectOf {rule : RecordRule α} (hrule : rule.Lawful)
    {members : List (String × Value)} (hnames : members.map (·.1) = rule.fields.map (·.name))
    {a : α} (hputs : putAll (rule.fields.zip (members.map (·.2))) rule.start = .ok a) :
    rule.decoder (objectOf members) = .ok a := by
  refine RecordRule.decoder_eq_ok_iff.2 (.inl ⟨_, rfl, mapFits_of_inOrder hrule ?_ ?_⟩)
  · have hkeys := congrArg (List.map fun name => (⟨some name⟩ : StringLiteral)) hnames
    simpa [Function.comp_def] using hkeys
  · simpa [Function.comp_def] using hputs

/-- A record is read back field by field. -/
theorem putAll_must {β : Type} {name : String} {d : Decoder β} {set : β → α → α} {v : Value} {x : β}
    {fields : List (FieldRule α × Value)} {a b : α} (h : d v = .ok x)
    (hrest : putAll fields (set x a) = .ok b) :
    putAll ((FieldRule.must name d set, v) :: fields) a = .ok b :=
  foldlM_cons_eq_ok_iff.2 ⟨set x a, FieldRule.put_must_eq_ok_iff.2 ⟨x, h, rfl⟩, hrest⟩

theorem putAll_may {β : Type} {name : String} {d : Decoder β} {set : β → α → α} {v : Value} {x : β}
    {fields : List (FieldRule α × Value)} {a b : α} (h : d v = .ok x)
    (hrest : putAll fields (set x a) = .ok b) :
    putAll ((FieldRule.may name d set, v) :: fields) a = .ok b :=
  foldlM_cons_eq_ok_iff.2 ⟨set x a, FieldRule.put_may_eq_ok_iff.2 ⟨x, h, rfl⟩, hrest⟩

/-! ## Records as lists -/

/-- A record that is written as a map of all its members in order is written as the list of their
values. -/
inductive AsList (members : List (Member Shape)) : Value → Value → Prop
  | mk {entries : List (StringLiteral × Value)}
      (inOrder : entries.map (·.1) = members.map fun m => ⟨some m.name⟩) :
      AsList members (.map entries .closed) (.list (entries.map (·.2)) .closed)

/-- A value stays plain where records in it are written as lists. -/
theorem isPlain_of_asList {s : Shape} {v v' : Value} (h : Within AsList s v v') (hv : v.IsPlain) :
    v'.IsPlain := by
  induction h with
  | here taken =>
    cases taken with
    | mk _ =>
      cases hv with
      | map _ plain => exact .list (List.forall_mem_map.2 plain)
  | item _ ih | place _ _ ih =>
    cases hv with
    | list plain =>
      obtain ⟨hbefore, hrest⟩ := List.forall_mem_append.1 plain
      obtain ⟨hitem, hafter⟩ := List.forall_mem_cons.1 hrest
      exact .list (List.forall_mem_append.2 ⟨hbefore, List.forall_mem_cons.2 ⟨ih hitem, hafter⟩⟩)
  | entry _ _ ih =>
    cases hv with
    | map keys plain =>
      obtain ⟨hkeys, hkeysRest⟩ := List.forall_mem_append.1 keys
      obtain ⟨-, hkeysAfter⟩ := List.forall_mem_cons.1 hkeysRest
      obtain ⟨hbefore, hrest⟩ := List.forall_mem_append.1 plain
      obtain ⟨hvalue, hafter⟩ := List.forall_mem_cons.1 hrest
      exact .map
        (List.forall_mem_append.2 ⟨hkeys, List.forall_mem_cons.2 ⟨⟨_, rfl⟩, hkeysAfter⟩⟩)
        (List.forall_mem_append.2 ⟨hbefore, List.forall_mem_cons.2 ⟨ih hvalue, hafter⟩⟩)

theorem members_names {rule : RecordRule α} {shapes : List Shape}
    (hshapes : rule.fields.length = shapes.length) :
    ((rule.members shapes).map fun m => (⟨some m.name⟩ : StringLiteral)) =
      rule.fields.map fun f => ⟨some f.name⟩ := by
  have hfields : (rule.fields.zip shapes).map Prod.fst = rule.fields :=
    List.map_fst_zip (Nat.le_of_eq hshapes)
  rw [RecordRule.members, List.map_map]
  conv_rhs => rw [← hfields, List.map_map]
  rfl

/-- **Lawful records can be written as lists.** -/
theorem sound_asList : Sound AsList where
  noNull members v v' h := by
    cases h
    simp
  keeps α rule shapes hrule hshapes v v' a h hv := by
    cases h with
    | @mk entries inOrder =>
      rw [members_names hshapes] at inOrder
      have hlength : entries.length = rule.fields.length := by
        simpa using congrArg List.length inOrder
      have hfits : rule.MapFits entries a := by simpa [RecordRule.decoder_eq_ok_iff] using hv
      have hputs := hfits.puts
      rw [known_of_inOrder hrule inOrder] at hputs
      refine RecordRule.decoder_eq_ok_iff.2 (.inr ⟨_, rfl, ?_, ?_, hputs⟩)
      · simp [hlength]
      · simp [hlength]

end SwiftDecls.Json
