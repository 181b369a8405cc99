import SwiftDecls.Proofs.Api.Parts
import SwiftDecls.Proofs.Json.Plain

/-!
# Integers of a description

The integers of a description are the values of enum members, the sizes of types and the three
numbers of the version. Each has bounds of its own, and the plain literal of an integer is read
as that integer or, beyond the bounds, refused with the whole text (`ofJson_of_integer`). Nothing
is rounded on the way: a literal that stands for a double is refused too.
-/

set_option autoImplicit false

namespace SwiftDecls

open Json FieldRule

/-- A field with an integer. -/
inductive IntegerField : PartKind → Type
  | value : IntegerField .enumMember
  | size : IntegerField .typeSize
  | major : IntegerField .header
  | minor : IntegerField .header
  | patch : IntegerField .header
deriving DecidableEq, Repr

namespace IntegerField

variable {kind : PartKind}

def name : {kind : PartKind} → IntegerField kind → String
  | _, value => "value"
  | _, size => "size"
  | _, major => "version_major"
  | _, minor => "version_minor"
  | _, patch => "version_patch"

/-- The values of enum members have 64 bits, one of them for the sign, sizes have 64 bits, and
version numbers 32. -/
def InRange : {kind : PartKind} → IntegerField kind → Int → Prop
  | _, value, n => -0x8000000000000000 ≤ n ∧ n ≤ 0x7fffffffffffffff
  | _, size, n => 0 ≤ n ∧ n ≤ 0xffffffffffffffff
  | _, major, n | _, minor, n | _, patch, n => 0 ≤ n ∧ n ≤ 0xffffffff

instance : {kind : PartKind} → (field : IntegerField kind) → (n : Int) → Decidable (field.InRange n)
  | _, value, _ | _, size, _ | _, major, _ | _, minor, _ | _, patch, _ =>
    inferInstanceAs (Decidable (_ ∧ _))

/-- Replaces the integer. -/
def put : {kind : PartKind} → IntegerField kind → Int → kind.Record → kind.Record
  | _, value, n => fun m : EnumMember => { m with value := n }
  | _, size, n => fun t : TypeSize => { t with size := n.toNat }
  | _, major, n => fun h : Header => { h with major := n.toNat }
  | _, minor, n => fun h : Header => { h with minor := n.toNat }
  | _, patch, n => fun h : Header => { h with patch := n.toNat }

end IntegerField

/-- In the place of a number there is the plain literal of an integer. -/
inductive Renumbered (n : Int) : Value → Value → Prop
  | intro (literal : Number.Literal) : Renumbered n (.number literal) (ofInteger n)

theorem noNull_renumbered (n : Int) : NoNull (Renumbered n) := by
  rintro _ _ ⟨literal⟩
  simp [ofInteger]

theorem Renumbered.eq {n : Int} {v v' : Value} (h : Renumbered n v v') : v' = ofInteger n := by
  cases h
  rfl

/-! ## Decoders of integers -/

/-- A decoder of an integer in a record of a kind: it reads what is in range, which then goes into
its field, and refuses what is not. -/
structure ReadsInteger {kind : PartKind} (field : IntegerField kind) {β : Type} (e : Decoder β)
    (modify : (β → β) → kind.Record → kind.Record) : Prop where
  focuses : ∀ {change}, Focuses change kind.rule.decoder kind.shape [.member field.name] e modify
  reads : ∀ n, field.InRange n →
    ∃ b, e (ofInteger n) = .ok b ∧ ∀ a, modify (fun _ => b) a = field.put n a
  refuses : ∀ n, ¬field.InRange n → ∃ err, e (ofInteger n) = .error err

/-- A natural number is read as an integer that is not negative. -/
theorem nat_ofInteger {greatest n : Int} (type : String) (hgreatest : greatest ≤ 0xffffffffffffffff)
    (h : 0 ≤ n ∧ n ≤ greatest) :
    (Decoder.integer 0 greatest type (ofInteger n)).map Int.toNat = .ok n.toNat := by
  rw [integer_ofInteger type (by decide) hgreatest h]
  rfl

theorem nat_ofInteger_eq_error {greatest n : Int} (type : String) (h : ¬(0 ≤ n ∧ n ≤ greatest)) :
    ∃ err, (Decoder.integer 0 greatest type (ofInteger n)).map Int.toNat = .error err := by
  obtain ⟨err, herr⟩ := integer_ofInteger_eq_error type h
  exact ⟨err, by rw [herr]; rfl⟩

theorem exists_readsInteger {kind : PartKind} (field : IntegerField kind) :
    ∃ (β : Type) (e : Decoder β) (modify : (β → β) → kind.Record → kind.Record),
      ReadsInteger field e modify := by
  cases field with
  | value =>
    refine ⟨_, _, _, .member lawful_enumMember (t := enumMemberShape) rfl rfl 1 rfl
      ⟨(·.value), fun n m => { m with value := n }, fun _ _ => rfl, fun _ _ _ => rfl⟩ rfl
      (focuses_here Decoder.int64 .plain), fun n hn => ?_, fun n hn => ?_⟩
    · exact ⟨n, int64_ofInteger hn, fun _ => rfl⟩
    · exact integer_ofInteger_eq_error "i64" hn
  | size =>
    refine ⟨_, _, _, .member lawful_typeSize (t := typeSizeShape) rfl rfl 1 rfl
      ⟨(·.size), fun n t => { t with size := n }, fun _ _ => rfl, fun _ _ _ => rfl⟩ rfl
      (focuses_here Decoder.nat64 .plain), fun n hn => ?_, fun n hn => ?_⟩
    · exact ⟨n.toNat, nat_ofInteger "usize" (by decide) hn, fun _ => rfl⟩
    · exact nat_ofInteger_eq_error "usize" hn
  | major =>
    refine ⟨_, _, _, .member lawful_header (t := headerShape) rfl rfl 0 rfl
      ⟨(·.major), fun n h => { h with major := n }, fun _ _ => rfl, fun _ _ _ => rfl⟩ rfl
      (focuses_here Decoder.nat32 .plain), fun n hn => ?_, fun n hn => ?_⟩
    · exact ⟨n.toNat, nat_ofInteger "u32" (by decide) hn, fun _ => rfl⟩
    · exact nat_ofInteger_eq_error "u32" hn
  | minor =>
    refine ⟨_, _, _, .member lawful_header (t := headerShape) rfl rfl 1 rfl
      ⟨(·.minor), fun n h => { h with minor := n }, fun _ _ => rfl, fun _ _ _ => rfl⟩ rfl
      (focuses_here Decoder.nat32 .plain), fun n hn => ?_, fun n hn => ?_⟩
    · exact ⟨n.toNat, nat_ofInteger "u32" (by decide) hn, fun _ => rfl⟩
    · exact nat_ofInteger_eq_error "u32" hn
  | patch =>
    refine ⟨_, _, _, .member lawful_header (t := headerShape) rfl rfl 2 rfl
      ⟨(·.patch), fun n h => { h with patch := n }, fun _ _ => rfl, fun _ _ _ => rfl⟩ rfl
      (focuses_here Decoder.nat32 .plain), fun n hn => ?_, fun n hn => ?_⟩
    · exact ⟨n.toNat, nat_ofInteger "u32" (by decide) hn, fun _ => rfl⟩
    · exact nat_ofInteger_eq_error "u32" hn

/-- **An integer in a description is read exactly or refused.** -/
theorem ofJson_of_integer {v v' : Value} {text' : String} {api : Api} {kind : PartKind}
    (hv : apiRule.decoder v = .ok api) (part : Part kind) (field : IntegerField kind) {n : Int}
    (hat : At (Renumbered n) (part.path ++ [.member field.name]) apiShape v v')
    (hv' : Spells v' text') :
    (field.InRange n → Api.ofJson text' = .ok (part.modify (field.put n) api)) ∧
      (¬field.InRange n → ∃ err, Api.ofJson text' = .error err) := by
  obtain ⟨β, e, modify, hfocuses, hreads, hrefuses⟩ := exists_readsInteger field
  obtain ⟨w, w', b, hrenumbered, -, hfails, hkeeps⟩ :=
    focuses_part (noNull_renumbered n) part hfocuses v v' api hat hv
  obtain rfl : w' = ofInteger n := hrenumbered.eq
  rw [Api.ofJson, decode_of_spells hv']
  constructor
  · intro hn
    obtain ⟨c, hc, hput⟩ := hreads n hn
    have hdecoded := hkeeps (fun _ => c) hc
    rwa [funext hput] at hdecoded
  · intro hn
    obtain ⟨err, herr⟩ := hrefuses n hn
    exact ⟨err, hfails err herr⟩

end SwiftDecls
