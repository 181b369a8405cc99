import SwiftDecls.Proofs.Text.Pieces
import SwiftDecls.Toml.Read

/-!
# TOML texts and keys written out

A text between double quotes can be spelled in many ways: each character as it is or with an
escape, by its letter or by its number (`SpellsChar`). Whichever way it is spelled, it is read as
the text (`reads_readText`), and so is a key (`reads_readKeyPart`). Every text can be spelled
(`exists_writesBasic`).
-/

set_option autoImplicit false

namespace SwiftDecls.Toml

open Text

/-! ## What is written -/

/-- A character between double quotes. -/
inductive SpellsChar (c : Char) : List Char → Prop
  | plain : isPlain c = true → c ≠ '"' → c ≠ '\\' → SpellsChar c [c]
  | short {letter : Char} : (letter, c) ∈ shortEscapes → SpellsChar c ['\\', letter]
  | number {letter : Char} {hex : List Char} : (letter, hex.length) ∈ numberEscapes →
      digitsIn? 16 hex = some c.toNat → SpellsChar c ('\\' :: letter :: hex)

/-- The characters of a text between double quotes. -/
inductive Spells : List Char → List Char → Prop
  | nil : Spells [] []
  | cons {c : Char} {cs spelled rest : List Char} : SpellsChar c spelled → Spells cs rest →
      Spells (c :: cs) (spelled ++ rest)

/-- A text in one line between double quotes. -/
inductive WritesBasic (s : String) : List Char → Prop
  | mk {spelled : List Char} : Spells s.toList spelled → WritesBasic s ('"' :: spelled ++ ['"'])

/-- A key: bare, or between quotes of either kind. -/
inductive WritesKey (key : String) : List Char → Prop
  | bare : key.toList ≠ [] → (∀ c ∈ key.toList, isKeyChar c = true) → WritesKey key key.toList
  | basic {text : List Char} : WritesBasic key text → WritesKey key text
  | literal : (∀ c ∈ key.toList, (isPlain c && c != '\'') = true) →
      WritesKey key ('\'' :: key.toList ++ ['\''])

theorem exists_spellsChar (c : Char) : ∃ spelled, SpellsChar c spelled := by
  by_cases hplain : isPlain c = true ∧ c ≠ '"' ∧ c ≠ '\\'
  · exact ⟨_, .plain hplain.1 hplain.2.1 hplain.2.2⟩
  · -- What cannot stand as it is has a number with two digits.
    have hsmall : c.toNat < 128 := by
      by_contra hlarge
      refine hplain ⟨?_, ?_, ?_⟩
      · have hprint : 32 ≤ c.toNat ∧ c.toNat ≠ 127 := by omega
        simp [isPlain, hprint]
      · rintro rfl
        exact hlarge (by decide)
      · rintro rfl
        exact hlarge (by decide)
    have hdigits : ∀ n < 128,
        digitsIn? 16 [Nat.digitChar (n / 16), Nat.digitChar (n % 16)] = some n := by decide
    exact ⟨_, .number (show ('x', 2) ∈ numberEscapes by decide) (hdigits c.toNat hsmall)⟩

/-- Every text can be spelled. -/
theorem exists_writesBasic (s : String) : ∃ text, WritesBasic s text := by
  suffices ∀ cs : List Char, ∃ spelled, Spells cs spelled by
    obtain ⟨spelled, h⟩ := this s.toList
    exact ⟨_, .mk h⟩
  intro cs
  induction cs with
  | nil => exact ⟨[], .nil⟩
  | cons c rest ih =>
    obtain ⟨spelled, hc⟩ := exists_spellsChar c
    obtain ⟨spelled', hrest⟩ := ih
    exact ⟨_, .cons hc hrest⟩

/-! ## Reading it -/

section reads

variable {α : Type} {c : Char} {cs rest : List Char} {a : α}

/-- Something has been read off a text, with this rest. -/
def Reads (read : Option (Shorter α cs)) (a : α) (rest : List Char) : Prop :=
  ∃ s, read = some s ∧ s.result = a ∧ s.rest = rest

theorem Reads.map_skip {read : Option (Shorter α cs)} (h : Reads read a rest) :
    Reads (read.map (Shorter.skip (c := c))) a rest := by
  obtain ⟨s, rfl, rfl, rfl⟩ := h
  exact ⟨_, rfl, rfl, rfl⟩

end reads

section texts

variable {s key : String} {text spelled cs rest : List Char}

theorem reads_readEscape {c letter : Char} (h : (letter, c) ∈ shortEscapes) (rest : List Char) :
    Reads (readEscape (letter :: rest)) c rest := by
  have hlookup : ∀ p ∈ shortEscapes, shortEscapes.lookup p.1 = some p.2 := by decide
  have hletter : shortEscapes.lookup letter = some c := hlookup _ h
  rw [readEscape, hletter]
  exact ⟨_, rfl, rfl, rfl⟩

theorem reads_readEscape_number {c letter : Char} {hex : List Char}
    (h : (letter, hex.length) ∈ numberEscapes) (hhex : digitsIn? 16 hex = some c.toNat)
    (rest : List Char) : Reads (readEscape (letter :: (hex ++ rest))) c rest := by
  have hlookup : ∀ p ∈ numberEscapes, shortEscapes.lookup p.1 = none ∧
      numberEscapes.lookup p.1 = some p.2 := by decide
  obtain ⟨hshort, hletter⟩ := hlookup _ h
  have hchar : hexChar? hex.length (hex ++ rest) = some c := by
    have hlength : ¬(hex ++ rest).length < hex.length := by simp
    rw [hexChar?, if_neg hlength, List.take_left, hhex]
    exact charOf?_toNat c
  dsimp only at hshort hletter
  rw [readEscape, hshort, hletter]
  dsimp only
  rw [hchar]
  exact ⟨_, rfl, rfl, List.drop_left⟩

/-- A spelled character is read, and the text goes on behind it. -/
theorem reads_readBasic_char {c : Char} {done : List Char} (h : SpellsChar c spelled)
    (hrest : Reads (readBasic (c :: done) cs) s rest) :
    Reads (readBasic done (spelled ++ cs)) s rest := by
  have hescape : ∀ {cs'}, Reads (readEscape cs') c cs →
      Reads (readBasic done ('\\' :: cs')) s rest := by
    rintro cs' ⟨e, he, rfl, rfl⟩
    obtain ⟨t, ht, rfl, rfl⟩ := hrest
    rw [readBasic, he]
    dsimp only
    rw [ht]
    exact ⟨_, rfl, rfl, rfl⟩
  cases h with
  | plain hplain hquote hbackslash =>
    rw [List.singleton_append, readBasic, if_pos hplain]
    · exact hrest.map_skip
    · exact hquote
    · exact hbackslash
  | short hletter => exact hescape (reads_readEscape hletter cs)
  | number hletter hhex =>
    rw [List.cons_append, List.cons_append]
    exact hescape (reads_readEscape_number hletter hhex cs)

theorem reads_readBasic (h : Spells cs spelled) (done rest : List Char) :
    Reads (readBasic done (spelled ++ '"' :: rest)) (String.ofList (done.reverse ++ cs)) rest := by
  induction h generalizing done with
  | nil =>
    rw [List.nil_append, readBasic, List.append_nil]
    exact ⟨_, rfl, rfl, rfl⟩
  | @cons c cs spelled more hc _ ih =>
    rw [List.append_assoc]
    apply reads_readBasic_char hc
    have hrest := ih (c :: done)
    rwa [List.reverse_cons, List.append_assoc, List.singleton_append] at hrest

/-- Behind a text there is no further quote, which would make three at the start of an empty
one. -/
theorem reads_readText (h : Spells s.toList spelled) (hrest : ∀ c ∈ rest.head?, c ≠ '"') :
    Reads (readText '"' (spelled ++ '"' :: rest)) s rest := by
  have hread : Reads (readBasic [] (spelled ++ '"' :: rest)) s rest := by
    have hbasic := reads_readBasic h [] rest
    rwa [List.reverse_nil, List.nil_append, String.ofList_toList] at hbasic
  have hquotes {cs : List Char} (h : Spells cs spelled) : ∀ a b tail,
      spelled ++ '"' :: rest = a :: b :: tail → ¬(a = '"' ∧ b = '"') := by
    rintro a b tail heq ⟨rfl, rfl⟩
    cases h with
    | nil =>
      cases heq
      exact hrest '"' rfl rfl
    | cons hc _ =>
      cases hc with
      | plain _ hquote _ => exact hquote (List.cons.inj heq).1
      | short | number => exact absurd (List.cons.inj heq).1 (by decide)
  have hnot := hquotes h
  generalize spelled ++ '"' :: rest = cs at hread hnot
  match cs with
  | [] | [_] =>
    rw [readText, if_pos rfl]
    · exact hread
    · nofun
  | a :: b :: tail =>
    rw [readText, if_neg (hnot a b tail rfl), if_pos rfl]
    exact hread

/-! ## Keys -/

theorem not_quote_of_isKeyChar {c : Char} (h : isKeyChar c = true) : c ≠ '"' ∧ c ≠ '\'' := by
  constructor
  · rintro rfl
    exact absurd h (by decide)
  · rintro rfl
    exact absurd h (by decide)

theorem reads_readKeyPart (h : WritesKey key text) (hrest : ∀ c ∈ rest.head?, isKeyChar c = false) :
    Reads (readKeyPart (text ++ rest)) key rest := by
  cases h with
  | bare hne hchars =>
    obtain ⟨c, cs, hcs⟩ := List.exists_cons_of_ne_nil hne
    rw [hcs] at hchars ⊢
    have hc := hchars c List.mem_cons_self
    have hall : ∀ d ∈ cs, isKeyChar d = true := fun d hd => hchars d (List.mem_cons_of_mem c hd)
    rw [List.cons_append, readKeyPart, if_pos hc]
    · refine ⟨_, rfl, ?_, dropWhile_append_of_head? hall hrest⟩
      rw [Shorter.result_map, Shorter.result_span, takeWhile_append_of_head? hall hrest, ← hcs,
        String.ofList_toList]
    · exact (not_quote_of_isKeyChar hc).1
    · exact (not_quote_of_isKeyChar hc).2
  | basic hbasic =>
    obtain ⟨hspelled⟩ := hbasic
    have hread := reads_readBasic hspelled [] rest
    rw [List.reverse_nil, List.nil_append, String.ofList_toList] at hread
    have htext {spelled : List Char} :
        '"' :: spelled ++ ['"'] ++ rest = '"' :: (spelled ++ '"' :: rest) := by simp
    rw [htext, readKeyPart]
    exact hread.map_skip
  | literal hchars =>
    obtain ⟨shorter, hcut⟩ := exists_cutUntil? (d := '\'') hchars rfl rest
    have htext : '\'' :: key.toList ++ ['\''] ++ rest = '\'' :: (key.toList ++ '\'' :: rest) := by
      simp
    rw [htext, readKeyPart, readLiteral, hcut]
    exact ⟨_, rfl, String.ofList_toList, rfl⟩

end texts

end SwiftDecls.Toml
