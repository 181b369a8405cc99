import SwiftDecls.Proofs.Toml.Texts

/-!
# TOML lines written out

Headers of tables and keys with texts, with blanks, comments and empty lines wherever they may be,
are read as the lines that they are (`readDocument_writesDocument`), and complete lines also in front
of any other text (`readDocument_append`). Of a line that starts with a key only the key is needed:
if such a text can be read at all, its first line says something about that key
(`exists_entry_of_startsWithPath`, `exists_header_of_startsWithPath`).
-/

set_option autoImplicit false

namespace SwiftDecls.Toml

open Text

/-! ## What is written -/

/-- Blanks in a line. -/
def IsLineGap (gap : List Char) : Prop := ∀ c ∈ gap, isLineBlank c = true

theorem isLineGap_nil : IsLineGap [] := nofun

/-- What a line may end with: blanks and perhaps a comment. -/
inductive IsTrail : List Char → Prop
  | gap {gap : List Char} : IsLineGap gap → IsTrail gap
  | comment {gap text : List Char} : IsLineGap gap → (∀ c ∈ text, isPlain c = true) →
      IsTrail (gap ++ '#' :: text)

/-- A header of a table or a key with a text. -/
inductive WritesStatement : Line → List Char → Prop
  | header {name : String} {before key behind : List Char} : IsLineGap before →
      WritesKey name key → IsLineGap behind →
      WritesStatement (.header [name] false) ('[' :: before ++ key ++ behind ++ [']'])
  | entry {name s : String} {key before behind text : List Char} : WritesKey name key →
      IsLineGap before → IsLineGap behind → WritesBasic s text →
      WritesStatement (.entry [name] (.text s)) (key ++ before ++ '=' :: behind ++ text)

/-- A line up to its end. -/
inductive WritesLine : Line → List Char → Prop
  | empty {trail : List Char} : IsTrail trail → WritesLine .empty trail
  | statement {line : Line} {gap body trail : List Char} : IsLineGap gap →
      WritesStatement line body → IsTrail trail → WritesLine line (gap ++ body ++ trail)

/-- An end of a line. -/
inductive IsLineEnd : List Char → Prop
  | feed : IsLineEnd ['\n']
  | both : IsLineEnd ['\r', '\n']

/-- Lines with their ends. -/
inductive WritesLines : List Line → List Char → Prop
  | nil : WritesLines [] []
  | cons {line : Line} {lines : List Line} {cs ending rest : List Char} : WritesLine line cs →
      IsLineEnd ending → WritesLines lines rest → WritesLines (line :: lines) (cs ++ ending ++ rest)

/-- Lines, of which the last may be without its end. -/
inductive WritesDocument : List Line → List Char → Prop
  | complete {lines : List Line} {cs : List Char} : WritesLines lines cs → WritesDocument lines cs
  | unended {lines : List Line} {line : Line} {front last : List Char} : WritesLines lines front →
      WritesLine line last → last ≠ [] → WritesDocument (lines ++ [line]) (front ++ last)

/-- A text that starts with a key of several parts, or with a longer one. -/
inductive StartsWithPath : List String → List Char → Prop
  | key {name : String} {gap key rest : List Char} : IsLineGap gap → WritesKey name key →
      (∀ c ∈ rest.head?, isKeyChar c = false) → StartsWithPath [name] (gap ++ key ++ rest)
  | dot {name : String} {path : List String} {gap key behind rest : List Char} : IsLineGap gap →
      WritesKey name key → IsLineGap behind → StartsWithPath path rest →
      StartsWithPath (name :: path) (gap ++ key ++ (behind ++ '.' :: rest))

/-- The brackets in front of the key of a header. -/
inductive IsHeaderStart : List Char → Prop
  | single : IsHeaderStart ['[']
  | double : IsHeaderStart ['[', '[']

/-! ## Where lines and statements start -/

/-- Characters that no key starts with. -/
def keyMarks : List Char := ['[', '#', ' ', '\t', '\n', '\r', byteOrderMark]

section starts

variable {name : String} {path : List String} {line : Line}
variable {key body gap cs rest : List Char} {c : Char}

theorem WritesKey.exists_start (h : WritesKey name key) : ∃ c cs, key = c :: cs ∧ c ∉ keyMarks := by
  cases h with
  | bare hne hchars =>
    obtain ⟨c, cs, hcs⟩ := List.exists_cons_of_ne_nil hne
    refine ⟨c, cs, hcs, fun hmark => ?_⟩
    have hmarks : keyMarks.all (!isKeyChar ·) = true := by decide
    have hnot := List.all_eq_true.1 hmarks c hmark
    rw [hchars c (hcs ▸ List.mem_cons_self)] at hnot
    cases hnot
  | basic hbasic =>
    obtain ⟨hspelled⟩ := hbasic
    exact ⟨'"', _, rfl, by decide⟩
  | literal => exact ⟨'\'', _, rfl, by decide⟩

theorem StartsWithPath.exists_start (h : StartsWithPath path cs) :
    ∃ gap c rest, cs = gap ++ c :: rest ∧ IsLineGap gap ∧ c ∉ keyMarks := by
  cases h with
  | key hgap hkey | dot hgap hkey =>
    obtain ⟨c, cs, rfl, hc⟩ := hkey.exists_start
    exact ⟨_, c, _, List.append_assoc _ (c :: cs) _, hgap, hc⟩

theorem isLineBlank_eq_false (h : c ∉ keyMarks) : isLineBlank c = false := by
  rw [Bool.eq_false_iff]
  intro hblank
  simp only [isLineBlank, Bool.or_eq_true, beq_iff_eq] at hblank
  rcases hblank with rfl | rfl
  · exact h (by decide)
  · exact h (by decide)

theorem dropWhile_gap (hgap : IsLineGap gap) (h : ∀ c ∈ rest.head?, isLineBlank c = false) :
    (gap ++ rest).dropWhile isLineBlank = rest :=
  dropWhile_append_of_head? hgap h

theorem dropWhile_gap_cons (hgap : IsLineGap gap) (h : isLineBlank c = false) :
    (gap ++ c :: rest).dropWhile isLineBlank = c :: rest := by
  apply dropWhile_gap hgap
  rintro d ⟨⟩
  exact h

theorem dropWhile_gap_key (hgap : IsLineGap gap) (h : WritesKey name key) (rest : List Char) :
    (gap ++ key ++ rest).dropWhile isLineBlank = key ++ rest := by
  obtain ⟨c, cs, rfl, hc⟩ := h.exists_start
  rw [List.append_assoc]
  exact dropWhile_gap_cons hgap (isLineBlank_eq_false hc)

theorem head?_gap_ne (hgap : IsLineGap gap) (h : c ∉ keyMarks) (rest : List Char) :
    (gap ++ c :: rest).head? ≠ some '[' := by
  cases gap with
  | nil =>
    rintro ⟨⟩
    exact h (by decide)
  | cons d gap =>
    rintro ⟨⟩
    exact absurd (hgap '[' List.mem_cons_self) (by decide)

theorem isKeyChar_head?_gap (hgap : IsLineGap gap) (h : ∀ c ∈ rest.head?, isKeyChar c = false) :
    ∀ c ∈ (gap ++ rest).head?, isKeyChar c = false := by
  cases gap with
  | nil => exact h
  | cons d gap =>
    rintro _ ⟨⟩
    have hblank := hgap d List.mem_cons_self
    simp only [isLineBlank, Bool.or_eq_true, beq_iff_eq] at hblank
    rcases hblank with rfl | rfl <;> decide

end starts

/-! ## Ends of lines -/

section ends

variable {trail cs ending rest : List Char}

/-- What follows a line: its end and the rest, or nothing. -/
inductive EndsLine : List Char → List Char → Prop
  | ending {ending : List Char} (rest : List Char) : IsLineEnd ending →
      EndsLine (ending ++ rest) rest
  | last : EndsLine [] []

/-- An end of a line starts with a character that is neither blank nor plain. -/
theorem EndsLine.head? (h : EndsLine cs rest) : ∀ c ∈ cs.head?, c = '\n' ∨ c = '\r' := by
  cases h with
  | ending _ hending =>
    cases hending with
    | feed =>
      rintro c ⟨⟩
      exact .inl rfl
    | both =>
      rintro c ⟨⟩
      exact .inr rfl
  | last => nofun

theorem EndsLine.dropLineEnd? (h : EndsLine cs rest) :
    (cs = [] ∧ rest = []) ∨ (cs ≠ [] ∧ dropLineEnd? cs = some rest) := by
  cases h with
  | ending rest hending =>
    cases hending with
    | feed => exact .inr ⟨List.cons_ne_nil _ _, rfl⟩
    | both => exact .inr ⟨List.cons_ne_nil _ _, rfl⟩
  | last => exact .inl ⟨rfl, rfl⟩

/-- The end of a line is found behind blanks and a comment. -/
theorem endLine?_trail (htrail : IsTrail trail) (h : EndsLine cs rest) :
    endLine? (trail ++ cs) = some rest := by
  have hblank : ∀ c ∈ cs.head?, isLineBlank c = false := by
    intro c hc
    rcases h.head? c hc with rfl | rfl <;> decide
  have hplain : ∀ c ∈ cs.head?, isPlain c = false := by
    intro c hc
    rcases h.head? c hc with rfl | rfl <;> decide
  have hcomment : dropComment? ((trail ++ cs).dropWhile isLineBlank) = some cs := by
    cases htrail with
    | gap hgap =>
      rw [dropWhile_gap hgap hblank, dropComment?]
      rintro _ rfl
      rcases h.head? '#' rfl with hc | hc <;> cases hc
    | @comment gap text hgap htext =>
      have hbehind : (text ++ cs).dropWhile isPlain = cs := dropWhile_append_of_head? htext hplain
      rw [List.append_assoc, List.cons_append, dropWhile_gap_cons hgap (by decide), dropComment?,
        hbehind]
      rcases h.dropLineEnd? with ⟨rfl, -⟩ | ⟨-, hend⟩
      · rfl
      · rw [hend]
        simp
  rw [endLine?, hcomment]
  rcases h.dropLineEnd? with ⟨rfl, rfl⟩ | ⟨hne, hend⟩
  · rfl
  · obtain ⟨c, cs, rfl⟩ := List.exists_cons_of_ne_nil hne
    exact hend

/-- A line with a statement does not end before it. -/
theorem endLine?_start {gap : List Char} {c : Char} (hgap : IsLineGap gap)
    (h : c = '[' ∨ c ∉ keyMarks) (rest : List Char) : endLine? (gap ++ c :: rest) = none := by
  have hmarks : isLineBlank c = false ∧ c ≠ '#' ∧ c ≠ '\n' ∧ c ≠ '\r' := by
    rcases h with rfl | h
    · decide
    · refine ⟨isLineBlank_eq_false h, ?_, ?_, ?_⟩ <;>
      · rintro rfl
        exact h (by decide)
  obtain ⟨hblank, hhash, hfeed, hreturn⟩ := hmarks
  rw [endLine?, dropWhile_gap_cons hgap hblank, dropComment?]
  · dsimp only
    rw [dropLineEnd?]
    · rintro _ ⟨⟩
      exact hfeed rfl
    · rintro _ ⟨⟩
      exact hreturn rfl
  · rintro _ ⟨⟩
    exact hhash rfl

end ends

/-! ## Statements -/

section statements

variable {name s : String} {path : List String} {key gap before behind cs rest : List Char}
variable {c : Char}

theorem reads_readKey (h : WritesKey name key) (hgap : IsLineGap gap) (hkey : isKeyChar c = false)
    (hblank : isLineBlank c = false) (hdot : c ≠ '.') (rest : List Char) :
    Reads (readKey (key ++ (gap ++ c :: rest))) [name] (c :: rest) := by
  have hhead : ∀ d ∈ (gap ++ c :: rest).head?, isKeyChar d = false := by
    apply isKeyChar_head?_gap hgap
    rintro d ⟨⟩
    exact hkey
  obtain ⟨part, hpart, rfl, hrest⟩ := reads_readKeyPart h hhead
  have hbehind : part.rest.dropWhile isLineBlank = c :: rest := by
    rw [hrest, dropWhile_gap_cons hgap hblank]
  have hparts : Reads (readKeyParts (key ++ (gap ++ c :: rest))) [part.result] (c :: rest) := by
    rw [readKeyParts, readKeyWord, hpart]
    dsimp only [Option.map_some]
    split
    · rename_i rest' hdots
      rw [Shorter.rest_dropWhile, hbehind] at hdots
      cases hdots
      exact absurd rfl hdot
    · exact ⟨_, rfl, rfl, hbehind⟩
  obtain ⟨s, hs, hresult, hsrest⟩ := hparts
  refine ⟨s, ?_, hresult, hsrest⟩
  rw [readKey, hs, Option.filter_some, hresult]
  rfl

theorem expect?_of_rest {α : Type} {s : Shorter α cs} (h : s.rest = c :: rest) :
    s.expect? c = some (s.drop 1) := by
  rw [Shorter.expect?, h]
  exact if_pos rfl

theorem reads_readKeyEquals (h : WritesKey name key) (hbefore : IsLineGap before)
    (hbehind : IsLineGap behind) (hrest : ∀ c ∈ rest.head?, isLineBlank c = false) :
    Reads (readKeyEquals (key ++ (before ++ '=' :: (behind ++ rest)))) [name] rest := by
  obtain ⟨s, hs, hresult, hsrest⟩ :=
    reads_readKey h hbefore (by decide) (by decide) (by decide) (behind ++ rest) (c := '=')
  rw [readKeyEquals, hs]
  show Reads ((s.expect? '=') >>= fun key => some (key.dropWhile isLineBlank)) [name] rest
  rw [expect?_of_rest hsrest]
  refine ⟨_, rfl, hresult, ?_⟩
  rw [Shorter.rest_dropWhile, Shorter.rest_drop, hsrest]
  exact dropWhile_gap hbehind hrest

theorem reads_readValue {text : List Char} (h : WritesBasic s text)
    (hrest : ∀ c ∈ rest.head?, c ≠ '"') (room : Nat) :
    Reads (readValue room (text ++ rest)) (.text s) rest := by
  obtain @⟨spelled, hspelled⟩ := h
  have htext : '"' :: spelled ++ ['"'] ++ rest = '"' :: (spelled ++ '"' :: rest) := by simp
  rw [htext, readValue, if_pos (by decide)]
  · obtain ⟨t, ht, hresult, htrest⟩ := reads_readText hspelled hrest
    rw [ht]
    exact ⟨_, rfl, congrArg Value.text hresult, htrest⟩
  · decide
  · decide

theorem reads_readPath (h : WritesKey name key) (hbefore : IsLineGap before)
    (hbehind : IsLineGap behind) (rest : List Char) :
    Reads (readPath (before ++ key ++ (behind ++ ']' :: rest))) [name] (']' :: rest) := by
  have hread : Reads (readKey ((before ++ key ++ (behind ++ ']' :: rest)).dropWhile isLineBlank))
      [name] (']' :: rest) := by
    rw [dropWhile_gap_key hbefore h]
    exact reads_readKey h hbehind (by decide) (by decide) (by decide) rest
  obtain ⟨s, hs, hresult, hsrest⟩ := hread
  rw [readPath, hs]
  exact ⟨_, rfl, hresult, hsrest⟩

/-- A header in single brackets. -/
theorem reads_readHeader {cs : List Char} (hpath : Reads (readPath cs) path (']' :: rest))
    (hcs : cs.head? ≠ some '[') : Reads (readHeader cs) (.header path false) rest := by
  obtain ⟨s, hs, rfl, hsrest⟩ := hpath
  unfold readHeader
  split
  · exact absurd rfl hcs
  · rw [hs]
    show Reads ((s.expect? ']') >>= fun path => some (path.map (Line.header · false))) _ rest
    rw [expect?_of_rest hsrest]
    refine ⟨_, rfl, rfl, ?_⟩
    rw [Shorter.rest_map, Shorter.rest_drop, hsrest]
    rfl

/-- A statement is read, if what follows is not one more quote. -/
theorem reads_readStatement {line : Line} {body : List Char} (h : WritesStatement line body)
    (hrest : ∀ c ∈ rest.head?, c ≠ '"') : Reads (readStatement (body ++ rest)) line rest := by
  cases h with
  | @header name before key behind hbefore hkey hbehind =>
    have htext : '[' :: before ++ key ++ behind ++ [']'] ++ rest =
        '[' :: (before ++ key ++ (behind ++ ']' :: rest)) := by simp
    have hhead : (before ++ key ++ (behind ++ ']' :: rest)).head? ≠ some '[' := by
      obtain ⟨c, cs, rfl, hc⟩ := hkey.exists_start
      rw [List.append_assoc]
      exact head?_gap_ne hbefore hc (cs ++ (behind ++ ']' :: rest))
    rw [htext, readStatement]
    exact (reads_readHeader (reads_readPath hkey hbefore hbehind rest) hhead).map_skip
  | @entry name s key before behind text hkey hbefore hbehind htext =>
    have hshape : key ++ before ++ '=' :: behind ++ text ++ rest =
        key ++ (before ++ '=' :: (behind ++ (text ++ rest))) := by simp
    have hvalue : ∀ c ∈ (text ++ rest).head?, isLineBlank c = false := by
      obtain ⟨_⟩ := htext
      rintro c ⟨⟩
      rfl
    rw [hshape]
    obtain ⟨k, hk, hkresult, hkrest⟩ := reads_readKeyEquals hkey hbefore hbehind hvalue
    have hread : Reads (readValue nestingLimit k.rest) (.text s) rest := by
      rw [hkrest]
      exact reads_readValue htext hrest nestingLimit
    obtain ⟨v, hv, hvresult, hvrest⟩ := hread
    have hstatement : readStatement (key ++ (before ++ '=' :: (behind ++ (text ++ rest)))) =
        some ((k.next v).map (.entry k.result)) := by
      obtain ⟨c, cs, rfl, hc⟩ := hkey.exists_start
      rw [readStatement, hk]
      · show (readValue nestingLimit k.rest >>= fun v => some _) = _
        rw [hv]
        rfl
      · rintro _ ⟨⟩
        exact hc (by decide)
    rw [hstatement]
    refine ⟨_, rfl, ?_, hvrest⟩
    rw [Shorter.result_map, Shorter.result_next, hkresult, hvresult]

end statements

/-! ## Lines -/

section lines

variable {line : Line} {lines : List Line} {path : List String}
variable {cs front gap tail rest : List Char} {c : Char}

theorem WritesStatement.exists_start {body : List Char} (h : WritesStatement line body) :
    ∃ c cs, body = c :: cs ∧ (c = '[' ∨ c ∉ keyMarks) := by
  cases h with
  | header => exact ⟨'[', _, rfl, .inl rfl⟩
  | entry hkey =>
    obtain ⟨c, cs, rfl, hc⟩ := hkey.exists_start
    exact ⟨c, _, rfl, .inr hc⟩

theorem dropWhile_start (hgap : IsLineGap gap) (hc : c = '[' ∨ c ∉ keyMarks) (rest : List Char) :
    (gap ++ c :: rest).dropWhile isLineBlank = c :: rest := by
  apply dropWhile_gap_cons hgap
  rcases hc with rfl | hc
  · rfl
  · exact isLineBlank_eq_false hc

theorem reads_readLine (h : WritesLine line cs) (hend : EndsLine tail rest) {front : List Char}
    (hfront : cs ++ tail = c :: front) : Reads (readLine c front) line rest := by
  cases h with
  | empty htrail =>
    have hnone := endLine?_trail htrail hend
    rw [hfront] at hnone
    unfold readLine
    split
    · rename_i rest' hsome
      cases hnone.symm.trans hsome
      exact ⟨_, rfl, rfl, rfl⟩
    · rename_i hno
      cases hnone.symm.trans hno
  | @statement _ gap body trail hgap hbody htrail =>
    have htext : gap ++ body ++ trail ++ tail = gap ++ (body ++ (trail ++ tail)) := by simp
    rw [htext] at hfront
    have hquote : ∀ d ∈ (trail ++ tail).head?, d ≠ '"' := by
      rintro _ hd rfl
      have hends := endLine?_trail htrail hend
      cases hrest : trail ++ tail with
      | nil =>
        rw [hrest] at hd
        cases hd
      | cons d rest =>
        rw [hrest] at hd hends
        cases hd
        cases (endLine?_start isLineGap_nil (.inr (by decide)) rest).symm.trans hends
    have hread := reads_readStatement hbody hquote
    obtain ⟨d, body, rfl, hd⟩ := hbody.exists_start
    have hstart := endLine?_start hgap hd (body ++ (trail ++ tail))
    have hdrop := dropWhile_start hgap hd (body ++ (trail ++ tail))
    rw [← List.cons_append, hfront] at hstart hdrop
    rw [← hdrop] at hread
    obtain ⟨s, hs, rfl, hsrest⟩ := hread
    unfold readLine
    split
    · rename_i hsome
      cases hstart.symm.trans hsome
    · rw [hs]
      dsimp only [Option.bind_eq_bind, Option.bind_some]
      split
      · rename_i rest' hrest
        rw [hsrest, endLine?_trail htrail hend] at hrest
        cases hrest
        exact ⟨_, rfl, rfl, rfl⟩
      · rename_i hnone
        rw [hsrest, endLine?_trail htrail hend] at hnone
        cases hnone

theorem readDocument_cons (h : Reads (readLine c cs) line rest) :
    readDocument (c :: cs) = (readDocument rest).map (line :: ·) := by
  obtain ⟨s, hs, rfl, rfl⟩ := h
  rw [readDocument, hs]
  show (readDocument s.rest >>= fun lines => some (s.result :: lines)) = _
  cases readDocument s.rest <;> rfl

/-- Complete lines are read in front of any other text. -/
theorem readDocument_append (h : WritesLines lines front) (rest : List Char) :
    readDocument (front ++ rest) = (readDocument rest).map (lines ++ ·) := by
  induction h with
  | nil =>
    rw [List.nil_append]
    cases readDocument rest <;> rfl
  | @cons line lines cs ending front hline hending _ ih =>
    have htext : cs ++ ending ++ front ++ rest = cs ++ (ending ++ (front ++ rest)) := by simp
    have hne : cs ++ (ending ++ (front ++ rest)) ≠ [] := by
      cases hending <;> simp
    obtain ⟨c, cs', hcs⟩ := List.exists_cons_of_ne_nil hne
    rw [htext, hcs, readDocument_cons (reads_readLine hline (.ending _ hending) hcs), ih,
      Option.map_map]
    rfl

theorem exists_lines_behind (h : WritesLines lines front) {all : List Line}
    (hread : readDocument (front ++ rest) = some all) :
    ∃ behind, readDocument rest = some behind ∧ all = lines ++ behind := by
  rw [readDocument_append h] at hread
  obtain ⟨behind, hbehind, rfl⟩ := Option.map_eq_some_iff.1 hread
  exact ⟨behind, hbehind, rfl⟩

theorem readDocument_writesDocument (h : WritesDocument lines cs) :
    readDocument cs = some lines := by
  have hnil : readDocument [] = some [] := by rw [readDocument]
  cases h with
  | complete hlines =>
    have hread := readDocument_append hlines []
    rwa [List.append_nil, hnil, Option.map_some, List.append_nil] at hread
  | @unended lines line front last hlines hline hne =>
    obtain ⟨c, last, rfl⟩ := List.exists_cons_of_ne_nil hne
    have hlast : c :: last ++ [] = c :: last := List.append_nil _
    rw [readDocument_append hlines, readDocument_cons (reads_readLine hline .last hlast), hnil]
    rfl

/-! ## Lines of which the start is known -/

/-- A key that is read starts with the parts that are written. -/
theorem prefix_of_readKeyParts (h : StartsWithPath path cs)
    {s : Shorter (List String) (cs.dropWhile isLineBlank)}
    (hs : readKeyParts (cs.dropWhile isLineBlank) = some s) : path <+: s.result := by
  induction h with
  | @key name gap key rest hgap hkey hrest =>
    have hpart : Reads (readKeyPart ((gap ++ key ++ rest).dropWhile isLineBlank)) name rest := by
      rw [dropWhile_gap_key hgap hkey]
      exact reads_readKeyPart hkey hrest
    obtain ⟨part, hread, rfl, -⟩ := hpart
    rw [readKeyParts, readKeyWord, hread] at hs
    dsimp only [Option.map_some] at hs
    split at hs
    · obtain ⟨more, -, rfl⟩ := Option.map_eq_some_iff.1 hs
      exact List.prefix_append [part.result] more.result
    · cases hs
      exact List.prefix_refl _
  | @dot name path gap key behind rest hgap hkey hbehind _ ih =>
    have hhead : ∀ c ∈ (behind ++ '.' :: rest).head?, isKeyChar c = false := by
      apply isKeyChar_head?_gap hbehind
      rintro _ ⟨⟩
      rfl
    have hpart : Reads (readKeyPart ((gap ++ key ++ (behind ++ '.' :: rest)).dropWhile isLineBlank))
        name (behind ++ '.' :: rest) := by
      rw [dropWhile_gap_key hgap hkey]
      exact reads_readKeyPart hkey hhead
    obtain ⟨part, hread, rfl, hpartrest⟩ := hpart
    rw [readKeyParts, readKeyWord, hread] at hs
    dsimp only [Option.map_some] at hs
    have hdot : part.rest.dropWhile isLineBlank = '.' :: rest := by
      rw [hpartrest, dropWhile_gap_cons hbehind rfl]
    split at hs
    · rename_i rest' hrest'
      rw [Shorter.rest_dropWhile, hdot] at hrest'
      cases hrest'
      obtain ⟨more, hmore, rfl⟩ := Option.map_eq_some_iff.1 hs
      exact List.cons_prefix_cons.2 ⟨rfl, ih hmore⟩
    · rename_i hno
      exact absurd hdot (hno rest)

theorem prefix_of_readKey (h : StartsWithPath path cs)
    {s : Shorter (List String) (cs.dropWhile isLineBlank)}
    (hs : readKey (cs.dropWhile isLineBlank) = some s) : path <+: s.result :=
  prefix_of_readKeyParts h (Option.filter_eq_some_iff.1 hs).1

theorem result_of_expect? {α : Type} {s s' : Shorter α cs} (h : s.expect? c = some s') :
    s'.result = s.result := by
  unfold Shorter.expect? at h
  split at h
  · cases h
    rfl
  · cases h

/-- The line at the front of a text that can be read, if it is not an empty one. -/
theorem exists_readStatement (hgap : IsLineGap gap) (hc : c = '[' ∨ c ∉ keyMarks)
    (hread : readDocument (gap ++ c :: rest) = some lines) :
    ∃ s others, readStatement (c :: rest) = some s ∧ lines = s.result :: others := by
  have hstart := endLine?_start hgap hc rest
  have hdrop := dropWhile_start hgap hc rest
  obtain ⟨d, cs, hcs⟩ :=
    List.exists_cons_of_ne_nil (List.append_ne_nil_of_right_ne_nil gap (List.cons_ne_nil c rest))
  rw [hcs] at hstart hdrop hread
  rw [readDocument] at hread
  obtain ⟨line, hline, hothers⟩ := Option.bind_eq_some_iff.1 hread
  obtain ⟨others, -, hlines⟩ := Option.bind_eq_some_iff.1 hothers
  cases hlines
  unfold readLine at hline
  split at hline
  · rename_i hsome
    cases hstart.symm.trans hsome
  · obtain ⟨s, hs, hend⟩ := Option.bind_eq_some_iff.1 hline
    have hstatement : ∃ s', readStatement (c :: rest) = some s' ∧ s'.result = s.result := by
      rw [← hdrop]
      exact ⟨s, hs, rfl⟩
    obtain ⟨s', hs', hresult⟩ := hstatement
    split at hend
    · cases hend
      exact ⟨s', others, hs', by rw [hresult]; rfl⟩
    · cases hend

/-- A text that starts with a key starts with a line for that key, if it can be read at all. -/
theorem exists_entry_of_startsWithPath (h : StartsWithPath path cs)
    (hread : readDocument cs = some lines) :
    ∃ more value others, lines = .entry (path ++ more) value :: others := by
  obtain ⟨gap, c, rest, hcs, hgap, hc⟩ := h.exists_start
  rw [hcs] at hread
  obtain ⟨s, others, hs, rfl⟩ := exists_readStatement hgap (.inr hc) hread
  have hkeys : ∀ {s : Shorter (List String) (c :: rest)}, readKey (c :: rest) = some s →
      path <+: s.result := by
    rw [← dropWhile_start hgap (.inr hc) rest, ← hcs]
    exact prefix_of_readKey h
  rw [readStatement] at hs
  · obtain ⟨equals, hequals, hvalue⟩ := Option.bind_eq_some_iff.1 hs
    obtain ⟨value, -, hentry⟩ := Option.bind_eq_some_iff.1 hvalue
    obtain ⟨key, hkey, hbehind⟩ := Option.bind_eq_some_iff.1 hequals
    obtain ⟨marked, hmark, hgaps⟩ := Option.bind_eq_some_iff.1 hbehind
    obtain ⟨more, hmore⟩ := hkeys hkey
    have hresult : equals.result = path ++ more := by
      cases hgaps
      rw [Shorter.result_dropWhile, result_of_expect? hmark, hmore]
    cases hentry
    exact ⟨more, value.result, others, by rw [← hresult]; rfl⟩
  · rintro _ ⟨⟩
    exact hc (by decide)

theorem prefix_of_readPath (h : StartsWithPath path cs) {s : Shorter (List String) cs}
    (hs : readPath cs = some s) : path <+: s.result := by
  obtain ⟨key, hkey, rfl⟩ := Option.map_eq_some_iff.1 hs
  exact prefix_of_readKey h hkey

theorem exists_header_of_readHeader (h : StartsWithPath path cs) {brackets : List Char}
    (hbrackets : IsHeaderStart ('[' :: brackets)) {s : Shorter Line (brackets ++ cs)}
    (hs : readHeader (brackets ++ cs) = some s) :
    ∃ more listed, s.result = .header (path ++ more) listed := by
  cases hbrackets with
  | single =>
    replace hs : readHeader cs = some s := hs
    rw [readHeader] at hs
    · obtain ⟨key, hkey, hend⟩ := Option.bind_eq_some_iff.1 hs
      obtain ⟨closed, hclosed, hline⟩ := Option.bind_eq_some_iff.1 hend
      obtain ⟨more, hmore⟩ := prefix_of_readPath h hkey
      cases hline
      exact ⟨more, false, by rw [hmore, ← result_of_expect? hclosed]; rfl⟩
    · rintro rest rfl
      obtain ⟨gap, c, rest, hcs, hgap, hc⟩ := h.exists_start
      exact head?_gap_ne hgap hc rest (congrArg List.head? hcs.symm)
  | double =>
    replace hs : readHeader ('[' :: cs) = some s := hs
    rw [readHeader] at hs
    obtain ⟨key, hkey, hend⟩ := Option.bind_eq_some_iff.1 hs
    obtain ⟨closed, hclosed, hend⟩ := Option.bind_eq_some_iff.1 hend
    obtain ⟨closed', hclosed', hline⟩ := Option.bind_eq_some_iff.1 hend
    obtain ⟨more, hmore⟩ := prefix_of_readPath h hkey
    cases hline
    refine ⟨more, true, ?_⟩
    rw [hmore, ← result_of_expect? hclosed, ← result_of_expect? hclosed']
    rfl

/-- A text that starts with a header for a key starts with a line for that header. -/
theorem exists_header_of_startsWithPath (hgap : IsLineGap gap) {brackets : List Char}
    (hbrackets : IsHeaderStart brackets) (h : StartsWithPath path cs)
    (hread : readDocument (gap ++ (brackets ++ cs)) = some lines) :
    ∃ more listed others, lines = .header (path ++ more) listed :: others := by
  obtain ⟨inner, rfl⟩ : ∃ inner, brackets = '[' :: inner := by
    cases hbrackets with
    | single | double => exact ⟨_, rfl⟩
  obtain ⟨s, others, hs, rfl⟩ := exists_readStatement hgap (.inl rfl) hread
  obtain ⟨header, hheader, rfl⟩ := Option.map_eq_some_iff.1 hs
  obtain ⟨more, listed, hline⟩ := exists_header_of_readHeader h hbrackets hheader
  exact ⟨more, listed, others, by rw [← hline]; rfl⟩

/-! ## The front of a text -/

/-- A text does not start with a byte order mark. -/
def IsUnmarked (cs : List Char) : Prop := ∀ c ∈ cs.head?, c ≠ byteOrderMark

theorem IsUnmarked.cons {c : Char} (h : c ≠ byteOrderMark) (cs : List Char) :
    IsUnmarked (c :: cs) := by
  rintro _ ⟨⟩
  exact h

theorem isUnmarked_gap (hgap : IsLineGap gap) (h : IsUnmarked rest) : IsUnmarked (gap ++ rest) := by
  cases gap with
  | nil => exact h
  | cons c gap =>
    refine .cons ?_ (gap ++ rest)
    rintro rfl
    exact absurd (hgap byteOrderMark List.mem_cons_self) (by decide)

theorem isUnmarked_start (hgap : IsLineGap gap) (hc : c = '[' ∨ c ∉ keyMarks) (rest : List Char) :
    IsUnmarked (gap ++ c :: rest) := by
  apply isUnmarked_gap hgap
  refine .cons ?_ rest
  rintro rfl
  rcases hc with hc | hc
  · exact absurd hc (by decide)
  · exact hc (by decide)

theorem WritesLine.isUnmarked (h : WritesLine line cs) (hrest : IsUnmarked rest) :
    IsUnmarked (cs ++ rest) := by
  cases h with
  | empty htrail =>
    cases htrail with
    | gap hgap => exact isUnmarked_gap hgap hrest
    | @comment gap text hgap =>
      rw [List.append_assoc]
      exact isUnmarked_gap hgap (.cons (by decide) (text ++ rest))
  | @statement _ gap body trail hgap hbody =>
    obtain ⟨c, cs, rfl, hc⟩ := hbody.exists_start
    have htext : gap ++ c :: cs ++ trail ++ rest = gap ++ c :: (cs ++ trail ++ rest) := by simp
    rw [htext]
    exact isUnmarked_start hgap hc (cs ++ trail ++ rest)

theorem WritesLines.isUnmarked (h : WritesLines lines front) (hrest : IsUnmarked rest) :
    IsUnmarked (front ++ rest) := by
  cases h with
  | nil => exact hrest
  | @cons line lines cs ending front hline hending =>
    have htext : cs ++ ending ++ front ++ rest = cs ++ (ending ++ (front ++ rest)) := by simp
    rw [htext]
    apply hline.isUnmarked
    cases hending with
    | feed => exact .cons (by decide) (front ++ rest)
    | both => exact .cons (by decide) ('\n' :: (front ++ rest))

theorem WritesDocument.isUnmarked (h : WritesDocument lines cs) : IsUnmarked cs := by
  cases h with
  | complete hlines =>
    rw [← List.append_nil cs]
    exact hlines.isUnmarked nofun
  | @unended _ _ _ last hlines hline =>
    apply hlines.isUnmarked
    rw [← List.append_nil last]
    exact hline.isUnmarked nofun

theorem StartsWithPath.isUnmarked (h : StartsWithPath path cs) : IsUnmarked cs := by
  obtain ⟨gap, c, rest, rfl, hgap, hc⟩ := h.exists_start
  exact isUnmarked_start hgap (.inr hc) rest

theorem IsHeaderStart.isUnmarked {brackets : List Char} (h : IsHeaderStart brackets)
    (hgap : IsLineGap gap) (rest : List Char) : IsUnmarked (gap ++ (brackets ++ rest)) := by
  cases h with
  | single | double => exact isUnmarked_start hgap (.inl rfl) _

end lines

end SwiftDecls.Toml
