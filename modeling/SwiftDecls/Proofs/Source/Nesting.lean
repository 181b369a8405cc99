import SwiftDecls.Proofs.Docs.Erasure
import SwiftDecls.Proofs.Text.Flat

/-!
# Nesting of generated text

The nesting at a place of a text is the number of brackets opened before it less the number of
those closed, where documentation does not count. A text is well nested (`WellNested`) if its
nesting never goes below zero and ends at zero, and if each line is indented by the nesting it
starts at, or by one less if it starts with the closing bracket.

A walk along lines (`NestsTo`) goes from one nesting to another, line by line, so walks compose
as lists of lines do, and a walk from zero to zero makes a well nested text
(`NestsTo.wellNested`). Steps are balanced if at every depth their lines walk back to that
depth. Balanced steps are put together from lines that leave the nesting as it is, from comments,
and from blocks around balanced steps.
-/

set_option autoImplicit false

namespace SwiftDecls

open Source Text

/-! ## Counting brackets -/

/-- A bracket that opens a level. -/
def isOpener (c : Char) : Bool := c == '\x7b' || c == '['

/-- A bracket that closes a level. -/
def isCloser (c : Char) : Bool := c == '\x7d' || c == ']'

/-- The nesting after a text: openers minus closers. -/
def nesting (cs : List Char) : Int := (cs.countP isOpener : Int) - cs.countP isCloser

/-- What counts of a line: nothing of documentation. -/
def lineCode (line : List Char) : List Char := if isDocLine line then [] else line

/-- What counts of lines. -/
def codeChars (ls : List (List Char)) : List Char := ls.flatMap lineCode

/-- The number of blanks that a line starts with. -/
def blanksBefore (line : List Char) : Nat := (line.takeWhile (· == ' ')).length

/-- The first character of a line that is not a blank closes a level. -/
def startsWithCloser (line : List Char) : Bool := (line.dropWhile (· == ' ')).head?.any isCloser

/-- A text whose brackets match and whose lines are indented by their nesting. -/
structure WellNested (text : String) : Prop where
  /-- No bracket is closed that is not open. -/
  nonneg : ∀ cs, cs <+: codeChars (textLines text) → 0 ≤ nesting cs
  /-- Every bracket is closed. -/
  closed : nesting (codeChars (textLines text)) = 0
  /-- Four blanks for each level, in documentation as well. -/
  indented : ∀ before line after, textLines text = before ++ line :: after → line ≠ [] →
    (blanksBefore line : Int) =
      4 * (nesting (codeChars before) - if startsWithCloser line then 1 else 0)

@[simp] theorem nesting_nil : nesting [] = 0 := rfl

@[simp] theorem nesting_append (as bs : List Char) :
    nesting (as ++ bs) = nesting as + nesting bs := by
  simp only [nesting, List.countP_append]
  omega

@[simp] theorem codeChars_cons (line : List Char) (rest : List (List Char)) :
    codeChars (line :: rest) = lineCode line ++ codeChars rest := List.flatMap_cons

theorem nesting_nonneg_of_no_closer {cs : List Char} (h : ∀ c ∈ cs, isCloser c = false) :
    0 ≤ nesting cs := by
  have hcount : cs.countP isCloser = 0 := List.countP_eq_zero.2 fun c hc => by simp [h c hc]
  rw [nesting, hcount]
  omega

theorem isOpener_eq_false_of_not_mem {c : Char} (h : c ∉ structural) : isOpener c = false := by
  simp only [structural, List.mem_cons, not_or] at h
  simp [isOpener, h.2.1, h.2.2.2.1]

theorem isCloser_eq_false_of_not_mem {c : Char} (h : c ∉ structural) : isCloser c = false := by
  simp only [structural, List.mem_cons, not_or] at h
  simp [isCloser, h.2.2.1, h.2.2.2.2.1]

/-- A flat text does not change the nesting. -/
theorem nesting_of_isFlat {cs : List Char} (h : IsFlat cs) : nesting cs = 0 := by
  have hopen : cs.countP isOpener = 0 :=
    List.countP_eq_zero.2 fun c hc => by simp [isOpener_eq_false_of_not_mem (h c hc)]
  have hclose : cs.countP isCloser = 0 :=
    List.countP_eq_zero.2 fun c hc => by simp [isCloser_eq_false_of_not_mem (h c hc)]
  rw [nesting, hopen, hclose]
  rfl

theorem exists_of_prefix_append {as bs cs : List Char} (h : cs <+: as ++ bs) :
    cs <+: as ∨ ∃ rest, rest <+: bs ∧ cs = as ++ rest := by
  rcases List.prefix_or_prefix_of_prefix h (List.prefix_append as bs) with h' | ⟨rest, rfl⟩
  · exact .inl h'
  · exact .inr ⟨rest, (List.prefix_append_right_inj as).1 h, rfl⟩

/-! ## Walks along lines -/

/-- A line that starts at the nesting `n` and ends at the nesting `m`. -/
structure LineNests (n : Nat) (line : List Char) (m : Nat) : Prop where
  indented : line ≠ [] →
    (blanksBefore line : Int) = 4 * (n - if startsWithCloser line then 1 else 0)
  nonneg : ∀ cs, cs <+: lineCode line → 0 ≤ n + nesting cs
  change : (m : Int) = n + nesting (lineCode line)

/-- Lines that lead from one nesting to another. -/
inductive NestsTo : Nat → List (List Char) → Nat → Prop where
  | nil (n : Nat) : NestsTo n [] n
  | cons {n k m : Nat} {line : List Char} {rest : List (List Char)}
      (first : LineNests n line k) (others : NestsTo k rest m) : NestsTo n (line :: rest) m

namespace NestsTo

variable {n k m : Nat} {ls : List (List Char)}

theorem single {line : List Char} (h : LineNests n line m) : NestsTo n [line] m :=
  .cons h (.nil m)

theorem append {ls' : List (List Char)} (h : NestsTo n ls k) (h' : NestsTo k ls' m) :
    NestsTo n (ls ++ ls') m := by
  induction h with
  | nil => exact h'
  | cons first _ ih => exact .cons first (ih h')

theorem flatMap {α : Type} {f : α → List (List Char)} {as : List α}
    (h : ∀ a ∈ as, NestsTo n (f a) n) : NestsTo n (as.flatMap f) n := by
  induction as with
  | nil => exact .nil n
  | cons a rest ih =>
    rw [List.flatMap_cons]
    exact (h a List.mem_cons_self).append (ih fun b hb => h b (List.mem_cons_of_mem a hb))

theorem change (h : NestsTo n ls m) : (m : Int) = n + nesting (codeChars ls) := by
  induction h with
  | nil n => exact (Int.add_zero n).symm
  | cons first _ ih =>
    have hfirst := first.change
    rw [codeChars_cons, nesting_append]
    omega

theorem nonneg (h : NestsTo n ls m) {cs : List Char} (hcs : cs <+: codeChars ls) :
    0 ≤ n + nesting cs := by
  induction h generalizing cs with
  | nil n =>
    rw [List.prefix_nil.1 hcs, nesting_nil]
    omega
  | cons first _ ih =>
    rw [codeChars_cons] at hcs
    rcases exists_of_prefix_append hcs with hline | ⟨others, hothers, rfl⟩
    · exact first.nonneg cs hline
    · have hfirst := first.change
      have hrest := ih hothers
      rw [nesting_append]
      omega

theorem indented (h : NestsTo n ls m) {before after : List (List Char)} {line : List Char}
    (hls : ls = before ++ line :: after) (hline : line ≠ []) :
    (blanksBefore line : Int) =
      4 * (n + nesting (codeChars before) - if startsWithCloser line then 1 else 0) := by
  induction h generalizing before with
  | nil => simp at hls
  | cons first _ ih =>
    cases before with
    | nil =>
      obtain ⟨rfl, -⟩ := List.cons.inj hls
      have hzero : nesting (codeChars []) = 0 := rfl
      rw [first.indented hline, hzero, Int.add_zero]
    | cons l before =>
      obtain ⟨rfl, hrest⟩ := List.cons.inj hls
      rw [ih hrest, first.change, codeChars_cons, nesting_append, Int.add_assoc]

/-- **A walk from zero to zero makes a well nested text.** -/
theorem wellNested {text : String} (h : NestsTo 0 (textLines text) 0) : WellNested text := by
  constructor
  · intro cs hcs
    have hnonneg := h.nonneg hcs
    simpa using hnonneg
  · have hchange := h.change
    omega
  · intro before line after hls hline
    have hindented := h.indented hls hline
    simpa using hindented

end NestsTo

/-! ## Single lines -/

theorem blanksBefore_indented {line : List Char} (h : line.head? ≠ some ' ') (hne : line ≠ [])
    (depth : Nat) : blanksBefore (indented depth line) = 4 * depth := by
  obtain ⟨c, rest, rfl⟩ := List.exists_cons_of_ne_nil hne
  have hc : (c == ' ') = false := by simpa using h
  have hlength : (indentation depth).length = 4 * depth := by
    simp [indentation, indentUnit, Nat.mul_comm]
  have hblank : ∀ b ∈ indentation depth, (b == ' ') = true := fun b hb => by
    simp [blank_of_mem_indentation hb]
  rw [indented, if_neg (by simp), blanksBefore, List.takeWhile_append_of_pos hblank,
    List.takeWhile_cons_of_neg (by simp [hc]), List.append_nil, hlength]

theorem startsWithCloser_indented {line : List Char} (h : line.head? ≠ some ' ') (depth : Nat) :
    startsWithCloser (indented depth line) = line.head?.any isCloser := by
  have hline : line.dropWhile (· == ' ') = line := by
    cases line with
    | nil => rfl
    | cons c rest => exact List.dropWhile_cons_of_neg (by simpa using h)
  unfold indented
  split
  · rename_i hempty
    rw [List.isEmpty_iff.1 hempty]
    rfl
  · rw [startsWithCloser, List.dropWhile_append_of_pos fun b hb => by
      simp [blank_of_mem_indentation hb], hline]

/-- Indentation does not nest. -/
theorem nesting_of_prefix_indentation {depth : Nat} {cs : List Char}
    (h : cs <+: indentation depth) : nesting cs = 0 := by
  refine nesting_of_isFlat fun c hc => ?_
  rw [blank_of_mem_indentation (h.subset hc)]
  decide

/-- A line does indented what it does unindented. -/
theorem lineNests_indented {n m depth : Nat} {line : List Char} (h : line.head? ≠ some ' ')
    (hdepth : (depth : Int) = n - if line.head?.any isCloser then 1 else 0)
    (hnonneg : ∀ cs, cs <+: lineCode line → 0 ≤ n + nesting cs)
    (hchange : (m : Int) = n + nesting (lineCode line)) :
    LineNests n (indented depth line) m := by
  by_cases hne : line = []
  · subst hne
    exact ⟨fun hempty => absurd rfl hempty, hnonneg, hchange⟩
  have hindented : indented depth line = indentation depth ++ line :=
    if_neg (by rwa [List.isEmpty_iff])
  constructor
  · intro _
    rw [blanksBefore_indented h hne, startsWithCloser_indented h, ← hdepth]
    omega
  · intro cs hcs
    rw [lineCode, isDocLine_indented] at hcs
    rw [lineCode] at hnonneg
    split at hcs
    · rename_i hdoc
      rw [if_pos hdoc] at hnonneg
      exact hnonneg cs hcs
    · rename_i hcode
      rw [if_neg hcode] at hnonneg
      rw [hindented] at hcs
      rcases exists_of_prefix_append hcs with hblank | ⟨rest, hrest, rfl⟩
      · rw [nesting_of_prefix_indentation hblank]
        omega
      · rw [nesting_append, nesting_of_prefix_indentation (List.prefix_refl _), Int.zero_add]
        exact hnonneg rest hrest
  · rw [hchange, lineCode, lineCode, isDocLine_indented]
    split
    · rfl
    · rw [hindented, nesting_append, nesting_of_prefix_indentation (List.prefix_refl _),
        Int.zero_add]

/-- An empty line. -/
theorem lineNests_nil (n : Nat) : LineNests n [] n := by
  refine ⟨fun hempty => absurd rfl hempty, fun cs hcs => ?_, ?_⟩
  · rw [List.prefix_nil.1 hcs, nesting_nil]
    omega
  · exact (Int.add_zero _).symm

/-- Documentation, whatever is in it. -/
theorem lineNests_of_isDocLine {line : List Char} (h : line.head? ≠ some ' ')
    (hdoc : isDocLine line = true) (n : Nat) : LineNests n (indented n line) n := by
  have hcode : lineCode line = [] := if_pos hdoc
  have hcloser : line.head?.any isCloser = false := by
    cases line with
    | nil => rfl
    | cons c rest =>
      have hc : (c == ' ') = false := by simpa using h
      rw [isDocLine, List.dropWhile_cons_of_neg (by simp [hc])] at hdoc
      obtain ⟨rfl, -⟩ : '/' = c ∧ _ := by simpa using hdoc
      rfl
  refine lineNests_indented h (by simp [hcloser]) (fun cs hcs => ?_) ?_
  · rw [hcode] at hcs
    rw [List.prefix_nil.1 hcs, nesting_nil]
    omega
  · rw [hcode, nesting_nil]
    omega

/-- A flat line. -/
theorem lineNests_of_isFlat {line : List Char} (h : line.head? ≠ some ' ') (hflat : IsFlat line)
    (n : Nat) : LineNests n (indented n line) n := by
  have hcode : ∀ cs, cs <+: lineCode line → nesting cs = 0 := by
    intro cs hcs
    refine nesting_of_isFlat (hflat.of_subset fun c hc => ?_)
    have hc := hcs.subset hc
    rw [lineCode] at hc
    split at hc
    · exact absurd hc List.not_mem_nil
    · exact hc
  have hcloser : line.head?.any isCloser = false := by
    cases line with
    | nil => rfl
    | cons c rest => exact isCloser_eq_false_of_not_mem (hflat c List.mem_cons_self)
  refine lineNests_indented h (by simp [hcloser]) (fun cs hcs => ?_) ?_
  · rw [hcode cs hcs]
    omega
  · rw [hcode _ (List.prefix_refl _)]
    omega

/-- A line starts with neither a blank, a slash nor a closing bracket, so it is no documentation. -/
def startsCode (line : List Char) : Bool :=
  line.head?.any fun c => c != ' ' && c != '/' && !isCloser c

/-- A line of code that closes no level but those that it opens, and opens `k` more. -/
theorem lineNests_of_startsCode {line : List Char} {k : Nat} (h : startsCode line = true)
    (hnonneg : ∀ cs, cs <+: line → 0 ≤ nesting cs) (hchange : nesting line = k) (n : Nat) :
    LineNests n (indented n line) (n + k) := by
  cases line with
  | nil => cases h
  | cons c rest =>
    simp only [startsCode, List.head?_cons, Option.any_some, Bool.and_eq_true, bne_iff_ne,
      Bool.not_eq_true'] at h
    obtain ⟨⟨hblank, hslash⟩, hcloser⟩ := h
    have hcode : lineCode (c :: rest) = c :: rest := by
      have hdoc : isDocLine (c :: rest) = false := by
        rw [isDocLine, List.dropWhile_cons_of_neg (by simpa using hblank)]
        simp [List.isPrefixOf, Ne.symm hslash]
      rw [lineCode, if_neg (by simp [hdoc])]
    refine lineNests_indented (by simpa using hblank) (by simp [hcloser]) (fun cs hcs => ?_) ?_
    · rw [hcode] at hcs
      have hcs := hnonneg cs hcs
      omega
    · rw [hcode, hchange]
      omega

/-- A closing bracket alone stands one level further out. -/
theorem lineNests_closer {c : Char} (h : isCloser c = true) (n : Nat) :
    LineNests (n + 1) (indented n [c]) n := by
  have hnesting : nesting [c] = -1 := by
    simp only [isCloser, Bool.or_eq_true, beq_iff_eq] at h
    rcases h with rfl | rfl <;> rfl
  have hcode : lineCode [c] = [c] := by
    simp only [isCloser, Bool.or_eq_true, beq_iff_eq] at h
    rcases h with rfl | rfl <;> rfl
  have hblank : [c].head? ≠ some ' ' := by
    rintro heq
    obtain rfl : c = ' ' := by simpa using heq
    revert h
    decide
  refine lineNests_indented hblank (by simp [h]) (fun cs hcs => ?_) ?_
  · rw [hcode] at hcs
    rcases List.prefix_cons_iff.1 hcs with rfl | ⟨rest, rfl, hrest⟩
    · rw [nesting_nil]
      omega
    · rw [List.prefix_nil.1 hrest, hnesting]
      omega
  · rw [hcode, hnesting]
    omega

/-! ## Balanced steps -/

/-- At every depth the lines of the steps lead back to that depth. -/
def Balanced (steps : List Step) : Prop :=
  ∀ depth, NestsTo depth (stepLines depth steps) depth

namespace Balanced

variable {as bs body : List Step}

theorem nil : Balanced [] := fun depth => by
  rw [stepLines_nil]
  exact .nil depth

theorem append (ha : Balanced as) (hb : Balanced bs) : Balanced (as ++ bs) := fun depth => by
  rw [stepLines_append]
  exact (ha depth).append (hb depth)

theorem cons {s : Step} (hs : Balanced [s]) (hb : Balanced bs) : Balanced (s :: bs) :=
  hs.append hb

theorem flatMap {α : Type} {f : α → List Step} {xs : List α} (h : ∀ x ∈ xs, Balanced (f x)) :
    Balanced (xs.flatMap f) := by
  induction xs with
  | nil => exact nil
  | cons x rest ih =>
    rw [List.flatMap_cons]
    exact (h x List.mem_cons_self).append (ih fun y hy => h y (List.mem_cons_of_mem x hy))

theorem map {α : Type} {f : α → Step} {xs : List α} (h : ∀ x ∈ xs, Balanced [f x]) :
    Balanced (xs.map f) := by
  rw [List.map_eq_flatMap]
  exact flatMap h

theorem blank : Balanced [.blank] := fun depth => by
  rw [stepLines_cons, Step.lines, stepLines_nil]
  exact .single (lineNests_nil depth)

/-- A line without a line feed that leaves the nesting as it is. -/
theorem line {text : String} (hline : '\n' ∉ text.toList)
    (h : ∀ n, LineNests n (indented n text.toList) n) : Balanced [.line text] := fun depth => by
  rw [stepLines_cons, Step.lines, stepLines_nil, linesAt_of_not_mem hline]
  exact .single (h depth)

/-- A line that opens a level, balanced steps below it, and a closing bracket. -/
theorem enclose {opening : String} {c : Char} {depth : Nat} (hline : '\n' ∉ opening.toList)
    (hopen : LineNests depth (indented depth opening.toList) (depth + 1)) (hbody : Balanced body)
    (hclose : isCloser c = true) :
    NestsTo depth (linesAt depth opening ++ stepLines (depth + 1) body ++
      linesAt depth (String.singleton c)) depth := by
  have hc : '\n' ∉ (String.singleton c).toList := by
    rw [String.toList_singleton, List.mem_singleton]
    rintro rfl
    revert hclose
    decide
  rw [linesAt_of_not_mem hline, linesAt_of_not_mem hc, String.toList_singleton]
  exact ((NestsTo.single hopen).append (hbody (depth + 1))).append
    (.single (lineNests_closer hclose depth))

/-- A block with a flat header. -/
theorem block {header : String} (hstart : startsCode header.toList = true)
    (hflat : IsFlat header.toList) (hbody : Balanced body) :
    Balanced [.block header "" body] := fun depth => by
  have hopening : (header ++ " \x7b").toList = header.toList ++ [' ', '\x7b'] :=
    String.toList_append
  have hnesting : nesting (header ++ " \x7b").toList = (1 : Nat) := by
    rw [hopening, nesting_append, nesting_of_isFlat hflat]
    rfl
  have hcloser : ∀ c ∈ (header ++ " \x7b").toList, isCloser c = false := by
    rw [hopening]
    intro c hc
    rcases List.mem_append.1 hc with hc | hc
    · exact isCloser_eq_false_of_not_mem (hflat c hc)
    · rcases List.mem_cons.1 hc with rfl | hc
      · rfl
      · rw [List.mem_singleton.1 hc]
        rfl
  have hline : '\n' ∉ (header ++ " \x7b").toList := by
    rw [hopening, List.mem_append, not_or]
    exact ⟨hflat.lineFeed_not_mem, by decide⟩
  have hstart : startsCode (header ++ " \x7b").toList = true := by
    rw [hopening, startsCode, List.head?_append]
    cases hhead : header.toList.head? with
    | none =>
      rw [startsCode, hhead] at hstart
      cases hstart
    | some c =>
      rw [startsCode, hhead] at hstart
      exact hstart
  have hopen := lineNests_of_startsCode hstart
    (fun cs hcs => nesting_nonneg_of_no_closer fun c hc => hcloser c (hcs.subset hc)) hnesting
    depth
  have hclosing : "\x7d" ++ "" = String.singleton '\x7d' := by decide
  rw [stepLines_cons, Step.lines, stepLines_nil, List.append_nil, hclosing]
  exact (enclose hline hopen hbody rfl).append (.single (lineNests_nil depth))

theorem docComment (owner : Option String) (text : String) :
    Balanced (docComment owner text) := by
  have hlines := areLines_commentLines (Markdown.toMarkdown owner text)
  refine map fun l hl => line (lineFeed_not_mem_commentLine (hlines l hl)) fun n => ?_
  refine lineNests_of_isDocLine ?_ (isDocLine_commentLine l) n
  unfold commentLine
  split <;> simp

end Balanced

end SwiftDecls
