/-!
# Reading from the front of a text

A step of reading takes at least one character. Its result comes with the rest of the text and
with the fact that the rest is shorter, which is why a text is read in finitely many steps.
The operations on such results keep that fact, so that a reader is put together from smaller
ones without a word about lengths.
-/

set_option autoImplicit false

namespace SwiftDecls.Text

theorem length_lt_cons (c : Char) (cs : List Char) : cs.length < (c :: cs).length :=
  Nat.lt_succ_self cs.length

theorem length_dropWhile_le (p : Char → Bool) (cs : List Char) :
    (cs.dropWhile p).length ≤ cs.length := (List.dropWhile_suffix p).length_le

theorem length_drop_le (n : Nat) (cs : List Char) : (cs.drop n).length ≤ cs.length := by
  rw [List.length_drop]
  exact Nat.sub_le cs.length n

/-- A result of reading from `input`, with a rest that is shorter. -/
structure Shorter (α : Type) (input : List Char) where
  result : α
  rest : List Char
  shorter : rest.length < input.length

namespace Shorter

variable {α β : Type} {c : Char} {cs : List Char}

/-- A result that takes the first character. -/
def one (a : α) (c : Char) (cs : List Char) : Shorter α (c :: cs) := ⟨a, cs, length_lt_cons c cs⟩

theorem shorter_cons (c : Char) (s : Shorter α cs) : s.rest.length < (c :: cs).length :=
  Nat.lt_succ_of_lt s.shorter

/-- The same result, read from a text with one more character. -/
def skip (s : Shorter α cs) : Shorter α (c :: cs) := ⟨s.result, s.rest, s.shorter_cons c⟩

/-- Another result for the same piece of text. -/
def map (f : α → β) (s : Shorter α cs) : Shorter β cs := ⟨f s.result, s.rest, s.shorter⟩

theorem shorter_of_le (s : Shorter α cs) {rest : List Char} (h : rest.length ≤ s.rest.length) :
    rest.length < cs.length := Nat.lt_of_le_of_lt h s.shorter

/-- The same result with less of a rest. -/
def within (s : Shorter α cs) (rest : List Char) (h : rest.length ≤ s.rest.length) :
    Shorter α cs := ⟨s.result, rest, s.shorter_of_le h⟩

/-- The same result with a rest that does not start with characters that pass a test. -/
def dropWhile (p : Char → Bool) (s : Shorter α cs) : Shorter α cs :=
  s.within (s.rest.dropWhile p) (length_dropWhile_le p s.rest)

/-- The same result with a rest without its first characters. -/
def drop (n : Nat) (s : Shorter α cs) : Shorter α cs :=
  s.within (s.rest.drop n) (length_drop_le n s.rest)

theorem shorter_before {cs' : List Char} (s : Shorter α cs) (h : cs.length < cs'.length) :
    s.rest.length < cs'.length := Nat.lt_trans s.shorter h

/-- The same result, as read from a longer text. -/
def before {cs' : List Char} (s : Shorter α cs) (h : cs.length < cs'.length) : Shorter α cs' :=
  ⟨s.result, s.rest, s.shorter_before h⟩

/-- What is read next, as read from the whole text. -/
def next (s : Shorter α cs) (t : Shorter β s.rest) : Shorter β cs := t.before s.shorter

/-- The same result, as read with the characters in front that pass a test. -/
def behind {p : Char → Bool} (s : Shorter α (cs.dropWhile p)) : Shorter α cs :=
  ⟨s.result, s.rest, Nat.lt_of_lt_of_le s.shorter (length_dropWhile_le p cs)⟩

/-- The same result if a certain character comes next, which is taken too. -/
def expect? (c : Char) (s : Shorter α cs) : Option (Shorter α cs) :=
  if s.rest.head? = some c then some (s.drop 1) else none

/-- The first character and those after it that pass a test. -/
def span (p : Char → Bool) (c : Char) (cs : List Char) : Shorter (List Char) (c :: cs) :=
  ((one c c cs).dropWhile p).map (· :: cs.takeWhile p)

@[simp] theorem result_one (a : α) (c : Char) (cs : List Char) : (one a c cs).result = a := rfl

@[simp] theorem rest_one (a : α) (c : Char) (cs : List Char) : (one a c cs).rest = cs := rfl

@[simp] theorem result_skip (s : Shorter α cs) : (s.skip (c := c)).result = s.result := rfl

@[simp] theorem rest_skip (s : Shorter α cs) : (s.skip (c := c)).rest = s.rest := rfl

@[simp] theorem result_map (f : α → β) (s : Shorter α cs) : (s.map f).result = f s.result := rfl

@[simp] theorem rest_map (f : α → β) (s : Shorter α cs) : (s.map f).rest = s.rest := rfl

@[simp] theorem result_drop (n : Nat) (s : Shorter α cs) : (s.drop n).result = s.result := rfl

@[simp] theorem rest_drop (n : Nat) (s : Shorter α cs) : (s.drop n).rest = s.rest.drop n := rfl

@[simp] theorem result_dropWhile (p : Char → Bool) (s : Shorter α cs) :
    (s.dropWhile p).result = s.result := rfl

@[simp] theorem rest_dropWhile (p : Char → Bool) (s : Shorter α cs) :
    (s.dropWhile p).rest = s.rest.dropWhile p := rfl

@[simp] theorem result_next (s : Shorter α cs) (t : Shorter β s.rest) :
    (s.next t).result = t.result := rfl

@[simp] theorem rest_next (s : Shorter α cs) (t : Shorter β s.rest) :
    (s.next t).rest = t.rest := rfl

@[simp] theorem rest_span (p : Char → Bool) (c : Char) (cs : List Char) :
    (span p c cs).rest = cs.dropWhile p := rfl

@[simp] theorem result_span (p : Char → Bool) (c : Char) (cs : List Char) :
    (span p c cs).result = c :: cs.takeWhile p := rfl

end Shorter

/-! Readers that call one another read less of the text, or a part of an item at the same
place. -/

theorem twice_lt_twice_succ {m n : Nat} (h : m ≤ n) : 2 * m < 2 * n + 1 :=
  Nat.lt_succ_of_le (Nat.mul_le_mul_left 2 h)

theorem twice_succ_lt_twice {m n : Nat} (h : m < n) : 2 * m + 1 < 2 * n :=
  Nat.lt_of_lt_of_le (Nat.lt_succ_self (2 * m + 1)) (Nat.mul_le_mul_left 2 h)

theorem twice_succ_lt_twice_succ {m n : Nat} (h : m < n) : 2 * m + 1 < 2 * n + 1 :=
  Nat.lt_succ_of_lt (twice_succ_lt_twice h)

theorem length_of_dropWhile_eq_cons {p : Char → Bool} {cs rest : List Char} {c : Char}
    (h : cs.dropWhile p = c :: rest) : rest.length < cs.length :=
  Nat.lt_of_lt_of_le (h ▸ length_lt_cons c rest) (length_dropWhile_le p cs)

/-- The part of a text up to a character that fails a test, and the rest after it. -/
def cutUntil? (p : Char → Bool) (cs : List Char) : Option (Char × Shorter (List Char) cs) :=
  match h : cs.dropWhile p with
  | [] => none
  | c :: rest => some (c, ⟨cs.takeWhile p, rest, length_of_dropWhile_eq_cons h⟩)

end SwiftDecls.Text
