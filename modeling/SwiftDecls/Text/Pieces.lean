/-!
# Taking texts apart

`dropPrefix?` removes a known beginning and `cutAt?` cuts at the first occurrence of a
character; `segments` and `joinSegments` are the two directions between a text and its
segments between separators.
-/

set_option autoImplicit false

namespace SwiftDecls.Text

/-- What follows a known beginning. -/
def dropPrefix? : List Char → List Char → Option (List Char)
  | [], cs => some cs
  | _ :: _, [] => none
  | p :: ps, c :: cs => if p = c then dropPrefix? ps cs else none

/-- A quote of either kind, as formats put around texts. -/
def isQuote (c : Char) : Bool := c == '"' || c == '\''

/-- The mark that may stand at the start of a text. -/
def byteOrderMark : Char := '\uFEFF'

/-- A text without the mark at its start. -/
def dropByteOrderMark (cs : List Char) : List Char :=
  (dropPrefix? [byteOrderMark] cs).getD cs

/-- The parts before and after the first occurrence of a character. -/
def cutAt? (sep : Char) (cs : List Char) : Option (List Char × List Char) :=
  match cs.dropWhile (· != sep) with
  | _ :: after => some (cs.takeWhile (· != sep), after)
  | [] => none

/-- The parts before and after the last occurrence of a character. -/
def cutAtLast? (sep : Char) (cs : List Char) : Option (List Char × List Char) :=
  (cutAt? sep cs.reverse).map fun (after, before) => (before.reverse, after.reverse)

/-- The segments of a text between occurrences of a separator. -/
def segments (sep : Char) (s : String) : List String :=
  (s.toList.splitOn sep).map String.ofList

/-- A text from its segments. -/
def joinSegments (sep : Char) (parts : List String) : String :=
  String.ofList ([sep].intercalate (parts.map String.toList))

theorem dropPrefix?_eq_some_iff {pre cs rest : List Char} :
    dropPrefix? pre cs = some rest ↔ cs = pre ++ rest := by
  induction pre generalizing cs with
  | nil => simp [dropPrefix?]
  | cons p ps ih =>
    cases cs with
    | nil => simp [dropPrefix?]
    | cons c cs =>
      by_cases h : p = c
      · simp [dropPrefix?, h, ih]
      · simp [dropPrefix?, h, Ne.symm h]

@[simp] theorem dropPrefix?_append (pre rest : List Char) :
    dropPrefix? pre (pre ++ rest) = some rest := dropPrefix?_eq_some_iff.2 rfl

theorem length_lt_of_dropPrefix? {p : Char} {pre cs rest : List Char}
    (h : dropPrefix? (p :: pre) cs = some rest) : rest.length < cs.length := by
  rw [dropPrefix?_eq_some_iff.1 h]
  simp only [List.cons_append, List.length_cons, List.length_append]
  omega

/-- A text is its segments put together again. -/
@[simp] theorem joinSegments_segments (sep : Char) (s : String) :
    joinSegments sep (segments sep s) = s := by
  simp [joinSegments, segments, Function.comp_def]

end SwiftDecls.Text
