import SwiftDecls.Xml.Piece

/-!
# Attributes of a tag

Attributes are read as far as they make sense. One without a quoted value, and one whose name
has come before, count for nothing. The reading goes on at the next white space, which for a
name that has come before can be inside its value. A value without its closing quote ends it.
-/

set_option autoImplicit false

namespace SwiftDecls.Xml

open Text

/-- An attribute: its name and what is between the quotes, as it is written. -/
abbrev Attribute : Type := List Char × List Char

/-- What follows the first white space, together with it. -/
def fromSpace (cs : List Char) : List Char := cs.dropWhile fun c => !isSpace c

/-- A value after its `=`, if it has quotes, and the text behind it. -/
def readValue (cs : List Char) : Option (List Char) × List Char :=
  match cs.dropWhile isSpace with
  | [] => (none, [])
  | q :: body =>
    if isQuote q then
      match cutAt? q body with
      | some (value, rest) => (some value, rest)
      | none => (none, [])
    else (none, fromSpace body)

theorem length_cutAt? {sep : Char} {cs value rest : List Char}
    (h : cutAt? sep cs = some (value, rest)) : rest.length < cs.length := by
  unfold cutAt? at h
  split at h
  · rename_i c after hd
    cases h
    exact length_of_dropWhile_eq_cons hd
  · cases h

theorem length_fromSpace_le (cs : List Char) : (fromSpace cs).length ≤ cs.length :=
  length_dropWhile_le (fun c => !isSpace c) cs

theorem length_readValue (cs : List Char) : (readValue cs).2.length ≤ cs.length := by
  unfold readValue
  split
  · exact Nat.zero_le cs.length
  · rename_i q body hd
    have hb : body.length < cs.length := length_of_dropWhile_eq_cons hd
    split
    · split
      · rename_i value rest hc
        exact Nat.le_of_lt (Nat.lt_trans (length_cutAt? hc) hb)
      · exact Nat.zero_le cs.length
    · exact Nat.le_trans (length_fromSpace_le body) (Nat.le_of_lt hb)

/-- A character of a name that is not its first. -/
def isNameRest (c : Char) : Bool := c != '=' && !isSpace c

/-- What follows a name that starts with `c`, without white space. -/
def behindName (cs : List Char) : List Char := (cs.dropWhile isNameRest).dropWhile isSpace

theorem length_behindName {cs rest : List Char} {c : Char} (h : cs.dropWhile isSpace = c :: rest) :
    (behindName rest).length < cs.length :=
  Nat.lt_of_le_of_lt
    (Nat.le_trans (length_dropWhile_le isSpace (rest.dropWhile isNameRest))
      (length_dropWhile_le isNameRest rest))
    (length_of_dropWhile_eq_cons h)

theorem length_behindValue {cs rest value : List Char} {c : Char}
    (h : cs.dropWhile isSpace = c :: rest) (hv : behindName rest = '=' :: value) :
    (readValue value).2.length < cs.length := by
  have hb := length_behindName h
  rw [hv] at hb
  exact Nat.lt_of_le_of_lt (length_readValue value) (Nat.lt_of_succ_lt hb)

theorem length_fromValue {cs rest value : List Char} {c : Char}
    (h : cs.dropWhile isSpace = c :: rest) (hv : behindName rest = '=' :: value) :
    (fromSpace value).length < cs.length := by
  have hb := length_behindName h
  rw [hv] at hb
  exact Nat.lt_of_le_of_lt (length_fromSpace_le value) (Nat.lt_of_succ_lt hb)

/-- The attributes in a text after those whose names are in `seen`. -/
def attributesAfter (seen : List (List Char)) (cs : List Char) : List Attribute :=
  match _hs : cs.dropWhile isSpace with
  | [] => []
  | c :: rest =>
    let name := c :: rest.takeWhile isNameRest
    match _hv : behindName rest with
    | '=' :: value =>
      if name ∈ seen then attributesAfter seen (fromSpace value)
      else
        let behind := attributesAfter (name :: seen) (readValue value).2
        match (readValue value).1 with
        | some v => (name, v) :: behind
        | none => behind
    | _ => attributesAfter seen (behindName rest)
termination_by cs.length
decreasing_by
  · exact length_fromValue _hs _hv
  · exact length_behindValue _hs _hv
  · exact length_behindName _hs

/-- The name at the start of a tag. -/
def tagName (content : List Char) : List Char := content.takeWhile fun c => !isSpace c

/-- The attributes of a tag. -/
def tagAttributes (content : List Char) : List Attribute :=
  attributesAfter [] (fromSpace content)

end SwiftDecls.Xml
