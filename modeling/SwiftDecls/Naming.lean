import SwiftDecls.Text.Case
import SwiftDecls.Text.Pieces

/-!
# Swift identifiers for schema names

Schema members are words in capitals joined by underscores (`SIDE_LEFT`); Swift members are in
lower camel case and may not be reserved words. A member of an enum usually repeats the enum's
name in front, and Swift drops it: `SIDE_LEFT` of `Side` is `left`. Where dropping would leave
no identifier the plain camel form stays.

* `camel` and `pascal` change the case of a name in underscore form.
* `isReserved` looks for a word in the table of reserved words, which is in order.
* `memberStem` drops the enum's name from a member, `memberName` escapes the result.
-/

set_option autoImplicit false

namespace SwiftDecls.Naming

open Text

/-- The words that Swift reserves, in ascending order. -/
def reservedWords : List String := [
  "Any", "Protocol", "Self", "Type", "as", "associatedtype", "break", "case", "catch", "class",
  "continue", "default", "defer", "deinit", "do", "else", "enum", "extension", "fallthrough",
  "false", "fileprivate", "for", "func", "guard", "if", "import", "in", "init", "inout",
  "internal", "is", "let", "nil", "open", "operator", "private", "protocol", "public", "repeat",
  "rethrows", "return", "self", "static", "struct", "subscript", "super", "switch", "throw",
  "throws", "true", "try", "typealias", "var", "where", "while"]

/-- Without its middle a list falls into two shorter ones. -/
theorem length_halves_lt {words above : List String} {middle : String}
    (h : words.drop (words.length / 2) = middle :: above) :
    (words.take (words.length / 2)).length < words.length ∧ above.length < words.length := by
  have hlength := congrArg List.length h
  rw [List.length_drop, List.length_cons] at hlength
  rw [List.length_take]
  omega

/-- Looks for a word in an ascending list by halves. -/
def findByHalves (word : String) (words : List String) : Bool :=
  match _ : words.drop (words.length / 2) with
  | [] => false
  | middle :: above =>
    if word = middle then true
    else if word < middle then findByHalves word (words.take (words.length / 2))
    else findByHalves word above
termination_by words.length
decreasing_by
  · exact (length_halves_lt ‹_›).1
  · exact (length_halves_lt ‹_›).2

/-- A word that Swift reserves. -/
def isReserved (word : String) : Bool := findByHalves word reservedWords

/-- An identifier in the form that Swift accepts: a reserved word goes between backticks. -/
def escape (word : String) : String :=
  if isReserved word then "`" ++ word ++ "`" else word

/-- Camel case from a point in the name: the next character is raised after an underscore and
lowered otherwise, and underscores go. -/
def camelFrom (raised : Bool) : List Char → List Char
  | [] => []
  | c :: rest =>
    if c = '_' then camelFrom true rest
    else (if raised then upper c else lower c) ++ camelFrom false rest

/-- The camel form of a name in underscore form. -/
def camel (name : String) : String := String.ofList (camelFrom false name.toList)

/-- A word with its first character raised. -/
def capitalize : List Char → List Char
  | [] => []
  | c :: rest => upper c ++ rest

/-- A word with its first character lowered. -/
def decapitalize : List Char → List Char
  | [] => []
  | c :: rest => lower c ++ rest

/-- The words between underscores, each capitalized, without the underscores. -/
def pascal (name : String) : String :=
  String.ofList ((name.toList.splitOn '_').flatMap capitalize)

/-- A camel form without the name of its enum, if it starts with that name in any case and an
identifier is left. -/
def dropEnumName (enumName camelled : List Char) : List Char :=
  let lowered := lowerText enumName
  if lowered.isEmpty || !lowered.isPrefixOf (lowerText camelled) then camelled
  else
    match camelled.drop enumName.length with
    | [] => camelled
    | c :: rest => if c.isDigit then camelled else decapitalize (c :: rest)

/-- The camel form of an enum member without the name of the enum. -/
def memberStem (enumName member : String) : String :=
  String.ofList (dropEnumName enumName.toList (camelFrom false member.toList))

/-- The Swift identifier of an enum member. -/
def memberName (enumName member : String) : String := escape (memberStem enumName member)

@[simp] theorem camelFrom_nil (raised : Bool) : camelFrom raised [] = [] := rfl

@[simp] theorem camelFrom_underscore (raised : Bool) (rest : List Char) :
    camelFrom raised ('_' :: rest) = camelFrom true rest := by simp [camelFrom]

end SwiftDecls.Naming
