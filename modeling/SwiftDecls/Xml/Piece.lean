import SwiftDecls.Text.Blank
import SwiftDecls.Text.Pieces
import SwiftDecls.Text.Shorter
import SwiftDecls.Xml.Fault

/-!
# Pieces of a marked-up text

A text falls into character data, references and markup. Markup starts with `<` and ends at a
`>`: for a tag at the first outside quotes, for the other kinds at the first that comes after
the kind's own closing mark. Only data, references and tags matter; comments, instructions,
the document type and character data sections are passed over.
-/

set_option autoImplicit false

namespace SwiftDecls.Xml

open Text

/-- A piece of a text. -/
inductive Piece where
  | text (cs : List Char)
  /-- The name between `&` and `;`. -/
  | reference (name : List Char)
  /-- What is between `<` and `>`. -/
  | tag (content : List Char)
  /-- What is between `</` and `>`. -/
  | closing (content : List Char)
  /-- Markup that is passed over. -/
  | passed
deriving DecidableEq, Repr

/-- The quote that is open after a character. -/
def quoteAfter (quote : Option Char) (c : Char) : Option Char :=
  match quote with
  | some q => if c = q then none else some q
  | none => if isQuote c then some c else none

/-- Cuts at the first `>` outside quotes. `before` holds the characters so far, last one
first. -/
def cutTag (quote : Option Char) (before : List Char) :
    List Char → Except Fault (List Char × List Char)
  | [] =>
    match quote with
    | some q => .error (.openValue q)
    | none => .error .openTag
  | c :: rest =>
    if quote.isNone && c == '>' then .ok (before.reverse, rest)
    else cutTag (quoteAfter quote c) (c :: before) rest

theorem length_of_cutTag {quote : Option Char} {before cs content rest : List Char}
    (h : cutTag quote before cs = .ok (content, rest)) : rest.length < cs.length := by
  fun_induction cutTag quote before cs <;> simp_all; omega

/-- Cuts at the first `>` that is ready to end. `before` holds the characters so far, last one
first. -/
def cutWhen? (ready : List Char → Bool) (before : List Char) :
    List Char → Option (List Char × List Char)
  | [] => none
  | c :: rest =>
    if c == '>' && ready before then some (before.reverse, rest)
    else cutWhen? ready (c :: before) rest

theorem length_of_cutWhen? {ready : List Char → Bool} {before cs content rest : List Char}
    (h : cutWhen? ready before cs = some (content, rest)) : rest.length < cs.length := by
  fun_induction cutWhen? ready before cs <;> simp_all; omega

/-- The fault of an instruction without its end. -/
def openInstructionFault (content : List Char) : Fault :=
  match dropPrefix? "xml".toList content with
  | none => .openInstruction
  | some [] => .openDeclaration
  | some (c :: _) => if isSpace c || c == '?' then .openDeclaration else .openInstruction

/-- An instruction after `<?`. It ends with `?>`, which can share its question mark with `<?`
only to be refused. -/
def readInstruction (cs : List Char) : Except Fault (Shorter Piece cs) :=
  match h : cutWhen? (·.head? == some '?') ['?'] cs with
  | none => .error (openInstructionFault cs)
  | some (['?'], _) => .error .openInstruction
  | some (_, rest) => .ok ⟨.passed, rest, length_of_cutWhen? h⟩

/-- A comment after `<!`. It starts with `--` and ends with a `-->` of its own. -/
def readComment (cs : List Char) : Except Fault (Shorter Piece cs) :=
  match h : cutWhen? (fun before => "--".toList.isPrefixOf before && 4 ≤ before.length) [] cs with
  | none => .error .openComment
  | some (content, rest) =>
    if "--".toList.isPrefixOf content then .ok ⟨.passed, rest, length_of_cutWhen? h⟩
    else .error .openComment

/-- A character data section after `<!`. -/
def readCharacterData (cs : List Char) : Except Fault (Shorter Piece cs) :=
  match h : cutWhen? ("]]".toList.isPrefixOf ·) [] cs with
  | none => .error .openCharacterData
  | some (content, rest) =>
    if "[CDATA[".toList.isPrefixOf content then .ok ⟨.passed, rest, length_of_cutWhen? h⟩
    else .error .openCharacterData

/-- A tag after `<` or `</`. -/
def readTag (make : List Char → Piece) (cs : List Char) : Except Fault (Shorter Piece cs) :=
  match h : cutTag none [] cs with
  | .error f => .error f
  | .ok (content, rest) => .ok ⟨make content, rest, length_of_cutTag h⟩

/-! ## Document types -/

/-- What is behind the `<` of something in the internal subset of a document type. -/
inductive SubsetMarkup where
  | comment
  | instruction
  /-- A declaration in which a `>` between quotes is no end. -/
  | quoting

/-- How the markup of an internal subset starts. All other markup ends at its first `>`, also
between quotes. -/
def subsetWords : List (List Char × SubsetMarkup) := [
  ("!--".toList, .comment), ("?".toList, .instruction), ("!ATTLIST".toList, .quoting),
  ("!ENTITY".toList, .quoting), ("!NOTATION".toList, .quoting)]

/-- Where in a document type one is. -/
inductive DoctypePlace where
  /-- Before the internal subset, perhaps between quotes. -/
  | outside (quote : Option Char)
  /-- Between the declarations of the internal subset. -/
  | subset
  /-- Behind the `<` of something in the internal subset, with the characters since; they may
  become one of the known words. -/
  | start (before : List Char)
  /-- In a declaration with quotes, perhaps between them. -/
  | declaration (quote : Option Char)
  /-- In other markup. -/
  | other
  /-- In a comment of the internal subset, with its last two characters. -/
  | comment (before : List Char)
  /-- In an instruction of the internal subset; its last character was a question mark. -/
  | instruction (ready : Bool)
  /-- Behind the internal subset. -/
  | after
deriving DecidableEq, Repr

/-- The place at the first characters of something in the internal subset. -/
def DoctypePlace.ofStart (marks : List Char) : DoctypePlace :=
  match subsetWords.lookup marks with
  | some .comment => comment []
  | some .instruction => instruction false
  | some .quoting => declaration none
  | none => if subsetWords.any (marks.isPrefixOf ·.1) then start marks else other

/-- The place after a character. -/
def DoctypePlace.step (p : DoctypePlace) (c : Char) : DoctypePlace :=
  match p with
  | outside none => if c = '[' then subset else outside (quoteAfter none c)
  | outside quote => outside (quoteAfter quote c)
  | subset => if c = '<' then start [] else if c = ']' then after else subset
  | start before => if c = '>' then subset else ofStart (before ++ [c])
  | declaration quote =>
    if quote.isNone && c == '>' then subset else declaration (quoteAfter quote c)
  | other => if c = '>' then subset else other
  | comment before =>
    if c = '>' && before == ['-', '-'] then subset else comment (c :: before.take 1)
  | instruction ready => if ready && c == '>' then subset else instruction (c == '?')
  | after => after

/-- A `>` at this place ends the document type. -/
def DoctypePlace.ends : DoctypePlace → Bool
  | outside none | after => true
  | _ => false

/-- Cuts at the end of a document type. `before` holds the characters so far, last one
first. -/
def cutDoctype? (p : DoctypePlace) (before : List Char) :
    List Char → Option (List Char × List Char)
  | [] => none
  | c :: rest =>
    if c == '>' && p.ends then some (before.reverse, rest)
    else cutDoctype? (p.step c) (c :: before) rest

theorem length_of_cutDoctype? {p : DoctypePlace} {before cs content rest : List Char}
    (h : cutDoctype? p before cs = some (content, rest)) : rest.length < cs.length := by
  fun_induction cutDoctype? p before cs <;> simp_all; omega

/-- The word after `<!` in a document type. -/
def doctypeWord : List Char := "DOCTYPE".toList

/-- A document type after `<!`. It starts with its word in either case and has a name. -/
def readDoctype (cs : List Char) : Except Fault (Shorter Piece cs) :=
  match h : cutDoctype? (.outside none) [] cs with
  | none => .error .openDoctype
  | some (content, rest) =>
    if (content.take doctypeWord.length).map Char.toUpper ≠ doctypeWord then .error .openDoctype
    else if (content.drop doctypeWord.length).all isSpace then .error .doctypeWithoutName
    else .ok ⟨.passed, rest, length_of_cutDoctype? h⟩

/-! ## Reading pieces -/

/-- Markup after `<!`. Its first character says what it is. -/
def readSpecial (cs : List Char) : Except Fault (Shorter Piece cs) :=
  match cs.head? with
  | some '[' => readCharacterData cs
  | some '-' => readComment cs
  | some 'D' | some 'd' => readDoctype cs
  | _ => .error .unknownMarkup

/-- Markup after `<`. -/
def readMarkup (cs : List Char) : Except Fault (Shorter Piece cs) :=
  match cs with
  | '!' :: rest => (readSpecial rest).map .skip
  | '?' :: rest => (readInstruction rest).map .skip
  | '/' :: rest => (readTag .closing rest).map .skip
  | cs => readTag .tag cs

/-- A reference after `&`. -/
def readReference (cs : List Char) : Except Fault (Shorter Piece cs) :=
  match cutUntil? (fun c => c != ';' && c != '&' && c != '<') cs with
  | some (';', s) => .ok (s.map .reference)
  | _ => .error .openReference

/-- Character data ends before markup and references. -/
def isData (c : Char) : Bool := c != '<' && c != '&'

/-- The first piece of a text. -/
def readPiece (c : Char) (cs : List Char) : Except Fault (Shorter Piece (c :: cs)) :=
  if c = '<' then (readMarkup cs).map .skip
  else if c = '&' then (readReference cs).map .skip
  else .ok ((Shorter.span isData c cs).map .text)

/-- A text as far as it can be read, and what is wrong with it. -/
structure Pieces where
  pieces : List Piece
  fault : Option Fault

/-- The pieces of a text. -/
def readPieces (cs : List Char) : Pieces :=
  match cs with
  | [] => ⟨[], none⟩
  | c :: rest =>
    match readPiece c rest with
    | .error f => ⟨[], some f⟩
    | .ok s =>
      let p := readPieces s.rest
      ⟨s.result :: p.pieces, p.fault⟩
termination_by cs.length
decreasing_by exact s.shorter

end SwiftDecls.Xml
