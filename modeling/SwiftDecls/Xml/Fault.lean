/-!
# What is wrong with a marked-up text

Either the text breaks a rule of its markup, or its tags do not fit together. Each fault has
one message.
-/

set_option autoImplicit false

namespace SwiftDecls.Xml

/-- A fault of a marked-up text. -/
inductive Fault where
  /-- `<!` starts nothing known. -/
  | unknownMarkup
  | openInstruction
  | openDeclaration
  | openComment
  | openDoctype
  | openCharacterData
  | openTag
  /-- An attribute value lacks its closing quote. -/
  | openValue (quote : Char)
  /-- A closing tag does not close the innermost open element. -/
  | mismatchedEnd (expected found : String)
  /-- A closing tag where no element is open. -/
  | unmatchedEnd (name : String)
  | openReference
  | doctypeWithoutName
deriving DecidableEq, Repr

/-- A syntax message about something that lacks its end. -/
def notClosed (what ending : String) : String :=
  "syntax error: " ++ what ++ " not closed: `" ++ ending ++ "` not found before end of input"

/-- The message of a fault. -/
def Fault.message : Fault → String
  | unknownMarkup => "syntax error: unknown or missed symbol in markup"
  | openInstruction => notClosed "processing instruction" "?>"
  | openDeclaration => notClosed "XML declaration" "?>"
  | openComment => notClosed "comment" "-->"
  | openDoctype => notClosed "DOCTYPE" ">"
  | openCharacterData => notClosed "CDATA" "]]>"
  | openTag => notClosed "tag" ">"
  | openValue quote => notClosed "attribute value" (String.singleton quote)
  | mismatchedEnd expected found =>
    "ill-formed document: expected `</" ++ expected ++ ">`, but `</" ++ found ++ ">` was found"
  | unmatchedEnd name =>
    "ill-formed document: close tag `</" ++ name ++ ">` does not match any open tag"
  | openReference =>
    "ill-formed document: entity or character reference not closed: " ++
      "`;` not found before end of input"
  | doctypeWithoutName =>
    "ill-formed document: `<!DOCTYPE>` declaration does not contain a name of a document type"

end SwiftDecls.Xml
