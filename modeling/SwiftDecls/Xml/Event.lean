import SwiftDecls.Xml.Attributes
import SwiftDecls.Xml.Entity

/-!
# Elements

The tags of a text open and close elements. A closing tag has to name the innermost element
that is open, up to white space behind the name. Elements may still be open at the end.
-/

set_option autoImplicit false

namespace SwiftDecls.Xml

open Text

/-- What comes in a text. -/
inductive Event where
  | opened (name : List Char) (attributes : List Attribute)
  /-- An element that is opened and closed by one tag. -/
  | empty (name : List Char) (attributes : List Attribute)
  | closed
  | text (cs : List Char)
deriving DecidableEq, Repr

/-- What comes in a text as far as it can be read, and what is wrong with it. -/
structure Events where
  events : List Event
  fault : Option Fault
deriving DecidableEq, Repr

/-- An event before others. -/
def Events.cons (e : Event) (es : Events) : Events := { es with events := e :: es.events }

/-- The event of an opening tag. A slash at its end closes it. -/
def openingEvent (content : List Char) : Event :=
  if content.getLast? = some '/' then
    .empty (tagName content.dropLast) (tagAttributes content.dropLast)
  else .opened (tagName content) (tagAttributes content)

/-- The name in a closing tag: without white space at its end, unless it is nothing else. -/
def closingName (content : List Char) : List Char :=
  match content.reverse.dropWhile isSpace with
  | [] => content
  | reversed => reversed.reverse

/-- The events of pieces inside elements with the names in `path`, innermost first. -/
def eventsOf (path : List (List Char)) (fault : Option Fault) : List Piece → Events
  | [] => ⟨[], fault⟩
  | .text cs :: ps => (eventsOf path fault ps).cons (.text cs)
  | .reference name :: ps => (eventsOf path fault ps).cons (.text (referenceText name))
  | .passed :: ps => eventsOf path fault ps
  | .tag content :: ps =>
    let e := openingEvent content
    let inside := match e with
      | .opened name _ => name :: path
      | _ => path
    (eventsOf inside fault ps).cons e
  | .closing content :: ps =>
    let name := closingName content
    match path with
    | [] => ⟨[], some (.unmatchedEnd (String.ofList name))⟩
    | expected :: outer =>
      if name = expected then (eventsOf outer fault ps).cons .closed
      else ⟨[], some (.mismatchedEnd (String.ofList expected) (String.ofList name))⟩

/-- The events of a text. -/
def readEvents (text : String) : Events :=
  let p := readPieces (dropByteOrderMark text.toList)
  eventsOf [] p.fault p.pieces

end SwiftDecls.Xml
