import SwiftDecls.Docs.Source
import SwiftDecls.Text.Blank
import SwiftDecls.Xml.Event

/-!
# Reading documentation

The documentation of a class is an element `class` with a name. In it the elements
`brief_description` and `description` have its texts, and in elements `constants`, wherever
they are, each element `constant` documents a constant. Only the place in the innermost element
counts. Texts lose the white space at their ends.

One text is gathered at a time: from where an element that has a text opens to where such an
element closes. So a text goes on through elements inside it, unless one of them has a text of
its own.
-/

set_option autoImplicit false

namespace SwiftDecls

open Xml

/-- Where the reading is. -/
structure DocReading where
  doc : Option ClassDoc := none
  /-- The names of the open elements, innermost first. -/
  path : List (List Char) := []
  /-- The text that is gathered. -/
  gathered : Option (List Char) := none
  /-- The constant whose text is gathered. -/
  constant : Option DocConstant := none

/-- The value of an attribute, empty if it is not there. -/
def attributeText (attributes : List Attribute) (name : String) : String :=
  String.ofList ((attributes.lookup name.toList).getD [])

/-- The constant that attributes describe. -/
def constantOf (attributes : List Attribute) : DocConstant where
  name := attributeText attributes "name"
  value := attributeText attributes "value"
  enumName := (attributes.lookup "enum".toList).map String.ofList

/-- The class that attributes describe. -/
def classOf (attributes : List Attribute) : Except DocError ClassDoc :=
  let name := attributeText attributes "name"
  if name.isEmpty then .error .unnamedClass else .ok { name }

/-- The elements whose texts are gathered. -/
inductive DocText where
  | brief
  | description
  | constant
deriving DecidableEq, Repr

/-- The text that an element of some name has in the innermost of the open elements. -/
def docText? (name : List Char) (path : List (List Char)) : Option DocText :=
  match path.head? with
  | none => none
  | some parent =>
    if parent = "class".toList then
      if name = "brief_description".toList then some .brief
      else if name = "description".toList then some .description
      else none
    else if parent = "constants".toList ∧ name = "constant".toList then some .constant
    else none

namespace DocReading

/-- The constants of the documentation with one more at the end. -/
def addConstant (r : DocReading) (c : DocConstant) : DocReading :=
  { r with doc := r.doc.map fun d => { d with constants := d.constants ++ [c] } }

/-- The gathered text without the white space at its ends. -/
def text (r : DocReading) : Option String :=
  r.gathered.map fun cs => String.ofList (Text.trim cs)

/-- An element opens. -/
def opened (r : DocReading) (name : List Char) (attributes : List Attribute) :
    Except DocError DocReading := do
  let inside := { r with path := name :: r.path }
  match docText? name r.path with
  | some .constant => return { inside with gathered := some [], constant := constantOf attributes }
  | some _ => return { inside with gathered := some [] }
  | none =>
    if r.path.isEmpty ∧ name = "class".toList then
      return { inside with doc := ← classOf attributes }
    else return inside

/-- The innermost element closes. Before there is a class this changes no text. -/
def closed (r : DocReading) : DocReading :=
  match r.path, r.doc with
  | [], _ => r
  | _ :: outer, none => { r with path := outer }
  | name :: outer, some doc =>
    let outside := { r with path := outer }
    match docText? name outer with
    | some .brief => { outside with doc := some { doc with brief := r.text }, gathered := none }
    | some .description =>
      { outside with doc := some { doc with description := r.text }, gathered := none }
    | some .constant =>
      match r.constant with
      | some c =>
        { outside with gathered := none, constant := none }.addConstant
          { c with text := r.text.getD "" }
      | none => outside
    | none => outside

/-- One event. -/
def event (r : DocReading) : Event → Except DocError DocReading
  | .opened name attributes => r.opened name attributes
  | .empty name attributes =>
    match docText? name r.path with
    | some .constant => .ok (r.addConstant (constantOf attributes))
    | _ => .ok r
  | .closed => .ok r.closed
  | .text cs => .ok { r with gathered := r.gathered.map (· ++ cs) }

end DocReading

/-- Reads the documentation of a class. A class without a name is refused where it opens; what
is wrong with the markup counts if the reading gets there. -/
def ClassDoc.read (text : String) : Except DocError ClassDoc := do
  let es := readEvents text
  let r ← es.events.foldlM DocReading.event {}
  match es.fault, r.doc with
  | some f, _ => .error (.markup f)
  | none, some doc => return doc
  | none, none => .error .noClass

end SwiftDecls
