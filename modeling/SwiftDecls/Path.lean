import SwiftDecls.Text.Pieces

/-!
# Paths

A path is a text; what it names is its list of components. Repeated and trailing slashes and
inner `.` segments are no components, so paths of different spelling can have the same
components. Components are ordered by kind, names among themselves as texts.
-/

set_option autoImplicit false

namespace SwiftDecls

open Text

/-- One component of a path. -/
inductive Component where
  | root
  | here
  | up
  | name (text : String)
deriving DecidableEq, Repr

namespace Component

/-- The place of a component's kind in the order. -/
def kind : Component → Nat
  | root => 0
  | here => 1
  | up => 2
  | name _ => 3

/-- The text of a name. -/
def label : Component → String
  | name text => text
  | _ => ""

instance : Ord Component := ⟨compareLex (compareOn kind) (compareOn label)⟩

instance : Std.TransOrd Component :=
  inferInstanceAs (Std.TransCmp (compareLex (compareOn kind) (compareOn label)))

instance : Std.LawfulEqOrd Component where
  eq_of_compare {a b} h := by
    have h : compareLex (compareOn kind) (compareOn label) a b = .eq := h
    simp only [compareLex_eq_eq, compareOn] at h
    obtain ⟨hk, hl⟩ := h
    have hk : a.kind = b.kind := Std.LawfulEqCmp.eq_of_compare hk
    have hl : a.label = b.label := Std.LawfulEqCmp.eq_of_compare hl
    cases a <;> cases b <;> simp_all [kind, label]

/-- The component that a segment stands for in the middle of a path. -/
def ofSegment? (segment : String) : Option Component :=
  if segment = "" ∨ segment = "." then none
  else if segment = ".." then some up
  else some (name segment)

end Component

/-- A path as it is written. -/
structure Path where
  text : String
deriving DecidableEq, Repr, Inhabited

namespace Path

/-- A path from the root. -/
def isAbsolute (p : Path) : Bool := p.text.toList.head? == some '/'

/-- The segments between slashes. -/
def segments (p : Path) : List String := Text.segments '/' p.text

/-- The components that segments after the first stand for. -/
def innerComponents (segments : List String) : List Component :=
  segments.filterMap Component.ofSegment?

/-- The components of a path. A `.` counts at the very start only. -/
def components (p : Path) : List Component :=
  match p.segments with
  | "" :: rest => if p.isAbsolute then .root :: innerComponents rest else []
  | "." :: rest => .here :: innerComponents rest
  | segments => innerComponents segments

/-- A path below another; an absolute path stays what it is. -/
def join (p q : Path) : Path :=
  if q.isAbsolute || p.text.isEmpty then q
  else if p.text.toList.getLast? = some '/' then ⟨p.text ++ q.text⟩
  else ⟨p.text ++ "/" ++ q.text⟩

/-- Removes the segments at the end of a path that are no components, last segment first. -/
def dropVoid (reversed : List String) : List String :=
  reversed.dropWhile fun segment => segment == "" || segment == "."

/-- Segments, last one first, as the text of a directory: no slash at the end but that of the
root, and a `.` at the start stays. -/
def directoryText (absolute : Bool) (first : Option String) (reversed : List String) : String :=
  match dropVoid reversed with
  | [] => if absolute then "/" else if first = some "." ∧ reversed ≠ [] then "." else ""
  | kept => joinSegments '/' kept.reverse

/-- The path of the directory that holds what a path names; the root and the empty path have
none. -/
def parent? (p : Path) : Option Path :=
  match p.components with
  | [] | [.root] => none
  | [.here] => some ⟨""⟩
  | _ =>
    some ⟨directoryText p.isAbsolute p.segments.head? ((dropVoid p.segments.reverse).drop 1)⟩

/-- Two paths are the same up to spelling if they have the same components. -/
def Same (p q : Path) : Prop := p.components = q.components

end Path

end SwiftDecls
