/-!
# TOML values

A document is a table of values. Only texts are told apart from other scalars: whatever else a
scalar says, nothing here reads it.

A table keeps how it came about, because that decides what may be added to it later. A header
may open a table that only its descendants' headers have implied, and a dotted key may add to a
table that headers have implied or dotted keys have made. Nothing adds to a table that is
written out in braces, and only headers add to the tables of a list.
-/

set_option autoImplicit false

namespace SwiftDecls.Toml

/-- How a table came about. -/
inductive Origin where
  /-- A header of its own. -/
  | header
  /-- The header of a table inside it. -/
  | implied
  /-- A dotted key. -/
  | dotted
  /-- Braces. -/
  | braces
deriving DecidableEq, Repr

/-- A value. -/
inductive Value where
  | text (s : String)
  /-- A scalar that is no text. -/
  | scalar
  /-- A list, written in brackets or (`tables`) as tables with headers. -/
  | list (items : List Value) (tables : Bool)
  | table (origin : Origin) (entries : List (String × Value))
deriving Repr

/-- The entries of a table. -/
abbrev Entries : Type := List (String × Value)

namespace Entries

/-- Gives a key a value, in its place if it is there and at the end if not. -/
def set (entries : Entries) (key : String) (value : Value) : Entries :=
  match entries with
  | [] => [(key, value)]
  | (k, v) :: rest => if k = key then (k, value) :: rest else (k, v) :: set rest key value

/-- A path through a table of this origin may come from a dotted key (`dotted`) or a header. -/
def passable (dotted : Bool) : Origin → Bool
  | .braces => false
  | .header => !dotted
  | .implied | .dotted => true

/-- Changes the value at the end of a path. Tables on the way are made where they are missing.
A path leads into the last of a list's tables. -/
def alter (dotted : Bool) (last : Option Value → Option Value) (path : List String)
    (entries : Entries) : Option Entries :=
  match path with
  | [] => none
  | [key] => (last (entries.lookup key)).map (entries.set key)
  | key :: rest =>
    match entries.lookup key with
    | none => do
      let inner ← alter dotted last rest []
      return entries.set key (.table (if dotted then .dotted else .implied) inner)
    | some (.table origin inner) =>
      if passable dotted origin then do
        return entries.set key (.table origin (← alter dotted last rest inner))
      else none
    | some (.list items true) =>
      match items.getLast? with
      | some (.table origin inner) =>
        if dotted then none
        else do
          let changed := Value.table origin (← alter dotted last rest inner)
          return entries.set key (.list (items.dropLast ++ [changed]) true)
      | _ => none
    | some _ => none

/-- Adds a value under a dotted key that is not there yet. -/
def add (entries : Entries) (key : List String) (value : Value) : Option Entries :=
  alter true (fun old => if old.isNone then some value else none) key entries

/-- Adds several values. -/
def addAll (entries : Entries) (new : List (List String × Value)) : Option Entries :=
  new.foldlM (fun es (key, value) => es.add key value) entries

end Entries

/-- A header with the values under it. -/
structure Section where
  path : List String
  /-- The header is in double brackets: it adds a table to a list. -/
  listed : Bool
  values : List (List String × Value)

/-- Adds a section. -/
def Entries.addSection (entries : Entries) (s : Section) : Option Entries :=
  entries.alter false (last s) s.path
where
  /-- What the section makes of what is at its path. -/
  last (s : Section) (old : Option Value) : Option Value :=
    if s.listed then do
      let new := Value.table .header (← Entries.addAll [] s.values)
      match old with
      | none => return .list [new] true
      | some (.list items true) => return .list (items ++ [new]) true
      | some _ => none
    else
      match old with
      | none => (Entries.addAll [] s.values).map (.table .header)
      | some (.table .implied inner) => (Entries.addAll inner s.values).map (.table .header)
      | some _ => none

/-- The table of a document: the values before the first header, and the sections. -/
def document (values : List (List String × Value)) (sections : List Section) : Option Entries := do
  sections.foldlM Entries.addSection (← Entries.addAll [] values)

end SwiftDecls.Toml
