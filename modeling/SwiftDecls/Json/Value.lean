import SwiftDecls.Json.Token

/-!
# JSON values

Tokens make a tree. A text that goes wrong makes one too: every list and map says how it
stops, and the tree holds everything up to there. So a reader that goes through the tree in the
order of the text meets what it dislikes and what is wrong with the text in the order in which
they come.
-/

set_option autoImplicit false

namespace SwiftDecls.Json

open Number Text

/-- How a list stops. -/
inductive ListStop where
  | closed
  /-- It goes wrong behind an item, or behind the comma after it. -/
  | broken (afterComma : Bool) (fault : Fault)
deriving DecidableEq, Repr

/-- How a map stops. -/
inductive MapStop where
  | closed
  /-- It goes wrong behind a value, or behind the comma after it. -/
  | broken (afterComma : Bool) (fault : Fault)
  /-- In the place of a key there is another token. -/
  | noKey (found : Token)
deriving DecidableEq, Repr

/-- A value. -/
inductive Value where
  | null
  | bool (value : Bool)
  | number (literal : Literal)
  | string (literal : StringLiteral)
  | list (items : List Value) (stop : ListStop)
  | map (entries : List (StringLiteral × Value)) (stop : MapStop)
  /-- In the place of a value there is no token, or one that starts no value. -/
  | broken (found : Option Token)
deriving Repr

/-- A value and the tokens after it, which are some of those that were there. -/
structure Parsed (tokens : List Token) where
  value : Value
  rest : List Token
  shorter : rest.length ≤ tokens.length

namespace Parsed

variable {tokens : List Token} {t u : Token} {ts : List Token}

/-- A value that takes none of the tokens. -/
def here (tokens : List Token) (value : Value) : Parsed tokens :=
  ⟨value, tokens, Nat.le_refl tokens.length⟩

/-- A value after which nothing can be read. -/
def last (tokens : List Token) (value : Value) : Parsed tokens :=
  ⟨value, [], Nat.zero_le tokens.length⟩

theorem shorter_skip (p : Parsed tokens) (t : Token) : p.rest.length ≤ (t :: tokens).length :=
  Nat.le_succ_of_le p.shorter

/-- The same value, read behind one more token. -/
def skip (p : Parsed tokens) : Parsed (t :: tokens) := ⟨p.value, p.rest, p.shorter_skip t⟩

theorem shorter_of_cons (p : Parsed tokens) (h : p.rest = t :: ts) : ts.length < tokens.length := by
  have hp := p.shorter
  rw [h] at hp
  exact hp

theorem shorter_of_cons₂ (p : Parsed tokens) (h : p.rest = t :: u :: ts) :
    ts.length < tokens.length := Nat.lt_of_succ_lt (p.shorter_of_cons h)

theorem shorter_close (p : Parsed tokens) (h : p.rest = t :: ts) : ts.length ≤ tokens.length :=
  Nat.le_of_lt (p.shorter_of_cons h)

/-- A value that ends with the token after `p`. -/
def close (p : Parsed tokens) (h : p.rest = t :: ts) (value : Value) : Parsed tokens :=
  ⟨value, ts, p.shorter_close h⟩

theorem shorter_next (p : Parsed tokens) (h : p.rest = t :: u :: ts) (q : Parsed ts) :
    q.rest.length ≤ tokens.length :=
  Nat.le_trans q.shorter (Nat.le_of_lt (p.shorter_of_cons₂ h))

/-- A value that is read on two tokens after `p`. -/
def next (p : Parsed tokens) (h : p.rest = t :: u :: ts) (q : Parsed ts) : Parsed tokens :=
  ⟨q.value, q.rest, p.shorter_next h q⟩

end Parsed

mutual

/-- The value that starts with a token. -/
def parseValue (t : Token) (ts : List Token) : Parsed ts :=
  match t with
  | .null => .here ts .null
  | .bool value => .here ts (.bool value)
  | .number literal => .here ts (.number literal)
  | .string literal => .here ts (.string literal)
  | .openBracket =>
    match ts with
    | [] => .last [] (.list [] (.broken false .ended))
    | .closeBracket :: rest => (Parsed.here rest (.list [] .closed)).skip
    | t :: rest => (parseItems [] t rest).skip
  | .openBrace =>
    match ts with
    | [] => .last [] (.map [] (.broken false .ended))
    | .closeBrace :: rest => (Parsed.here rest (.map [] .closed)).skip
    | t :: rest => (parseEntries [] t rest).skip
  | t => .last ts (.broken (some t))
termination_by 2 * ts.length
decreasing_by
  · exact twice_succ_lt_twice (Nat.lt_succ_self rest.length)
  · exact twice_succ_lt_twice (Nat.lt_succ_self rest.length)

/-- The rest of a list after the items in `done`, last one first, from the first token of the
next item on. -/
def parseItems (done : List Value) (t : Token) (ts : List Token) : Parsed ts :=
  let p := parseValue t ts
  let items := p.value :: done
  match h : p.rest with
  | [] => .last ts (.list items.reverse (.broken false .ended))
  | .closeBracket :: _ => p.close h (.list items.reverse .closed)
  | [.comma] => .last ts (.list items.reverse (.broken true .ended))
  | .comma :: .closeBracket :: _ => .last ts (.list items.reverse (.broken true .malformed))
  | .comma :: t :: rest => p.next h (parseItems items t rest)
  | _ :: _ => .last ts (.list items.reverse (.broken false .malformed))
termination_by 2 * ts.length + 1
decreasing_by
  · exact twice_lt_twice_succ (Nat.le_refl ts.length)
  · exact twice_succ_lt_twice_succ (p.shorter_of_cons₂ h)

/-- The rest of a map after the entries in `done`, last one first, from the token in the place
of the next key on. -/
def parseEntries (done : List (StringLiteral × Value)) (t : Token) (ts : List Token) : Parsed ts :=
  match t with
  | .string key =>
    let unfinished (found : Option Token) : Value :=
      .map ((key, .broken found) :: done).reverse (.broken false .ended)
    match ts with
    | [] => .last [] (unfinished none)
    | [.colon] => .last [.colon] (unfinished none)
    | .colon :: t :: rest =>
      let p := parseValue t rest
      let entries := (key, p.value) :: done
      match h : p.rest with
      | [] => (Parsed.last rest (.map entries.reverse (.broken false .ended))).skip.skip
      | .closeBrace :: _ => (p.close h (.map entries.reverse .closed)).skip.skip
      | [.comma] => (Parsed.last rest (.map entries.reverse (.broken true .ended))).skip.skip
      | .comma :: t :: behind => (p.next h (parseEntries entries t behind)).skip.skip
      | _ :: _ => (Parsed.last rest (.map entries.reverse (.broken false .malformed))).skip.skip
    | t :: rest => .last (t :: rest) (unfinished (some .stray))
  | t => .last ts (.map done.reverse (.noKey t))
termination_by 2 * ts.length + 1
decreasing_by
  · exact twice_lt_twice_succ (Nat.le_add_right rest.length 2)
  · exact twice_succ_lt_twice_succ
      (Nat.lt_of_lt_of_le (p.shorter_of_cons₂ h) (Nat.le_add_right rest.length 2))

end

/-- A text as a value and the tokens after it. -/
structure Document where
  value : Value
  rest : List Token

/-- Reads a text. -/
def parse (text : String) : Document :=
  match tokens text.toList with
  | [] => ⟨.broken none, []⟩
  | t :: ts => ⟨(parseValue t ts).value, (parseValue t ts).rest⟩

namespace Value

/-- What a reader finds that wants a value of another kind. -/
def kind : Value → Except Fault Kind
  | null => .ok .null
  | bool value => .ok (.bool value)
  | number literal => (Token.number literal).kind
  | string literal => (Token.string literal).kind
  | list _ _ => .ok .sequence
  | map _ _ => .ok .map
  | broken none => .error .ended
  | broken (some t) => t.kind

end Value

namespace ListStop

/-- What is wrong where a list stops. -/
def fault? : ListStop → Option Fault
  | closed => none
  | broken _ fault => some fault

end ListStop

namespace MapStop

/-- What is wrong where a map stops, for a reader that wants its entries. -/
def fault? : MapStop → Option Fault
  | closed => none
  | broken _ fault => some fault
  | noKey (.brokenString wanted _) => some wanted
  | noKey _ => some .malformed

/-- What is wrong where a map stops, for a reader that skips it. -/
def skipFault? : MapStop → Option Fault
  | closed => none
  | broken _ fault => some fault
  | noKey (.brokenString _ skipped) => some skipped
  | noKey _ => some .malformed

end MapStop

mutual

/-- What is wrong with the text of a value that is skipped: the first fault in it. -/
def Value.skipFault? : Value → Option Fault
  | .null | .bool _ | .number _ | .string _ => none
  | .list items stop => (skipItems items).or stop.fault?
  | .map entries stop => (skipEntries entries).or stop.skipFault?
  | .broken none => some .ended
  | .broken (some t) => some t.skipFault

/-- The first fault in items that are skipped. -/
def skipItems : List Value → Option Fault
  | [] => none
  | item :: items => item.skipFault?.or (skipItems items)

/-- The first fault in entries that are skipped. -/
def skipEntries : List (StringLiteral × Value) → Option Fault
  | [] => none
  | (_, value) :: entries => value.skipFault?.or (skipEntries entries)

end

end SwiftDecls.Json
