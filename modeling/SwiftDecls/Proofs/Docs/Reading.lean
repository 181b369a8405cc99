import SwiftDecls.Docs.Read
import SwiftDecls.Proofs.Xml.Elements

/-!
# Reading documentation on from where it is

`DocReading.readOn` reads the rest of a text from some state of the reading. A tag at the front
of that rest opens or closes its element (`readOn_openingTag`, `readOn_closingTag`), and a
character of data is gathered (`readOn_data`). That data comes in runs does not show: two runs
next to each other are gathered like one, which is also why a text with references in it is
gathered as it was before it was escaped (`readOn_escapeText`).
-/

set_option autoImplicit false

namespace SwiftDecls

open Xml Text

/-! ## Escaped text -/

/-- A character of a text between tags. -/
def escapeMark (c : Char) : List Char :=
  if c = '&' then "&amp;".toList
  else if c = '<' then "&lt;".toList
  else if c = '>' then "&gt;".toList
  else [c]

/-- A text as it is written between tags. -/
def escapeText (cs : List Char) : List Char := cs.flatMap escapeMark

namespace DocReading

variable {r r' : DocReading} {name : List Char} {attributes : List Attribute}

/-- The events of a text after a state of the reading, up to the documentation. -/
def finish (r : DocReading) (es : Events) : Except DocError ClassDoc := do
  let r ← es.events.foldlM DocReading.event r
  match es.fault, r.doc with
  | some f, _ => .error (.markup f)
  | none, some doc => return doc
  | none, none => .error .noClass

/-- The rest of a text after a state of the reading. -/
def readOn (r : DocReading) (cs : List Char) : Except DocError ClassDoc :=
  r.finish (eventsFrom r.path cs)

theorem read_eq_readOn (text : String) :
    ClassDoc.read text = ({} : DocReading).readOn (dropByteOrderMark text.toList) := rfl

theorem finish_cons (r : DocReading) (e : Event) (es : Events) :
    r.finish (es.cons e) = r.event e >>= fun r' => r'.finish es := by
  rw [finish, Events.cons, List.foldlM_cons, bind_assoc]
  rfl

/-- More text, if text is gathered. -/
def gather (r : DocReading) (cs : List Char) : DocReading :=
  { r with gathered := r.gathered.map (· ++ cs) }

@[simp] theorem gather_nil (r : DocReading) : r.gather [] = r := by
  obtain ⟨doc, path, gathered, constant⟩ := r
  simp [gather]

@[simp] theorem gather_gather (r : DocReading) (a b : List Char) :
    (r.gather a).gather b = r.gather (a ++ b) := by
  simp [gather, Function.comp_def]

theorem gather_of_none (h : r.gathered = none) (cs : List Char) : r.gather cs = r := by
  obtain ⟨doc, path, gathered, constant⟩ := r
  cases h
  rfl

theorem event_text (r : DocReading) (cs : List Char) : r.event (.text cs) = .ok (r.gather cs) := rfl

/-! ## Text -/

/-- The data at the front is gathered at once. -/
theorem readOn_run (r : DocReading) (cs : List Char) :
    r.readOn cs = (r.gather (cs.takeWhile isData)).readOn (cs.dropWhile isData) := by
  cases cs with
  | nil => rw [List.takeWhile_nil, List.dropWhile_nil, gather_nil]
  | cons c rest =>
    by_cases hc : isData c = true
    · rw [List.takeWhile_cons_of_pos hc, List.dropWhile_cons_of_pos hc, readOn,
        eventsFrom_data hc, finish_cons, event_text]
      rfl
    · rw [List.takeWhile_cons_of_neg hc, List.dropWhile_cons_of_neg hc, gather_nil]

theorem readOn_data {c : Char} (hc : isData c = true) (r : DocReading) (cs : List Char) :
    r.readOn (c :: cs) = (r.gather [c]).readOn cs := by
  rw [readOn_run r, readOn_run (r.gather [c]), gather_gather, List.takeWhile_cons_of_pos hc,
    List.dropWhile_cons_of_pos hc, List.singleton_append]

theorem readOn_data_append {data : List Char} (h : ∀ c ∈ data, isData c = true) (r : DocReading)
    (cs : List Char) : r.readOn (data ++ cs) = (r.gather data).readOn cs := by
  induction data generalizing r with
  | nil => rw [gather_nil, List.nil_append]
  | cons c rest ih =>
    have hrest : ∀ d ∈ rest, isData d = true := fun d hd => h d (List.mem_cons_of_mem c hd)
    rw [List.cons_append, readOn_data (h c List.mem_cons_self), ih hrest, gather_gather,
      List.singleton_append]

theorem readOn_reference (name : List Char)
    (h : name.all (fun c => c != ';' && c != '&' && c != '<') = true) (r : DocReading)
    (cs : List Char) :
    r.readOn ('&' :: name ++ ';' :: cs) = (r.gather (referenceText name)).readOn cs := by
  rw [readOn, eventsFrom_reference h, finish_cons, event_text]
  rfl

theorem readOn_escapeMark (c : Char) (r : DocReading) (cs : List Char) :
    r.readOn (escapeMark c ++ cs) = (r.gather [c]).readOn cs := by
  unfold escapeMark
  split
  · rename_i hc
    rw [hc]
    exact readOn_reference "amp".toList (by decide) r cs
  · rename_i hamp
    split
    · rename_i hc
      rw [hc]
      exact readOn_reference "lt".toList (by decide) r cs
    · rename_i hlt
      split
      · rename_i hc
        rw [hc]
        exact readOn_reference "gt".toList (by decide) r cs
      · have hdata : isData c = true := by simp [isData, hamp, hlt]
        exact readOn_data hdata r cs

/-- What is gathered from an escaped text is the text. -/
theorem readOn_escapeText (text : List Char) (r : DocReading) (cs : List Char) :
    r.readOn (escapeText text ++ cs) = (r.gather text).readOn cs := by
  induction text generalizing r with
  | nil => rw [gather_nil]; rfl
  | cons c rest ih =>
    have hcons : escapeText (c :: rest) = escapeMark c ++ escapeText rest := List.flatMap_cons
    rw [hcons, List.append_assoc, readOn_escapeMark, ih, gather_gather, List.singleton_append]

/-! ## Elements -/

theorem path_of_opened (h : r.opened name attributes = .ok r') : r'.path = name :: r.path := by
  unfold opened at h
  split at h
  · cases h
    rfl
  · cases h
    rfl
  · split at h
    · cases hclass : classOf attributes with
      | error e =>
        rw [hclass] at h
        cases h
      | ok doc =>
        rw [hclass] at h
        cases h
        rfl
    · cases h
      rfl

theorem path_closed {outer : List (List Char)} (h : r.path = name :: outer) :
    r.closed.path = outer := by
  obtain ⟨doc, path, gathered, constant⟩ := r
  cases h
  cases doc with
  | none => rfl
  | some doc =>
    unfold closed
    dsimp only
    split
    · rfl
    · rfl
    · cases constant with
      | none => rfl
      | some c => rfl
    · rfl

theorem readOn_isOpeningTag {tag : List Char} (h : IsOpeningTag name tag) : ∃ attributes,
    ∀ (r : DocReading) (rest : List Char),
      r.readOn (tag ++ rest) = r.opened name attributes >>= fun r' => r'.readOn rest := by
  obtain ⟨attributes, hevents⟩ := eventsFrom_isOpeningTag h
  refine ⟨attributes, fun r rest => ?_⟩
  rw [readOn, hevents, finish_cons]
  show (r.opened name attributes >>= fun r' => r'.finish (eventsFrom (name :: r.path) rest)) = _
  cases hopen : r.opened name attributes with
  | error e => rfl
  | ok r' =>
    show r'.finish (eventsFrom (name :: r.path) rest) = r'.finish (eventsFrom r'.path rest)
    rw [path_of_opened hopen]

theorem readOn_isClosingTag {tag : List Char} (hname : IsName name) (h : IsClosingTag name tag)
    {outer : List (List Char)} (hpath : r.path = name :: outer) (rest : List Char) :
    r.readOn (tag ++ rest) = r.closed.readOn rest := by
  rw [readOn, hpath, eventsFrom_isClosingTag hname h, finish_cons, readOn, path_closed hpath]
  rfl

/-- An element that one tag opens and closes adds a constant or nothing. -/
theorem readOn_isEmptyTag {tag : List Char} (h : IsEmptyTag name tag) : ∃ attributes,
    ∀ (r : DocReading) (rest : List Char), r.readOn (tag ++ rest) =
      if docText? name r.path = some .constant then
        (r.addConstant (constantOf attributes)).readOn rest
      else r.readOn rest := by
  obtain ⟨attributes, hevents⟩ := eventsFrom_isEmptyTag h
  refine ⟨attributes, fun r rest => ?_⟩
  rw [readOn, hevents, finish_cons]
  split
  · rename_i htext
    have hevent : r.event (.empty name attributes) =
        .ok (r.addConstant (constantOf attributes)) := by
      rw [event, htext]
    rw [hevent]
    rfl
  · rename_i htext
    have hevent : r.event (.empty name attributes) = .ok r := by
      rw [event]
      split
      · rename_i hconstant
        exact absurd hconstant htext
      · rfl
    rw [hevent]
    rfl

theorem readOn_openingTag (htag : IsTag name attributes) (hopen : r.opened name attributes = .ok r')
    (cs : List Char) : r.readOn (openingTag name attributes ++ cs) = r'.readOn cs := by
  have hevent : r.event (.opened name attributes) = .ok r' := hopen
  rw [readOn, eventsFrom_openingTag htag, finish_cons, hevent, readOn, path_of_opened hopen]
  rfl

theorem readOn_closingTag (hname : IsName name) {outer : List (List Char)}
    (hpath : r.path = name :: outer) (cs : List Char) :
    r.readOn (closingTag name ++ cs) = r.closed.readOn cs :=
  readOn_isClosingTag hname (isClosingTag_closingTag name) hpath cs

/-- An element is read like its body, between its opening and its closing. -/
theorem readOn_element {body : List Char} {opened after : DocReading} (htag : IsTag name attributes)
    (hopen : r.opened name attributes = .ok opened)
    (hbody : ∀ cs, opened.readOn (body ++ cs) = after.readOn cs)
    (hpath : after.path = name :: r.path) (cs : List Char) :
    r.readOn (element name attributes body ++ cs) = after.closed.readOn cs := by
  rw [element, List.append_assoc, List.append_assoc, readOn_openingTag htag hopen, hbody,
    readOn_closingTag htag.name hpath]

end DocReading

end SwiftDecls
