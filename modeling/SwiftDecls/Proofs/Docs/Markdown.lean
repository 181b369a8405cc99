import SwiftDecls.Docs.Markdown
import SwiftDecls.Proofs.Text.Pieces

/-!
# What a tag turns into

A tag is fixed, or belongs to a link, or refers to a symbol, or has no meaning. The kinds do not
overlap (`Reference.isOther_tag`), so the order in which the conversion asks for them does not
matter. There is one lemma for what a tag of each kind turns into (`closeTag_of_mem` to
`closeTag_of_isUnknown`), and the tags that are copied are exactly those without a meaning
(`closeTag_copies_iff`). A reference to a member turns into a link to its owner, a slash and its name
in camel case (`MemberTarget.symbol`).

`Converts` says what a whole piece of a manual turns into while some link is open. Pieces one after
the other turn into what they turn into one by one (`Converts.append`).
-/

set_option autoImplicit false

namespace SwiftDecls.Markdown

open Text Naming

/-! ## References to symbols -/

/-- The kinds of reference to a member of a class. -/
inductive MemberKind where
  | method
  | member
  | signal
  | themeItem

/-- The word for a kind. -/
def MemberKind.word : MemberKind → String
  | method => "method"
  | member => "member"
  | signal => "signal"
  | themeItem => "theme_item"

/-- The kinds of reference that are shown by name. -/
inductive NameKind where
  | constant
  | enum
  | param
  | decorator

/-- The word for a kind. -/
def NameKind.word : NameKind → String
  | constant => "constant"
  | enum => "enum"
  | param => "param"
  | decorator => "annotation"

/-- A member that a reference points at: the owner that is written before its last dot, if there is
a dot, and its name. -/
structure MemberTarget where
  written : Option String
  name : String
  plain : '.' ∉ name.toList

namespace MemberTarget

/-- The member as it is written. -/
def text (t : MemberTarget) : String :=
  match t.written with
  | some owner => owner ++ "." ++ t.name
  | none => t.name

/-- The symbol of the member: its name in camel case behind a slash and its owner. That is the owner
that is written, or else the type that is documented. -/
def symbol (owner : Option String) (t : MemberTarget) : String :=
  match t.written.or owner with
  | some owner => owner ++ "/" ++ camel t.name
  | none => camel t.name

end MemberTarget

/-- A reference to a symbol. -/
inductive Reference where
  /-- A member of a class. -/
  | member (kind : MemberKind) (target : MemberTarget)
  /-- What is shown by its name. -/
  | name (kind : NameKind) (target : String)
  /-- A type. -/
  | type (typeName : String) (isType : isTypeReference typeName = true)

/-- The tag of a reference. -/
def Reference.tag : Reference → String
  | .member kind target => kind.word ++ " " ++ target.text
  | .name kind target => kind.word ++ " " ++ target
  | .type typeName _ => typeName

/-- What a reference refers to. -/
def Reference.symbol (owner : Option String) : Reference → String
  | .member _ target => target.symbol owner
  | .name _ target => target
  | .type typeName _ => swiftTypeName typeName

theorem memberSymbol_text (owner : Option String) (t : MemberTarget) :
    memberSymbol owner t.text = t.symbol owner := by
  obtain ⟨written, name, plain⟩ := t
  cases written with
  | some written =>
    have hchars : (written ++ "." ++ name).toList = written.toList ++ '.' :: name.toList := by simp
    unfold MemberTarget.text memberSymbol
    rw [hchars, cutAtLast?_append plain]
    simp only [String.ofList_toList]
    rfl
  | none =>
    unfold MemberTarget.text memberSymbol
    rw [cutAtLast?_eq_none_iff.2 plain]
    cases owner <;> rfl

/-- Every text is that of a member. -/
theorem exists_memberTarget (text : String) : ∃ t : MemberTarget, t.text = text := by
  cases hcut : cutAtLast? '.' text.toList with
  | none => exact ⟨⟨none, text, cutAtLast?_eq_none_iff.1 hcut⟩, rfl⟩
  | some parts =>
    obtain ⟨written, name⟩ := parts
    obtain ⟨hchars, hname⟩ := eq_append_of_cutAtLast? hcut
    refine ⟨⟨some (String.ofList written), String.ofList name, by simpa using hname⟩, ?_⟩
    rw [MemberTarget.text, ← String.toList_inj, hchars]
    simp

theorem contains_memberKinds_iff {word : String} :
    memberKinds.contains word = true ↔ ∃ kind : MemberKind, kind.word = word := by
  constructor
  · intro h
    simp only [memberKinds, List.contains_iff_mem, List.mem_cons, List.not_mem_nil, or_false] at h
    rcases h with rfl | rfl | rfl | rfl
    exacts [⟨.method, rfl⟩, ⟨.member, rfl⟩, ⟨.signal, rfl⟩, ⟨.themeItem, rfl⟩]
  · rintro ⟨kind, rfl⟩
    cases kind <;> decide

theorem contains_nameKinds_iff {word : String} :
    nameKinds.contains word = true ↔ ∃ kind : NameKind, kind.word = word := by
  constructor
  · intro h
    simp only [nameKinds, List.contains_iff_mem, List.mem_cons, List.not_mem_nil, or_false] at h
    rcases h with rfl | rfl | rfl | rfl
    exacts [⟨.constant, rfl⟩, ⟨.enum, rfl⟩, ⟨.param, rfl⟩, ⟨.decorator, rfl⟩]
  · rintro ⟨kind, rfl⟩
    cases kind <;> decide

theorem blank_not_mem_of_isTypeReference {typeName : String}
    (h : isTypeReference typeName = true) : ' ' ∉ typeName.toList := by
  intro hmem
  unfold isTypeReference at h
  have hafter : ' ' ∈ (dropPrefix? ['@'] typeName.toList).getD typeName.toList := by
    cases hdrop : dropPrefix? ['@'] typeName.toList with
    | none => exact hmem
    | some rest =>
      rw [dropPrefix?_eq_some_iff.1 hdrop] at hmem
      exact (List.mem_cons.1 hmem).resolve_left (by decide)
  split at h
  · rename_i c rest heq
    rw [heq] at hafter
    rw [Bool.and_eq_true, List.all_eq_true] at h
    rcases List.mem_cons.1 hafter with rfl | hrest
    · exact absurd h.1 (by decide)
    · exact absurd (h.2 _ hrest) (by decide)
  · cases h

theorem cutAt?_kind (kind target : String) (h : ' ' ∉ kind.toList) :
    cutAt? ' ' (kind ++ " " ++ target).toList = some (kind.toList, target.toList) := by
  have hchars : (kind ++ " " ++ target).toList = kind.toList ++ ' ' :: target.toList := by simp
  rw [hchars, cutAt?_append h]

/-- The tag of a reference becomes a link to its symbol. -/
theorem referenceText?_tag (owner : Option String) (r : Reference) :
    referenceText? owner r.tag = some (symbolLink (r.symbol owner)) := by
  cases r with
  | member kind target =>
    have hcut := cutAt?_kind kind.word target.text (by cases kind <;> decide)
    have hkind : memberKinds.contains kind.word = true := contains_memberKinds_iff.2 ⟨kind, rfl⟩
    simp only [Reference.tag, referenceText?, hcut, String.ofList_toList, hkind, if_true,
      Reference.symbol, memberSymbol_text]
  | name kind target =>
    have hcut := cutAt?_kind kind.word target (by cases kind <;> decide)
    have hmember : memberKinds.contains kind.word = false := by cases kind <;> decide
    have hkind : nameKinds.contains kind.word = true := contains_nameKinds_iff.2 ⟨kind, rfl⟩
    simp only [Reference.tag, referenceText?, hcut, String.ofList_toList, hmember, hkind, if_true,
      Bool.false_eq_true, if_false, Reference.symbol]
  | type typeName isType =>
    have hcut := cutAt?_eq_none_iff.2 (blank_not_mem_of_isTypeReference isType)
    simp only [Reference.tag, referenceText?, hcut, isType, if_true, Reference.symbol]

/-- Only the tags of references become links to symbols. -/
theorem exists_reference {owner : Option String} {tag text : String}
    (h : referenceText? owner tag = some text) : ∃ r : Reference, r.tag = tag := by
  unfold referenceText? at h
  split at h
  · rename_i kind target hcut
    have htag : String.ofList kind ++ " " ++ String.ofList target = tag := by
      rw [← String.toList_inj, eq_append_of_cutAt? hcut]
      simp
    split at h
    · rename_i hkind
      obtain ⟨word, hword⟩ := contains_memberKinds_iff.1 hkind
      obtain ⟨member, hmember⟩ := exists_memberTarget (String.ofList target)
      refine ⟨.member word member, ?_⟩
      rw [Reference.tag, hword, hmember, htag]
    · split at h
      · rename_i hkind
        obtain ⟨word, hword⟩ := contains_nameKinds_iff.1 hkind
        refine ⟨.name word (String.ofList target), ?_⟩
        rw [Reference.tag, hword, htag]
      · cases h
  · split at h
    · rename_i isType
      exact ⟨.type tag isType, rfl⟩
    · cases h

/-! ## The kinds of tag -/

/-- A tag as the manual writes it. -/
def bracketed (tag : String) : String := "[" ++ tag ++ "]"

/-- The tags that are known as a whole: those of links without a target and the fixed ones. -/
def wholeTags : List String := "url" :: "/url" :: fixedTags.map (·.1)

/-- The tag at which a link begins. -/
def linkTag : Option String → String
  | none => "url"
  | some target => "url=" ++ target

/-- The end of a link. -/
def linkEnd : Option String → String
  | none => "]"
  | some target => "](" ++ target ++ ")"

/-- A tag that is neither fixed nor of a link. -/
structure IsOther (tag : String) : Prop where
  whole : tag ∉ wholeTags
  target : ¬ "url=".toList <+: tag.toList

/-- A tag without a meaning. -/
structure IsUnknown (tag : String) : Prop extends IsOther tag where
  reference : ∀ r : Reference, r.tag ≠ tag

theorem lookup_fixedTags_of_not_mem {tag : String} (h : tag ∉ wholeTags) :
    fixedTags.lookup tag = none := by
  rw [List.lookup_eq_none_iff]
  intro e he
  rw [bne_iff_ne]
  rintro rfl
  exact h (List.mem_cons_of_mem _ (List.mem_cons_of_mem _ (List.mem_map_of_mem he)))

theorem Reference.not_prefix_tag (r : Reference) : ¬ "url=".toList <+: r.tag.toList := by
  have hhead : r.tag.toList.head? ≠ some 'u' := by
    cases r with
    | member kind target => cases kind <;> simp [Reference.tag, MemberKind.word]
    | name kind target => cases kind <;> simp [Reference.tag, NameKind.word]
    | type typeName isType =>
      intro hu
      obtain ⟨rest, hname⟩ := List.head?_eq_some_iff.1 hu
      rw [Reference.tag] at hname
      rw [isTypeReference, hname] at isType
      cases isType
  rintro ⟨rest, hrest⟩
  rw [← hrest] at hhead
  exact hhead rfl

/-- A reference is neither a fixed tag nor of a link. -/
theorem Reference.isOther_tag (r : Reference) : IsOther r.tag := by
  refine ⟨fun hmem => ?_, r.not_prefix_tag⟩
  -- None of the whole tags refers to a symbol, which is a matter of the table.
  have htable : ∀ tag ∈ wholeTags, referenceText? none tag = none := by decide +kernel
  have hnone := htable r.tag hmem
  rw [referenceText?_tag] at hnone
  cases hnone

/-! ## What a tag turns into -/

namespace Conversion

/-- The state with another target of the open link. -/
def withLink (s : Conversion) (target : Option String) : Conversion := { s with link := target }

theorem withLink_self {s : Conversion} {target : Option String} (h : s.link = target) :
    s.withLink target = s := by
  subst h
  rfl

theorem write_append (s : Conversion) (a b : String) : s.write (a ++ b) = (s.write a).write b := by
  simp [write]

theorem write_injective (s : Conversion) {a b : String} (h : s.write a = s.write b) : a = b := by
  have hwritten : a.toList.reverse ++ s.written = b.toList.reverse ++ s.written :=
    congrArg written h
  exact String.toList_inj.1 (List.reverse_inj.1 (List.append_cancel_right hwritten))

theorem closeTag_of_mem (owner : Option String) (s : Conversion) {tag text : String}
    (h : (tag, text) ∈ fixedTags) : closeTag owner s tag = s.write text := by
  have htable : ∀ e ∈ fixedTags, fixedTags.lookup e.1 = some e.2 := by decide
  have hlookup : fixedTags.lookup tag = some text := htable _ h
  simp only [closeTag, hlookup]

/-- A link begins. -/
theorem closeTag_linkTag (owner : Option String) (s : Conversion) (target : Option String) :
    closeTag owner s (linkTag target) = (s.withLink target).write "[" := by
  cases target with
  | none => rfl
  | some target =>
    have hchars : ("url=" ++ target).toList = "url=".toList ++ target.toList := by simp
    have hwhole : "url=" ++ target ∉ wholeTags := by
      have htable : ∀ tag ∈ wholeTags, ¬ "url=".toList <+: tag.toList := by decide
      exact fun hmem => htable _ hmem ⟨target.toList, hchars.symm⟩
    have hbare : "url=" ++ target ≠ "url" := fun heq => hwhole (heq ▸ by decide)
    have hclosing : "url=" ++ target ≠ "/url" := fun heq => hwhole (heq ▸ by decide)
    simp only [linkTag, closeTag, lookup_fixedTags_of_not_mem hwhole, hbare, hclosing, if_false,
      hchars, dropPrefix?_append, String.ofList_toList]
    rfl

/-- A link ends with the target that is open. -/
theorem closeTag_closing (owner : Option String) (s : Conversion) :
    closeTag owner s "/url" = (s.withLink none).write (linkEnd s.link) := by
  obtain ⟨written, link, tag⟩ := s
  cases link <;> rfl

theorem closeTag_of_isOther (owner : Option String) (s : Conversion) {tag : String}
    (h : IsOther tag) :
    closeTag owner s tag = s.write ((referenceText? owner tag).getD (bracketed tag)) := by
  have hbare : tag ≠ "url" := fun heq => h.whole (heq ▸ by decide)
  have hclosing : tag ≠ "/url" := fun heq => h.whole (heq ▸ by decide)
  have htarget := dropPrefix?_eq_none_iff.2 h.target
  simp only [closeTag, lookup_fixedTags_of_not_mem h.whole, hbare, hclosing, htarget, if_false,
    bracketed]

theorem closeTag_reference (owner : Option String) (s : Conversion) (r : Reference) :
    closeTag owner s r.tag = s.write (symbolLink (r.symbol owner)) := by
  rw [closeTag_of_isOther owner s r.isOther_tag, referenceText?_tag, Option.getD_some]

/-- A tag without a meaning is copied. -/
theorem closeTag_of_isUnknown (owner : Option String) (s : Conversion) {tag : String}
    (h : IsUnknown tag) : closeTag owner s tag = s.write (bracketed tag) := by
  have hnone : referenceText? owner tag = none := by
    rw [Option.eq_none_iff_forall_ne_some]
    intro text htext
    obtain ⟨r, hr⟩ := exists_reference htext
    exact h.reference r hr
  rw [closeTag_of_isOther owner s h.toIsOther, hnone, Option.getD_none]

/-- Only a tag without a meaning is copied. -/
theorem isUnknown_of_copied {owner : Option String} {tag : String}
    (h : closeTag owner {} tag = write {} (bracketed tag)) : IsUnknown tag := by
  -- A whole tag or a reference writes other characters than its own, and a link with a target
  -- leaves the target open.
  refine ⟨⟨fun hmem => ?_, ?_⟩, ?_⟩
  · rcases List.mem_cons.1 hmem with rfl | hmem
    · have hwritten : ['['] = (bracketed "url").toList.reverse := congrArg written h
      exact absurd hwritten (by decide)
    rcases List.mem_cons.1 hmem with rfl | hmem
    · have hwritten : [']'] = (bracketed "/url").toList.reverse := congrArg written h
      exact absurd hwritten (by decide)
    obtain ⟨⟨_, text⟩, he, rfl⟩ := List.mem_map.1 hmem
    have htable : ∀ e ∈ fixedTags, e.2 ≠ bracketed e.1 := by decide
    rw [closeTag_of_mem owner {} he] at h
    exact htable _ he (write_injective _ h)
  · rintro ⟨target, htag⟩
    obtain rfl : "url=" ++ String.ofList target = tag := by
      rw [← String.toList_inj, ← htag]
      simp
    rw [show "url=" ++ String.ofList target = linkTag (some (String.ofList target)) from rfl,
      closeTag_linkTag] at h
    cases congrArg link h
  · rintro r rfl
    rw [closeTag_reference] at h
    have hhead := congrArg (·.toList.head?) (write_injective _ h)
    simp [symbolLink, bracketed] at hhead

/-- A tag is copied exactly if it has no meaning. -/
theorem closeTag_copies_iff (owner : Option String) (tag : String) :
    (∀ s, closeTag owner s tag = s.write (bracketed tag)) ↔ IsUnknown tag :=
  ⟨fun h => isUnknown_of_copied (h {}), fun h s => s.closeTag_of_isUnknown owner h⟩

theorem foldl_step_open (owner : Option String) {cs : List Char} (h : ']' ∉ cs) (s : Conversion)
    {read : List Char} (hs : s.tag = some read) :
    cs.foldl (step owner) s = { s with tag := some (cs.reverse ++ read) } := by
  induction cs generalizing s read with
  | nil => simp [← hs]
  | cons c rest ih =>
    simp only [List.mem_cons, not_or] at h
    have hstep : step owner s c = { s with tag := some (c :: read) } := by
      simp [step, hs, Ne.symm h.1]
    rw [List.foldl_cons, hstep, ih h.2 _ rfl]
    simp

/-- A tag is read up to its closing bracket and then replaced. -/
theorem foldl_step_bracketed (owner : Option String) {tag : String} (h : ']' ∉ tag.toList)
    {s : Conversion} (hs : s.tag = none) :
    (bracketed tag).toList.foldl (step owner) s = closeTag owner s tag := by
  have hchars : (bracketed tag).toList = '[' :: (tag.toList ++ [']']) := by simp [bracketed]
  have hopen : step owner s '[' = { s with tag := some [] } := by simp [step, hs]
  rw [hchars, List.foldl_cons, hopen, List.foldl_append, foldl_step_open owner h _ rfl]
  simp [step, ← hs]

end Conversion

/-! ## What a piece of a manual turns into -/

/-- Outside tags and while `opened` is the target of the open link, `source` turns into `result` and
leaves the target as it is. -/
def Converts (owner opened : Option String) (source result : String) : Prop :=
  ∀ s : Conversion, s.tag = none → s.link = opened →
    source.toList.foldl (Conversion.step owner) s = s.write result

theorem Converts.toMarkdown_eq {owner : Option String} {source result : String}
    (h : Converts owner none source result) : toMarkdown owner source = result := by
  rw [toMarkdown, h {} rfl rfl]
  simp [Conversion.finish, Conversion.write]

namespace Converts

variable {owner opened : Option String}

theorem nil : Converts owner opened "" "" := fun _ _ _ => rfl

theorem append {a b a' b' : String} (ha : Converts owner opened a a')
    (hb : Converts owner opened b b') : Converts owner opened (a ++ b) (a' ++ b') := by
  intro s htag hlink
  rw [String.toList_append, List.foldl_append, ha s htag hlink, hb (s.write a') htag hlink,
    Conversion.write_append]

/-- Text without tags is copied. -/
theorem text {text : String} (h : '[' ∉ text.toList) : Converts owner opened text text :=
  fun s htag _ => foldl_step_of_no_bracket owner h s htag

theorem tag {tag result : String} (hclosed : ']' ∉ tag.toList)
    (h : ∀ s, Conversion.closeTag owner s tag = s.write result) :
    Converts owner opened (bracketed tag) result := by
  intro s htag _
  rw [Conversion.foldl_step_bracketed owner hclosed htag, h]

theorem fixed {tag result : String} (h : (tag, result) ∈ fixedTags) :
    Converts owner opened (bracketed tag) result := by
  have htable : ∀ e ∈ fixedTags, ']' ∉ e.1.toList := by decide
  exact Converts.tag (htable _ h) fun s => s.closeTag_of_mem owner h

theorem reference (r : Reference) (h : ']' ∉ r.tag.toList) :
    Converts owner opened (bracketed r.tag) (symbolLink (r.symbol owner)) :=
  Converts.tag h fun s => s.closeTag_reference owner r

theorem unknown {tag : String} (hclosed : ']' ∉ tag.toList) (h : IsUnknown tag) :
    Converts owner opened (bracketed tag) (bracketed tag) :=
  Converts.tag hclosed fun s => s.closeTag_of_isUnknown owner h

/-- A link ends with its own target, as what it is around leaves the target open. -/
theorem link {target : Option String} {body result : String}
    (hclosed : ']' ∉ (linkTag target).toList) (hbody : Converts owner target body result) :
    Converts owner none (bracketed (linkTag target) ++ body ++ bracketed "/url")
      ("[" ++ result ++ linkEnd target) := by
  intro s htag hlink
  have hend : ']' ∉ "/url".toList := by decide
  have hbegun : ((s.withLink target).write "[").tag = none := htag
  have hinside : (((s.withLink target).write "[").write result).tag = none := htag
  rw [String.toList_append, String.toList_append, List.foldl_append, List.foldl_append,
    Conversion.foldl_step_bracketed owner hclosed htag, Conversion.closeTag_linkTag,
    hbody _ hbegun rfl, Conversion.foldl_step_bracketed owner hend hinside,
    Conversion.closeTag_closing, Conversion.write_append, Conversion.write_append]
  -- But for what is written the state is the one at the beginning: no link was open there.
  calc _ = (((s.withLink none).write "[").write result).write (linkEnd target) := rfl
    _ = _ := by rw [Conversion.withLink_self hlink]

end Converts

end SwiftDecls.Markdown
