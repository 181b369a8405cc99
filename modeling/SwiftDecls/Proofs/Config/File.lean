import Mathlib.Data.List.Nodup
import SwiftDecls.Config.File
import SwiftDecls.Proofs.Toml.Tables

/-!
# What a configuration file means

**Theorem (`configFile_meansWhatItSays`).** Any settings can be written as a table of texts, with
the keys in any order, each text spelled in any way, and blanks, comments and empty lines between
them. Reading it gives exactly these settings. A text in which another key is added to the table,
or another key or table to the file, is refused. Settings are accepted if no path is empty and the
build configuration is not blank, and each setting of a run is what the command line says, or else
what the file says, or else its default.
-/

set_option autoImplicit false

namespace SwiftDecls

open Toml Text

/-! ## What is written -/

/-- One setting of a file. -/
inductive Setting where
  | api (path : Path)
  | output (path : Path)
  | docRoot (path : Path)
  | buildConfiguration (name : String)
  | mode (m : OutputMode)

/-- The name of an output mode. -/
def OutputMode.name : OutputMode → String
  | .singleFile => "single-file"
  | .perType => "per-type"

namespace Setting

/-- The key of a setting. -/
def key : Setting → String
  | .api _ => "api"
  | .output _ => "output"
  | .docRoot _ => "doc_root"
  | .buildConfiguration _ => "build_configuration"
  | .mode _ => "output_mode"

/-- The text of a setting. -/
def text : Setting → String
  | .api path | .output path | .docRoot path => path.text
  | .buildConfiguration name => name
  | .mode m => m.name

/-- The line of a setting. -/
def line (x : Setting) : Line := .entry [x.key] (.text x.text)

end Setting

/-- The keys of settings. -/
def settingKeys : List String :=
  ["api", "output", "doc_root", "build_configuration", "output_mode"]

/-- The line above the settings. -/
def settingsHeader : Line := .header ["generator"] false

namespace ConfigFile

/-- The settings of a file. -/
def settings (c : ConfigFile) : List Setting :=
  (c.api.map .api).toList ++ (c.output.map .output).toList ++ (c.docRoot.map .docRoot).toList ++
    (c.buildConfiguration.map .buildConfiguration).toList ++ (c.mode.map .mode).toList

/-- A file with one more setting. -/
def put (c : ConfigFile) : Setting → ConfigFile
  | .api path => { c with api := some path }
  | .output path => { c with output := some path }
  | .docRoot path => { c with docRoot := some path }
  | .buildConfiguration name => { c with buildConfiguration := some name }
  | .mode m => { c with mode := some m }

end ConfigFile

/-- A line says nothing. -/
def Toml.Line.isEmpty : Line → Bool
  | .empty => true
  | _ => false

/-- The text of a file with its settings in any order, and empty lines anywhere. -/
inductive WritesConfig (c : ConfigFile) : List Char → Prop
  | mk {settings : List Setting} {lines : List Line} {cs : List Char} :
      settings.Perm c.settings →
      lines.filter (!·.isEmpty) = settingsHeader :: settings.map Setting.line →
      WritesDocument lines cs → WritesConfig c cs

/-- A text with a key that no settings have. What is behind the key may be anything. -/
inductive HasOtherKey : List Char → Prop
  /-- A key before any table. -/
  | atTop {lines : List Line} {front rest : List Char} {key : String} : WritesLines lines front →
      (∀ line ∈ lines, StaysInTable line) → key ≠ "generator" → StartsWithPath [key] rest →
      HasOtherKey (front ++ rest)
  /-- A table, or one of a list of tables. -/
  | table {lines : List Line} {front gap brackets rest : List Char} {key : String} :
      WritesLines lines front → IsLineGap gap → IsHeaderStart brackets → key ≠ "generator" →
      StartsWithPath [key] rest → HasOtherKey (front ++ (gap ++ (brackets ++ rest)))
  /-- A key among the settings. -/
  | entry {before inside : List Line} {front rest : List Char} {key : String} :
      WritesLines (before ++ settingsHeader :: inside) front →
      (∀ line ∈ inside, StaysInTable line) → key ∉ settingKeys → StartsWithPath [key] rest →
      HasOtherKey (front ++ rest)
  /-- A key of several parts that leads into the table of the settings. -/
  | dotted {lines : List Line} {front rest : List Char} {key : String} : WritesLines lines front →
      (∀ line ∈ lines, StaysInTable line) → key ∉ settingKeys →
      StartsWithPath ["generator", key] rest → HasOtherKey (front ++ rest)
  /-- A table in the table of the settings, whether this has its header in front of it, behind it
  or nowhere. -/
  | inner {lines : List Line} {front gap brackets rest : List Char} {key : String} :
      WritesLines lines front → IsLineGap gap → IsHeaderStart brackets → key ∉ settingKeys →
      StartsWithPath ["generator", key] rest → HasOtherKey (front ++ (gap ++ (brackets ++ rest)))

/-! ## Reading settings -/

section settings

variable {c : ConfigFile}

theorem sublist_settingKeys (c : ConfigFile) : (c.settings.map Setting.key).Sublist settingKeys := by
  have hone {α : Type} (make : α → Setting) {key : String} (h : ∀ a, (make a).key = key)
      (a? : Option α) : ((a?.map make).toList.map Setting.key).Sublist [key] := by
    cases a? with
    | none => exact List.nil_sublist _
    | some a => simp [h]
  have hapi := hone Setting.api (fun _ => rfl) c.api
  have houtput := hone Setting.output (fun _ => rfl) c.output
  have hdocRoot := hone Setting.docRoot (fun _ => rfl) c.docRoot
  have hbuild := hone Setting.buildConfiguration (fun _ => rfl) c.buildConfiguration
  have hmode := hone Setting.mode (fun _ => rfl) c.mode
  simp only [ConfigFile.settings, List.map_append]
  exact (((hapi.append houtput).append hdocRoot).append hbuild).append hmode

theorem nodup_settingKeys {settings : List Setting} (h : settings.Perm c.settings) :
    (settings.map Setting.key).Nodup := by
  rw [(h.map Setting.key).nodup_iff]
  exact (sublist_settingKeys c).nodup (by decide)

theorem putSetting_comm {x y : Setting} (hx : x ∈ c.settings) (hy : y ∈ c.settings)
    (d : ConfigFile) : (d.put x).put y = (d.put y).put x := by
  -- Settings with one key are the same setting, and those with two keys set different fields.
  by_cases hkey : x.key = y.key
  · have hsame : x = y :=
      List.inj_on_of_nodup_map (nodup_settingKeys (.refl c.settings)) hx hy hkey
    rw [hsame]
  · cases x <;> cases y <;> first | rfl | exact absurd rfl hkey

theorem foldl_putSetting {settings : List Setting} (h : settings.Perm c.settings) :
    settings.foldl ConfigFile.put {} = c := by
  have hcomm : ∀ x ∈ settings, ∀ y ∈ settings, ∀ d : ConfigFile,
      (d.put x).put y = (d.put y).put x := fun x hx y hy d =>
    putSetting_comm (h.mem_iff.1 hx) (h.mem_iff.1 hy) d
  rw [h.foldl_eq' hcomm]
  obtain ⟨api, output, docRoot, buildConfiguration, mode⟩ := c
  cases api <;> cases output <;> cases docRoot <;> cases buildConfiguration <;> cases mode <;> rfl

/-- A field is set to what is written for it. -/
theorem set_field (x : Setting) (c : ConfigFile) : (ConfigFile.fields.lookup x.key >>= fun set =>
    set (.text x.text) c) = some (c.put x) := by
  cases x with
  | api | output | docRoot | buildConfiguration =>
    simp [Setting.key, Setting.text, ConfigFile.fields, List.lookup_cons, ConfigFile.textOf,
      ConfigFile.put]
  | mode m =>
    have hmode : ConfigFile.modeOf (.text m.name) = some m := by cases m <;> decide
    simp [Setting.key, Setting.text, ConfigFile.fields, List.lookup_cons, hmode, ConfigFile.put]

theorem ofValue_settings (origin : Origin) (settings : List Setting) :
    ConfigFile.ofValue (.table origin (settings.map fun x => (x.key, .text x.text))) =
      some (settings.foldl ConfigFile.put {}) := by
  rw [ConfigFile.ofValue]
  generalize ({} : ConfigFile) = c
  induction settings generalizing c with
  | nil => rfl
  | cons x settings ih =>
    rw [List.map_cons, List.foldlM_cons, List.foldl_cons, ← ih]
    dsimp only
    rw [set_field]
    rfl

theorem sections_filter (lines : List Line) :
    sections (lines.filter (!·.isEmpty)) = sections lines := by
  induction lines with
  | nil => rfl
  | cons line lines ih =>
    cases line with
    | empty => exact ih
    | entry key value =>
      show sections (.entry key value :: lines.filter (!·.isEmpty)) = _
      rw [sections, sections, ih]
    | header path listed =>
      show sections (.header path listed :: lines.filter (!·.isEmpty)) = _
      rw [sections, sections, ih]

theorem sections_settings (settings : List Setting) :
    sections (settingsHeader :: settings.map Setting.line) =
      ([], [⟨["generator"], false, settings.map fun x => ([x.key], .text x.text)⟩]) := by
  have hentries : sections (settings.map Setting.line) =
      (settings.map fun x => ([x.key], .text x.text), []) := by
    induction settings with
    | nil => rfl
    | cons x settings ih =>
      rw [List.map_cons, Setting.line, sections, ih]
      rfl
  rw [settingsHeader, sections, hentries]

/-- Settings that are written are read. -/
theorem parse?_of_writesConfig {text : String} (h : WritesConfig c text.toList) :
    ConfigFile.parse? text = some c := by
  generalize htext : text.toList = cs at h
  obtain @⟨settings, lines, cs, hsettings, hlines, hdocument⟩ := h
  have hsections : sections lines =
      ([], [⟨["generator"], false, settings.map fun x => ([x.key], .text x.text)⟩]) := by
    rw [← sections_filter, hlines, sections_settings]
  have hnodup : ((settings.map fun x => (x.key, Value.text x.text)).map Prod.fst).Nodup := by
    rw [List.map_map]
    exact nodup_settingKeys hsettings
  have htable := document_table "generator" hnodup
  rw [List.map_map] at htable
  have hparse : Toml.parse? text =
      some [("generator", .table .header (settings.map fun x => (x.key, .text x.text)))] := by
    rw [Toml.parse?, htext, dropByteOrderMark_of_head? hdocument.isUnmarked,
      readDocument_writesDocument hdocument]
    show document (sections lines).1 (sections lines).2 = _
    rw [hsections]
    exact htable
  rw [ConfigFile.parse?, hparse]
  simp [ofValue_settings, foldl_putSetting hsettings]

theorem writesKey_bare {key : String} (h : key ∈ "generator" :: settingKeys) :
    WritesKey key key.toList := by
  have hbare : ∀ key ∈ "generator" :: settingKeys,
      key.toList ≠ [] ∧ key.toList.all isKeyChar = true := by decide
  exact .bare (hbare key h).1 (List.all_eq_true.1 (hbare key h).2)

theorem exists_writesLines (settings : List Setting) :
    ∃ cs, WritesLines (settings.map Setting.line) cs := by
  induction settings with
  | nil => exact ⟨[], .nil⟩
  | cons x settings ih =>
    obtain ⟨rest, hrest⟩ := ih
    obtain ⟨text, htext⟩ := exists_writesBasic x.text
    have hkey : WritesKey x.key x.key.toList := by
      apply writesKey_bare
      cases x <;> simp [Setting.key, settingKeys]
    have hline : WritesLine x.line _ :=
      .statement isLineGap_nil (.entry hkey isLineGap_nil isLineGap_nil htext) (.gap isLineGap_nil)
    exact ⟨_, .cons hline .feed hrest⟩

/-- Any settings can be written. -/
theorem exists_writesConfig (c : ConfigFile) : ∃ text : String, WritesConfig c text.toList := by
  obtain ⟨rest, hrest⟩ := exists_writesLines c.settings
  have hkey : WritesKey "generator" "generator".toList := writesKey_bare List.mem_cons_self
  have hheader : WritesLine settingsHeader _ :=
    .statement isLineGap_nil (.header isLineGap_nil hkey isLineGap_nil) (.gap isLineGap_nil)
  have hfilter : (settingsHeader :: c.settings.map Setting.line).filter (!·.isEmpty) =
      settingsHeader :: c.settings.map Setting.line := by
    rw [List.filter_eq_self]
    intro line hmem
    rcases List.mem_cons.1 hmem with rfl | hmem
    · rfl
    · obtain ⟨x, -, rfl⟩ := List.mem_map.1 hmem
      rfl
  have hconfig : WritesConfig c _ :=
    .mk (.refl c.settings) hfilter (.complete (.cons hheader .feed hrest))
  exact ⟨String.ofList _, by rwa [String.toList_ofList]⟩

/-! ## Other keys -/

theorem foldlM_eq_none_of_mem {α β : Type} {f : β → α → Option β} {a : α}
    (ha : ∀ b, f b a = none) {as : List α} (hmem : a ∈ as) (b : β) : as.foldlM f b = none := by
  obtain ⟨before, after, rfl⟩ := List.append_of_mem hmem
  rw [List.foldlM_append]
  cases before.foldlM f b with
  | none => rfl
  | some b' =>
    show (f b' a >>= fun b => after.foldlM f b) = none
    rw [ha]
    rfl

theorem keys_fields : ConfigFile.fields.map Prod.fst = settingKeys := rfl

/-- A table with a key that no setting has is refused. -/
theorem ofValue_of_other_key {origin : Origin} {entries : Entries} {key : String}
    (hkey : key ∉ settingKeys) (h : entries.lookup key ≠ none) :
    ConfigFile.ofValue (.table origin entries) = none := by
  obtain ⟨v, hv⟩ := Option.ne_none_iff_exists'.1 h
  have hmem : (key, v) ∈ entries := by
    obtain ⟨before, after, rfl, -⟩ := List.lookup_eq_some_iff.1 hv
    simp
  have hfield : ConfigFile.fields.lookup key = none := by
    rw [List.lookup_eq_none_iff]
    intro p hp
    rw [bne_iff_ne]
    rintro rfl
    exact hkey (keys_fields ▸ List.mem_map_of_mem hp)
  rw [ConfigFile.ofValue]
  refine foldlM_eq_none_of_mem (fun c => ?_) hmem _
  dsimp only
  rw [hfield]
  rfl

theorem parse?_eq_none_of_names {text : String} {es : Entries} (hes : Toml.parse? text = some es)
    {key : String} (h : (key ≠ "generator" ∧ es.Names [key]) ∨ (key ∉ settingKeys ∧
      es.Names ["generator", key] ∧ es.HasTable "generator")) :
    ConfigFile.parse? text = none := by
  rw [ConfigFile.parse?, hes]
  simp only [Option.bind_eq_bind, Option.bind_some]
  split
  · rcases h with ⟨-, hkey⟩ | ⟨-, hkey, -⟩
    · exact absurd rfl hkey
    · exact absurd rfl hkey.1
  · rename_i v
    rcases h with ⟨hne, hkey⟩ | ⟨hkey, hnames, origin, inner, htable⟩
    · refine absurd ?_ hkey
      rw [List.lookup_cons, beq_false_of_ne hne]
      rfl
    · rw [List.lookup_cons_self] at htable
      cases htable
      exact ofValue_of_other_key hkey (hnames.2 origin inner (List.lookup_cons_self))
  · rfl

theorem exists_document {text : String} (hunmarked : IsUnmarked text.toList) {es : Entries}
    (h : Toml.parse? text = some es) : ∃ lines, readDocument text.toList = some lines ∧
      document (sections lines).1 (sections lines).2 = some es := by
  rw [Toml.parse?, dropByteOrderMark_of_head? hunmarked] at h
  obtain ⟨lines, hlines, hdocument⟩ := Option.bind_eq_some_iff.1 h
  exact ⟨lines, hlines, hdocument⟩

/-- A text with another key says something about that key, if it can be read at all. -/
theorem names_of_hasOtherKey {cs : List Char} (h : HasOtherKey cs) {lines : List Line}
    (hread : readDocument cs = some lines) {es : Entries}
    (hes : document (sections lines).1 (sections lines).2 = some es) : ∃ key,
      (key ≠ "generator" ∧ es.Names [key]) ∨ (key ∉ settingKeys ∧
        es.Names ["generator", key] ∧ es.HasTable "generator") := by
  cases h with
  | @atTop _ front rest key hfront hlines hkey hrest =>
    obtain ⟨behind, hbehind, rfl⟩ := exists_lines_behind hfront hread
    obtain ⟨more, value, others, rfl⟩ := exists_entry_of_startsWithPath hrest hbehind
    have hnames := names_of_hasPath hes (.value (mem_values_sections hlines))
    exact ⟨key, .inl ⟨hkey, hnames.of_append⟩⟩
  | @table _ front gap brackets rest key hfront hgap hbrackets hkey hrest =>
    obtain ⟨behind, hbehind, rfl⟩ := exists_lines_behind hfront hread
    obtain ⟨more, listed, others, rfl⟩ :=
      exists_header_of_startsWithPath hgap hbrackets hrest hbehind
    have hnames := names_of_hasPath hes (.header (mem_sections _ _ _ _))
    exact ⟨key, .inl ⟨hkey, hnames.of_append⟩⟩
  | @entry before inside front rest key hfront hinside hkey hrest =>
    obtain ⟨behind, hbehind, rfl⟩ := exists_lines_behind hfront hread
    obtain ⟨more, value, others, rfl⟩ := exists_entry_of_startsWithPath hrest hbehind
    rw [List.append_assoc, List.cons_append] at hes
    have hsection := mem_sections before ["generator"] false
      (inside ++ .entry ([key] ++ more) value :: others)
    have hnames : es.Names (["generator", key] ++ more) :=
      names_of_hasPath hes (.entry hsection (mem_values_sections hinside))
    have htable := hasTable_of_header hes hsection rfl rfl
    exact ⟨key, .inr ⟨hkey, hnames.of_append, htable⟩⟩
  | @dotted _ front rest key hfront hlines hkey hrest =>
    obtain ⟨behind, hbehind, rfl⟩ := exists_lines_behind hfront hread
    obtain ⟨more, value, others, rfl⟩ := exists_entry_of_startsWithPath hrest hbehind
    have hnames := names_of_hasPath hes (.value (mem_values_sections hlines))
    have htable := hasTable_of_dotted hes (mem_values_sections hlines)
    exact ⟨key, .inr ⟨hkey, hnames.of_append, htable⟩⟩
  | @inner _ front gap brackets rest key hfront hgap hbrackets hkey hrest =>
    obtain ⟨behind, hbehind, rfl⟩ := exists_lines_behind hfront hread
    obtain ⟨more, listed, others, rfl⟩ :=
      exists_header_of_startsWithPath hgap hbrackets hrest hbehind
    have hnames := names_of_hasPath hes (.header (mem_sections _ _ _ _))
    have htable := hasTable_of_inner_header hfront.hasOneKey hes
    exact ⟨key, .inr ⟨hkey, hnames.of_append, htable⟩⟩

theorem HasOtherKey.isUnmarked {cs : List Char} (h : HasOtherKey cs) : IsUnmarked cs := by
  cases h with
  | atTop hfront _ _ hrest | entry hfront _ _ hrest | dotted hfront _ _ hrest =>
    exact hfront.isUnmarked hrest.isUnmarked
  | table hfront hgap hbrackets | inner hfront hgap hbrackets =>
    exact hfront.isUnmarked (hbrackets.isUnmarked hgap _)

/-- Whatever is behind another key, the text is refused. -/
theorem parse?_of_hasOtherKey {text : String} (h : HasOtherKey text.toList) :
    ConfigFile.parse? text = none := by
  cases hes : Toml.parse? text with
  | none => rw [ConfigFile.parse?, hes]; rfl
  | some es =>
    obtain ⟨lines, hread, hdocument⟩ := exists_document h.isUnmarked hes
    obtain ⟨key, hkey⟩ := names_of_hasOtherKey h hread hdocument
    exact parse?_eq_none_of_names hes hkey

end settings

/-! ## Checking and merging settings -/

/-- What is chosen of a setting on the command line, a setting in a file and a default. -/
inductive IsChosen {α : Type} : Option α → Option α → α → α → Prop
  | flag (a : α) (file : Option α) (default : α) : IsChosen (some a) file default a
  | file (a default : α) : IsChosen none (some a) default a
  | default (default : α) : IsChosen none none default default

/-- The settings of a run, each chosen for itself. -/
structure Resolves (c : ConfigFile) (o : Overrides) (s : RunSettings) : Prop where
  api : IsChosen o.api c.api ⟨"extension_api.json"⟩ s.api
  output : IsChosen o.output c.output ⟨"Generated"⟩ s.output
  /-- There is no default for the documentation: it may be left out. -/
  docRoot : IsChosen (o.docRoot.map some) (c.docRoot.map some) none s.docRoot
  buildConfiguration : IsChosen o.buildConfiguration c.buildConfiguration "float_64"
    s.generator.buildConfiguration
  mode : IsChosen (if o.perType then some .perType else none) c.mode .singleFile s.generator.mode

theorem isChosen_getD {α : Type} (flag file : Option α) (default : α) :
    IsChosen flag file default ((flag.or file).getD default) := by
  cases flag with
  | some a => exact .flag a file default
  | none =>
    cases file with
    | some a => exact .file a default
    | none => exact .default default

theorem resolves (c : ConfigFile) (o : Overrides) : Resolves c o (c.resolve o) := by
  refine ⟨isChosen_getD _ _ _, isChosen_getD _ _ _, ?_, isChosen_getD _ _ _, ?_⟩
  · have hdocRoot := isChosen_getD (o.docRoot.map some) (c.docRoot.map some) none
    obtain ⟨api, output, docRoot, buildConfiguration, mode⟩ := c
    obtain ⟨api', output', docRoot', buildConfiguration', perType⟩ := o
    cases docRoot <;> cases docRoot' <;> exact hdocRoot
  · have hmode := isChosen_getD (if o.perType then some .perType else none) c.mode .singleFile
    obtain ⟨api, output, docRoot, buildConfiguration, perType⟩ := o
    cases perType <;> exact hmode

/-- Settings are accepted unless a path is empty or the build configuration is blank. -/
theorem check_eq_ok_iff (c : ConfigFile) : c.check = .ok () ↔
    (c.api ≠ some ⟨""⟩ ∧ c.output ≠ some ⟨""⟩ ∧ c.docRoot ≠ some ⟨""⟩) ∧
      ∀ name, c.buildConfiguration = some name → isBlankText name.toList = false := by
  have hblank : (c.buildConfiguration.any fun s => isBlankText s.toList) = true ↔
      ¬∀ name, c.buildConfiguration = some name → isBlankText name.toList = false := by
    cases c.buildConfiguration <;> simp
  have hpaths : c.paths.find? (fun p => p.2 == some ⟨""⟩) = none ↔
      c.api ≠ some ⟨""⟩ ∧ c.output ≠ some ⟨""⟩ ∧ c.docRoot ≠ some ⟨""⟩ := by
    simp [ConfigFile.paths]
  rw [← hpaths, ConfigFile.check]
  by_cases hset : (c.buildConfiguration.any fun s => isBlankText s.toList) = true
  · rw [if_pos hset]
    exact ⟨nofun, fun h => absurd h.2 (hblank.1 hset)⟩
  · rw [if_neg hset]
    cases hfind : c.paths.find? fun p => p.2 == some ⟨""⟩ with
    | some p => exact ⟨nofun, fun h => absurd h.1 nofun⟩
    | none => exact ⟨fun _ => ⟨rfl, not_not.1 (hset ∘ hblank.2)⟩, fun _ => rfl⟩

/-! ## The whole -/

/-- What a file means. -/
structure ConfigFile.MeansWhatItSays (c : ConfigFile) : Prop where
  /-- It can be written. -/
  written : ∃ text : String, WritesConfig c text.toList
  /-- However it is written, it is read as it was. -/
  read : ∀ text : String, WritesConfig c text.toList → ConfigFile.parse? text = some c
  /-- Another key is refused, whatever is in front of it and behind it. -/
  refused : ∀ text : String, HasOtherKey text.toList → ConfigFile.parse? text = none
  accepted : c.check = .ok () ↔
    (c.api ≠ some ⟨""⟩ ∧ c.output ≠ some ⟨""⟩ ∧ c.docRoot ≠ some ⟨""⟩) ∧
      ∀ name, c.buildConfiguration = some name → isBlankText name.toList = false
  resolved : ∀ o, Resolves c o (c.resolve o)

/-- **A configuration file means what it says**, and the command line takes precedence over it. -/
theorem configFile_meansWhatItSays (c : ConfigFile) : c.MeansWhatItSays where
  written := exists_writesConfig c
  read := fun _ => parse?_of_writesConfig
  refused := fun _ => parse?_of_hasOtherKey
  accepted := check_eq_ok_iff c
  resolved := resolves c

end SwiftDecls
