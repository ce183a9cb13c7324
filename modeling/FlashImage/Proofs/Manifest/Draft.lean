import FlashImage.Manifest.Fields
import FlashImage.Proofs.Manifest.Substitution
import FlashImage.Proofs.Utf8.Native

/-!
# Drafts of manifests

Both kinds of manifests are written in the same way: an output, a settings string,
one table, and a table for each element of an array, which is written as an empty
array if there are no elements.

* `Draft.Sound.read?_isRead`: each field of the manifest finds its entry again.
-/

namespace FlashImage

open Toml (Entries Outline Plain Value IsBare)
open Toml.Entries (ofPlain)

/-! ## Fields -/

namespace Fields

variable {α : Type}

theorem defaulted_some {default x : α} {read : Value → Option α} {v : Value} (h : read v = some x) :
    Fields.defaulted default read (some v) = some x := h

/-- An optional field that is written only if it has a value. -/
theorem optional_map {read : Value → Option α} {write : α → Value}
    (h : ∀ x, read (write x) = some x) (field : Option α) :
    Fields.optional read (field.map write) = some field := by
  cases field with
  | none => rfl
  | some x => rw [Option.map_some, Fields.optional, h, Option.map_some]

theorem mapM_of_forall₂ {read : Value → Option α} {items : List Value} {l : List α}
    (h : List.Forall₂ (fun v x => read v = some x) items l) : items.mapM read = some l := by
  induction h with
  | nil => rfl
  | cons h_head _ ih => rw [List.mapM_cons, h_head, ih]; rfl

theorem field?_perm {entries found : Entries} (h : entries.Perm found) (names : List String) :
    field? entries names = field? found names := by
  have h_filter := h.filter fun e => names.contains e.1
  unfold field?
  generalize entries.filter (fun e => names.contains e.1) = l at h_filter
  generalize found.filter (fun e => names.contains e.1) = r at h_filter
  match l, r with
  | [], r => rw [List.nil_perm.mp h_filter]
  | [e], r => rw [List.singleton_perm.mp h_filter]
  | _ :: _ :: l, [] => cases h_filter.length_eq
  | _ :: _ :: l, [_] => cases h_filter.length_eq
  | _ :: _ :: l, _ :: _ :: r => rfl

theorem read?_perm {entries found : Entries} (h : entries.Perm found) (form form' : Toml.TableForm)
    (names : List (List String)) :
    read? names (.table form entries) = read? names (.table form' found) := by
  have h_all : (entries.all fun e => names.any (·.contains e.1)) =
      found.all fun e => names.any (·.contains e.1) := by
    rw [Bool.eq_iff_iff, List.all_eq_true, List.all_eq_true]
    exact forall_congr' fun e => by rw [h.mem_iff]
  simp only [read?, h_all, funext (field?_perm h)]

/-- A table is read by its keys, in whatever order these come. -/
theorem read?_lists {v : Value} {entries : List (String × Plain)} (lists : v.Lists entries)
    (names : List (List String)) :
    read? names v = read? names (.table .header (ofPlain entries)) := by
  obtain ⟨form, found, rfl, h_perm⟩ := lists
  exact read?_perm h_perm form .header names

end Fields

namespace Toml

@[simp] theorem word?_number (w : UInt32) : (Plain.number w.toNat).value.word? = some w := by
  have h_range : (0 : Int) ≤ w.toNat ∧ (w.toNat : Int) < 0x100000000 := by
    have h_lt := w.toNat_lt
    omega
  rw [Plain.value, Value.word?, if_pos h_range]
  exact congrArg some UInt32.ofNat_toNat

theorem inRange_number (w : UInt32) : (Plain.number w.toNat).InRange :=
  Nat.lt_trans w.toNat_lt (by decide)

theorem Outline.Tidy.of_sublist {entries : List (String × Plain)} {keys : List String}
    (h_keys : (entries.map Prod.fst).Sublist keys) (bare : ∀ key ∈ keys, IsBare key)
    (distinct : keys.Nodup) (inRange : ∀ e ∈ entries, e.2.InRange) : Outline.Tidy entries where
  bare := fun _ h_mem => bare _ (h_keys.subset (List.mem_map_of_mem h_mem))
  inRange := inRange
  distinct := distinct.sublist h_keys

theorem sublist_optional {α : Type} (key : String) (write : α → Plain) (field : Option α) :
    ((field.map fun x => (key, write x)).toList.map Prod.fst).Sublist [key] := by
  cases field with
  | none => exact List.nil_sublist _
  | some x => exact List.Sublist.refl _

theorem forall_mem_optional {α : Type} {P : Plain → Prop} {key : String} {write : α → Plain}
    (h : ∀ x, P (write x)) (field : Option α) :
    ∀ e ∈ (field.map fun x => (key, write x)).toList, P e.2 := by
  cases field with
  | none => exact List.forall_mem_nil _
  | some x => simpa using h x

end Toml

/-! ## Drafts -/

namespace Draft

def keys (d : Draft) : List String :=
  ["output", d.tableKey, d.settingsKey, d.elementKey]

structure Sound (d : Draft) : Prop where
  bare : ∀ key ∈ d.keys, IsBare key
  distinct : d.keys.Nodup
  table : Outline.Tidy d.table
  elements : ∀ e ∈ d.elements, Outline.Tidy e

variable {d : Draft}

theorem sublist_top (d : Draft) :
    (d.top.map Prod.fst).Sublist
      (["output"] ++ [d.settingsKey] ++ if d.elements.isEmpty then [d.elementKey] else []) := by
  simp only [top, List.map_append]
  refine ((Toml.sublist_optional _ _ _).append (Toml.sublist_optional _ _ _)).append ?_
  split <;> exact List.Sublist.refl _

theorem subset_top (d : Draft) {key : String} (h_mem : key ∈ d.top.map Prod.fst) :
    key ∈ ["output", d.settingsKey, d.elementKey] := by
  have h_key := d.sublist_top.subset h_mem
  split at h_key
  · exact h_key
  · exact List.mem_append_left [d.elementKey] h_key

theorem sublist_top_keys (d : Draft) : (d.top.map Prod.fst).Sublist d.keys := by
  have h_keys : (["output"] ++ [d.settingsKey] ++ [d.elementKey]).Sublist d.keys :=
    ((List.Sublist.refl _).cons d.tableKey).cons_cons "output"
  refine (d.sublist_top.trans (List.Sublist.append_left ?_ _)).trans h_keys
  split
  · exact List.Sublist.refl _
  · exact List.nil_sublist _

theorem inRange_top (d : Draft) : ∀ e ∈ d.top, e.2.InRange := by
  have h_text : ∀ s, (Plain.text s).InRange := fun _ => trivial
  simp only [top, List.forall_mem_append]
  refine ⟨⟨Toml.forall_mem_optional h_text _, Toml.forall_mem_optional h_text _⟩, ?_⟩
  split <;> simp [Plain.InRange]

/-- The four keys differ. -/
theorem Sound.ne (h : d.Sound) :
    ("output" ≠ d.tableKey ∧ "output" ≠ d.settingsKey ∧ "output" ≠ d.elementKey) ∧
      (d.tableKey ≠ d.settingsKey ∧ d.tableKey ≠ d.elementKey) ∧ d.settingsKey ≠ d.elementKey := by
  simpa [keys] using h.distinct

theorem Sound.outline (h : d.Sound) : d.outline.Sound where
  top := .of_sublist d.sublist_top_keys h.bare h.distinct d.inRange_top
  table := h.table
  elements := h.elements
  bare_table := h.bare _ (by simp [keys, Draft.outline])
  bare_element := h.bare _ (by simp [keys, Draft.outline])
  fresh_table := by
    obtain ⟨⟨h_output, -, -⟩, ⟨h_settings, h_element⟩, -⟩ := h.ne
    intro h_mem
    have h_key : d.tableKey ∈ ["output", d.settingsKey, d.elementKey] := d.subset_top h_mem
    simp [h_output.symm, h_settings, h_element] at h_key
  fresh_element := by
    intro h_some
    obtain ⟨⟨-, -, h_output⟩, ⟨-, h_table⟩, h_settings⟩ := h.ne
    have h_filled : ¬ d.elements.isEmpty = true := fun h_empty =>
      h_some (List.isEmpty_iff.mp h_empty)
    have h_top := d.sublist_top
    rw [if_neg h_filled] at h_top
    intro h_mem
    rcases List.mem_append.mp h_mem with h_mem | h_mem
    · have h_key : d.elementKey ∈ ["output", d.settingsKey] := h_top.subset h_mem
      simp [h_output.symm, h_settings.symm] at h_key
    · exact h_table (List.mem_singleton.mp h_mem).symm

/-- An array of tables with the entries of the elements. -/
def Holds (d : Draft) (array : Value) : Prop :=
  ∃ form items, array = .array form items ∧ List.Forall₂ Value.Lists items d.elements

theorem Sound.read?_entriesWith (h : d.Sound) (table array : Value) :
    Fields.read? [["output"], [d.tableKey], [d.settingsKey], [d.elementKey]]
        (.table .header (d.outline.entriesWith table array)) =
      some [d.output.map .string, some table, d.settings.map .string,
        some (if d.elements = [] then .array .listed [] else array)] := by
  obtain ⟨⟨h_table, h_settings, h_element⟩, ⟨h_between, h_before⟩, h_last⟩ := h.ne
  obtain ⟨output, settingsKey, settings, tableKey, tableEntries, elementKey, elements⟩ := d
  dsimp only at h_table h_settings h_element h_between h_before h_last ⊢
  -- each field finds the one entry with its key, if that entry is written
  cases output <;> cases settings <;> cases elements <;>
    simp [Fields.read?, Fields.field?, Draft.outline, Outline.entriesWith, top, ofPlain,
      Plain.value, h_table, h_settings, h_element, h_between, h_before, h_last, h_table.symm,
      h_settings.symm, h_element.symm, h_between.symm, h_before.symm, h_last.symm]

theorem Sound.read?_isRead (h : d.Sound) {entries : Entries} (isRead : d.outline.IsRead entries) :
    ∃ table array, table.Lists d.table ∧ d.Holds array ∧
      Fields.read? [["output"], [d.tableKey], [d.settingsKey], [d.elementKey]]
          (.table .header entries) =
        some [d.output.map .string, some table, d.settings.map .string, some array] := by
  obtain ⟨table, form, items, h_table, h_items, h_perm⟩ := isRead
  refine ⟨table, _, h_table, ?_, (Fields.read?_perm h_perm _ .header _).trans
    (h.read?_entriesWith table (.array form items))⟩
  split
  next h_none => exact ⟨.listed, [], rfl, h_none ▸ .nil⟩
  next => exact ⟨form, items, rfl, h_items⟩

/-- The array is read element by element. -/
theorem Holds.mapM {α : Type} {array : Value} (holds : d.Holds array) {read : Value → Option α}
    {l : List α}
    (h : List.Forall₂ (fun x entries => ∀ v : Value, v.Lists entries → read v = some x) l
      d.elements) : (array.items?.bind fun items => items.mapM read) = some l := by
  obtain ⟨form, items, rfl, lists⟩ := holds
  refine Fields.mapM_of_forall₂ ?_
  generalize d.elements = elements at lists h
  induction lists generalizing l with
  | nil => cases h; exact .nil
  | cons h_head _ ih =>
    cases h with
    | cons h_read h_rest => exact .cons (h_read _ h_head) (ih h_rest)

theorem mem_of_mem_optional {key s : String} {field : Option String} {e : String × Plain}
    (h_entry : e ∈ (field.map fun text => (key, Plain.text text)).toList)
    (h_string : s ∈ e.2.strings) : s ∈ field.toList := by
  cases field with
  | none => cases h_entry
  | some text =>
    rw [Option.map_some, Option.toList_some, List.mem_singleton] at h_entry
    subst h_entry
    exact h_string

theorem mem_strings_outline {s : String} (h_mem : s ∈ d.outline.strings) :
    s ∈ d.output.toList ++ d.settings.toList ∨
      ∃ entries ∈ d.table :: d.elements, ∃ e ∈ entries, s ∈ e.2.strings := by
  obtain ⟨entries, h_entries, h_mem⟩ := List.mem_flatMap.mp h_mem
  rcases List.mem_cons.mp h_entries with rfl | h_entries
  · refine .inl (List.mem_append.mpr ?_)
    obtain ⟨e, h_entry, h_string⟩ := List.mem_flatMap.mp h_mem
    rcases List.mem_append.mp h_entry with h_entry | h_array
    · rcases List.mem_append.mp h_entry with h_entry | h_entry
      · exact .inl (mem_of_mem_optional h_entry h_string)
      · exact .inr (mem_of_mem_optional h_entry h_string)
    · split at h_array
      · rw [List.mem_singleton.mp h_array] at h_string
        cases h_string
      · cases h_array
  · exact .inr ⟨entries, h_entries, List.mem_flatMap.mp h_mem⟩

/-- A reader that finds a manifest in whatever its draft may be read as finds it in the text
that is written for the draft. -/
theorem Sound.parseWith_write {α : Type} (h : d.Sound) {codec : Toml.Codec}
    (lawful : codec.Lawful) (h_plain : ∀ s ∈ d.outline.strings, Unreferenced s)
    {read : Entries → Option α} {m : α}
    (h_read : ∀ entries, d.outline.IsRead entries → read entries = some m) (env : Environment) :
    Manifest.parseWith read codec env (codec.write d.outline) = .ok m := by
  obtain ⟨entries, h_entries, isRead⟩ := lawful.readDocument?_write h.outline h_plain env
  rw [Manifest.parseWith, h_entries, Option.bind_some, h_read entries isRead]

end Draft

/-! ## Paths -/

theorem mapM_written_eq_ok_iff {field : Option NativeText} {output : Option String} :
    field.mapM NativeText.written = .ok output ↔ field = output.map .ofString := by
  cases field with
  | none => cases output <;> simp [pure, Except.pure]
  | some path =>
    have h_map : (some path).mapM NativeText.written = some <$> path.written := rfl
    rw [h_map, map_eq_ok]
    simp only [NativeText.written_eq_ok_iff]
    cases output with
    | none => simp
    | some s => simp

theorem exists_mapM_written_iff {field : Option NativeText} :
    (∃ output, field.mapM NativeText.written = .ok output) ↔ ∀ path ∈ field, path.IsText := by
  simp only [mapM_written_eq_ok_iff, NativeText.isText_iff, NativeText.toString?_eq_some_iff]
  cases field with
  | none => exact iff_of_true ⟨none, rfl⟩ nofun
  | some path =>
    constructor
    · rintro ⟨output, h_output⟩ p h_mem
      obtain rfl := Option.mem_some_iff.mp h_mem
      cases output with
      | none => cases h_output
      | some s => exact ⟨s, Option.some.inj h_output⟩
    · intro h
      obtain ⟨s, h_path⟩ := h path rfl
      exact ⟨some s, congrArg some h_path⟩

theorem toList_output_subset {field : Option NativeText} {output : Option String}
    (h : field = output.map .ofString) {s : String} (h_mem : s ∈ output.toList) :
    s ∈ field.toList.filterMap NativeText.toString? := by
  subst h
  cases output with
  | none => cases h_mem
  | some text =>
    rw [Option.toList_some, List.mem_singleton] at h_mem
    simp [h_mem]

theorem optional_path?_map (output : Option String) :
    Fields.optional Value.path? (output.map .string) = some (output.map .ofString) := by
  cases output <;> rfl

end FlashImage
