import FlashImage.Proofs.Toml.Lines
import FlashImage.Toml.Codec

/-!
# Documents of one table and one array

The documents that are written here have entries of their own, one table and any
number of tables that make up an array.  Carrying out their statements builds
just these entries: each header opens a place, and the entries under it are put
there and nowhere else.

* `Codec.Lawful`: a codec that reads what it writes, as `Codec.standard` does.
-/

namespace FlashImage.Toml

namespace Entries

/-! ## Places -/

/-- The keys lead to the entries `child` of the document `around child`: what is
changed there changes the document, and nothing else does. -/
def Leads (keys : List String) (around : Entries → Entries) : Prop :=
  ∀ change child, updateHeader keys change (around child) = (change child).map around

theorem lookup_of_not_mem {entries : Entries} {key : String} (h : key ∉ entries.map Prod.fst) :
    entries.lookup key = none := by
  rw [List.lookup_eq_none_iff]
  intro e h_mem
  exact bne_iff_ne.mpr fun h_eq => h (h_eq ▸ List.mem_map_of_mem h_mem)

theorem lookup_concat {entries : Entries} {key : String} (h : key ∉ entries.map Prod.fst)
    (v : Value) : (entries ++ [(key, v)]).lookup key = some v := by
  rw [List.lookup_append, lookup_of_not_mem h]
  simp

theorem set_of_not_mem {entries : Entries} {key : String} (h : key ∉ entries.map Prod.fst)
    (v : Value) : set entries key v = entries := by
  unfold set
  refine (List.map_congr_left fun e h_mem => ?_).trans (List.map_id entries)
  have h_key : e.1 ≠ key := fun h_eq => h (h_eq ▸ List.mem_map_of_mem h_mem)
  exact if_neg h_key

theorem set_concat {entries : Entries} {key : String} (h : key ∉ entries.map Prod.fst)
    (v w : Value) : set (entries ++ [(key, v)]) key w = entries ++ [(key, w)] := by
  have h_append : set (entries ++ [(key, v)]) key w =
      set entries key w ++ set [(key, v)] key w := List.map_append
  rw [h_append, set_of_not_mem h]
  simp [set]

theorem leads_nil : Leads [] id := by
  intro change child
  rw [Option.map_id]
  rfl

theorem leads_table {front : Entries} {key : String} (h : key ∉ front.map Prod.fst) :
    Leads [key] fun child => front ++ [(key, .table .header child)] := by
  intro change child
  unfold updateHeader
  rw [update, lookup_concat h]
  show (change child).bind _ = _
  cases change child with
  | none => rfl
  | some child => exact congrArg some (set_concat h _ _)

theorem changeLast_concat (change : Value → Option Value) (items : List Value) (v : Value) :
    changeLast change (items ++ [v]) = (change v).map fun v => items ++ [v] := by
  induction items with
  | nil => rfl
  | cons w items ih =>
    rw [List.cons_append, changeLast, ih, Option.map_map]
    · rfl
    · simp

theorem leads_element {front : Entries} {key : String} (h : key ∉ front.map Prod.fst)
    (items : List Value) :
    Leads [key] fun child =>
      front ++ [(key, .array .headers (items ++ [.table .header child]))] := by
  intro change child
  unfold updateHeader
  rw [update, lookup_concat h]
  simp only [changeLast_concat, update, Option.bind_eq_bind]
  cases change child with
  | none => rfl
  | some child => exact congrArg some (set_concat h _ _)

/-! ## Statements -/

/-- Carries out statements from the place that the last header has opened. -/
def run (place : List String) (entries : Entries) (statements : List Statement) :
    Option (List String × Entries) :=
  statements.foldlM (fun (place, entries) s => apply place entries s) (place, entries)

theorem run_cons (place : List String) (entries : Entries) (s : Statement)
    (statements : List Statement) :
    run place entries (s :: statements) =
      (apply place entries s).bind fun (place, entries) => run place entries statements :=
  rfl

theorem run_append {place next : List String} {entries after : Entries} {first : List Statement}
    (h : run place entries first = some (next, after)) (later : List Statement) :
    run place entries (first ++ later) = run next after later := by
  rw [run] at h
  rw [run, List.foldlM_append, h]
  rfl

/-- Entries as they are read back. -/
def ofPlain (entries : List (String × Plain)) : Entries :=
  entries.map fun (key, v) => (key, v.value)

theorem insertPath_nil {entries : Entries} {key : String} (h : key ∉ entries.map Prod.fst)
    (v : Value) : insertPath ⟨[], key⟩ v entries = some (entries ++ [(key, v)]) := by
  show insert key v entries = _
  rw [insert, lookup_of_not_mem h]
  rfl

theorem run_entries {place : List String} {around : Entries → Entries} (leads : Leads place around)
    {entries : List (String × Plain)} {child : Entries}
    (distinct : (child.map Prod.fst ++ entries.map Prod.fst).Nodup) :
    run place (around child) (entries.map fun (key, v) => .entry ⟨[], key⟩ v.value) =
      some (place, around (child ++ ofPlain entries)) := by
  induction entries generalizing child with
  | nil => simp [run, ofPlain]
  | cons e entries ih =>
    obtain ⟨key, v⟩ := e
    have h_new : key ∉ child.map Prod.fst := fun h_mem =>
      (List.nodup_append.mp distinct).2.2 key h_mem key List.mem_cons_self rfl
    have h_step : apply place (around child) (.entry ⟨[], key⟩ v.value) =
        some (place, around (child ++ [(key, v.value)])) := by
      rw [apply, leads, insertPath_nil h_new]
      rfl
    rw [List.map_cons, run_cons, h_step]
    have h_rest := @ih (child ++ [(key, v.value)]) (by simpa using distinct)
    rwa [List.append_assoc] at h_rest

/-! ## Headers -/

/-- The array of a document, which is missing if it has no elements. -/
def arrayEntry (key : String) (items : List Value) : Entries :=
  if items = [] then [] else [(key, .array .headers items)]

theorem arrayEntry_concat (key : String) (items : List Value) (v : Value) :
    arrayEntry key (items ++ [v]) = [(key, .array .headers (items ++ [v]))] :=
  if_neg (by simp)

theorem openTable_of_not_mem {entries : Entries} {key : String} (h : key ∉ entries.map Prod.fst) :
    openTable key entries = some (entries ++ [(key, .table .header [])]) := by
  rw [openTable, lookup_of_not_mem h]

theorem openElement_of_not_mem {front : Entries} {key : String} (h : key ∉ front.map Prod.fst)
    (items : List Value) :
    openElement key (front ++ arrayEntry key items) =
      some (front ++ arrayEntry key (items ++ [.table .header []])) := by
  rw [arrayEntry_concat]
  by_cases h_items : items = []
  · subst h_items
    have h_none : front ++ arrayEntry key [] = front := List.append_nil front
    rw [h_none, openElement, lookup_of_not_mem h]
    rfl
  · have h_some : arrayEntry key items = [(key, .array .headers items)] := if_neg h_items
    rw [h_some, openElement, lookup_concat h]
    exact congrArg some (set_concat h _ _)

theorem run_table {place : List String} {entries : Entries} {key : String}
    (h : key ∉ entries.map Prod.fst) {table : List (String × Plain)}
    (distinct : (table.map Prod.fst).Nodup) :
    run place entries (Section.statements ⟨.table key, table⟩) =
      some ([key], entries ++ [(key, .table .header (ofPlain table))]) := by
  have h_open : apply place entries (.table ⟨[], key⟩) =
      some ([key], entries ++ [(key, .table .header [])]) := by
    show (openTable key entries).map _ = _
    rw [openTable_of_not_mem h]
    rfl
  rw [Section.statements, Heading.statements, List.singleton_append, run_cons, h_open]
  exact @run_entries _ _ (leads_table h) table [] distinct

theorem run_element {place : List String} {front : Entries} {key : String}
    (h : key ∉ front.map Prod.fst) (items : List Value) {element : List (String × Plain)}
    (distinct : (element.map Prod.fst).Nodup) :
    run place (front ++ arrayEntry key items) (Section.statements ⟨.element key, element⟩) =
      some ([key], front ++ arrayEntry key (items ++ [.table .header (ofPlain element)])) := by
  have h_open : apply place (front ++ arrayEntry key items) (.element ⟨[], key⟩) =
      some ([key], front ++ arrayEntry key (items ++ [.table .header []])) := by
    show (openElement key _).map _ = _
    rw [openElement_of_not_mem h]
    rfl
  rw [Section.statements, Heading.statements, List.singleton_append, run_cons, h_open,
    arrayEntry_concat, arrayEntry_concat]
  exact @run_entries _ _ (leads_element h items) element [] distinct

theorem run_elements {place : List String} {front : Entries} {key : String}
    (h : key ∉ front.map Prod.fst) {elements : List (List (String × Plain))}
    (distinct : ∀ e ∈ elements, (e.map Prod.fst).Nodup) (items : List Value) :
    (run place (front ++ arrayEntry key items)
        (elements.flatMap fun e => Section.statements ⟨.element key, e⟩)).map Prod.snd =
      some (front ++
        arrayEntry key (items ++ elements.map fun e => .table .header (ofPlain e))) := by
  -- one element after the other, behind those that are there
  induction elements generalizing place items with
  | nil => simp [run]
  | cons e elements ih =>
    rw [List.flatMap_cons, run_append (run_element h items (distinct e List.mem_cons_self)),
      ih fun e h_mem => distinct e (List.mem_cons_of_mem _ h_mem), List.map_cons, List.append_assoc,
      List.singleton_append]

end Entries

/-! ## Outlines -/

namespace Outline

open Entries

/-- The entries of the document as they are read back. -/
def entries (o : Outline) : Entries :=
  ofPlain o.top ++ [(o.tableKey, .table .header (ofPlain o.table))] ++
    arrayEntry o.elementKey (o.elements.map fun e => .table .header (ofPlain e))

/-- The keys of entries need no quotes and differ, and their numbers can be read. -/
structure Tidy (entries : List (String × Plain)) : Prop where
  bare : ∀ e ∈ entries, IsBare e.1
  inRange : ∀ e ∈ entries, e.2.InRange
  distinct : (entries.map Prod.fst).Nodup

structure Sound (o : Outline) : Prop where
  top : Tidy o.top
  table : Tidy o.table
  elements : ∀ e ∈ o.elements, Tidy e
  bare_table : IsBare o.tableKey
  bare_element : IsBare o.elementKey
  fresh_table : o.tableKey ∉ o.top.map Prod.fst
  /-- If there are elements, their key is not taken. -/
  fresh_element : o.elements ≠ [] → o.elementKey ∉ o.top.map Prod.fst ++ [o.tableKey]

variable {o : Outline}

theorem map_fst_ofPlain (entries : List (String × Plain)) :
    (ofPlain entries).map Prod.fst = entries.map Prod.fst := by
  rw [ofPlain, List.map_map]
  rfl

theorem Sound.ofStatements?_sections (h : o.Sound) :
    ofStatements? (o.sections.flatMap Section.statements) = some o.entries := by
  have h_top : run [] [] (Section.statements ⟨.top, o.top⟩) = some ([], ofPlain o.top) :=
    run_entries leads_nil h.top.distinct
  have h_fresh : o.tableKey ∉ (ofPlain o.top).map Prod.fst := by
    rw [map_fst_ofPlain]
    exact h.fresh_table
  have h_table : run [] (ofPlain o.top) (Section.statements ⟨.table o.tableKey, o.table⟩) =
      some ([o.tableKey], ofPlain o.top ++ [(o.tableKey, .table .header (ofPlain o.table))]) :=
    run_table h_fresh h.table.distinct
  show (run [] [] _).map Prod.snd = _
  rw [sections, List.flatMap_cons, run_append h_top, List.flatMap_cons, run_append h_table,
    List.flatMap_map, entries]
  by_cases h_none : o.elements = []
  · rw [h_none]
    exact congrArg some (List.append_nil _).symm
  · have h_key : o.elementKey ∉
        (ofPlain o.top ++ [(o.tableKey, Value.table .header (ofPlain o.table))]).map Prod.fst := by
      rw [List.map_append, map_fst_ofPlain]
      exact h.fresh_element h_none
    have h_elements := @run_elements [o.tableKey] _ _ h_key _
      (fun e h_mem => (h.elements e h_mem).distinct) []
    rwa [List.nil_append, arrayEntry, if_pos rfl, List.append_nil] at h_elements

theorem Tidy.readable {heading : Heading} {entries : List (String × Plain)} (tidy : Tidy entries)
    (bare : ∀ {key}, heading = .table key ∨ heading = .element key → IsBare key) :
    Section.Readable ⟨heading, entries⟩ :=
  ⟨bare, tidy.bare, tidy.inRange⟩

theorem Sound.readable (h : o.Sound) : ∀ s ∈ o.sections, s.Readable := by
  intro s h_mem
  rcases List.mem_cons.mp h_mem with rfl | h_mem
  · exact h.top.readable nofun
  rcases List.mem_cons.mp h_mem with rfl | h_mem
  · refine h.table.readable fun h_key => ?_
    rcases h_key with h_key | h_key <;> cases h_key
    exact h.bare_table
  · obtain ⟨e, h_element, rfl⟩ := List.mem_map.mp h_mem
    refine (h.elements e h_element).readable fun h_key => ?_
    rcases h_key with h_key | h_key <;> cases h_key
    exact h.bare_element

end Outline

/-! ## Tables that spell no dates -/

theorem resolveDatesOfItems?_eq {items : List Value} (h : ∀ v ∈ items, v.resolveDates? = some v) :
    resolveDatesOfItems? items = some items := by
  induction items with
  | nil => rfl
  | cons v items ih =>
    rw [resolveDatesOfItems?, h v List.mem_cons_self,
      ih fun v h_mem => h v (List.mem_cons_of_mem _ h_mem)]
    rfl

theorem resolveDatesOfEntries?_eq {entries : Entries}
    (h : ∀ e ∈ entries, e.2.resolveDates? = some e.2) :
    resolveDatesOfEntries? entries = some entries := by
  induction entries with
  | nil => rfl
  | cons e entries ih =>
    rw [resolveDatesOfEntries?, h e List.mem_cons_self,
      ih fun e h_mem => h e (List.mem_cons_of_mem _ h_mem)]
    rfl

/-- The key that begins a table which spells a date needs quotes. -/
theorem IsBare.ne_dateKey {key : String} (bare : IsBare key) : key ≠ dateKey := by
  rintro rfl
  exact absurd bare (by decide)

theorem resolveDates?_table {entries : Entries} (bare : ∀ e ∈ entries, IsBare e.1)
    (h : ∀ e ∈ entries, e.2.resolveDates? = some e.2) (form : TableForm) :
    (Value.table form entries).resolveDates? = some (.table form entries) := by
  have h_spells : spellsDate entries = false := by
    cases entries with
    | nil => rfl
    | cons e entries => exact beq_eq_false_iff_ne.mpr (bare e List.mem_cons_self).ne_dateKey
  rw [Value.resolveDates?, if_neg (by rw [h_spells]; exact Bool.false_ne_true),
    resolveDatesOfEntries?_eq h]
  rfl

theorem Plain.resolveDates?_value (p : Plain) : p.value.resolveDates? = some p.value := by
  cases p with
  | number n => rfl
  | text s => rfl
  | texts items =>
    have h_items : ∀ v ∈ items.map Value.string, v.resolveDates? = some v := by
      intro v h_mem
      obtain ⟨s, -, rfl⟩ := List.mem_map.mp h_mem
      rfl
    rw [value, Value.resolveDates?, resolveDatesOfItems?_eq h_items]
    rfl

namespace Outline

variable {o : Outline}

theorem mem_entries {e : String × Value} (h_mem : e ∈ o.entries) :
    e ∈ Entries.ofPlain o.top ∨ e = (o.tableKey, .table .header (Entries.ofPlain o.table)) ∨
      e = (o.elementKey,
        .array .headers (o.elements.map fun e => .table .header (Entries.ofPlain e))) := by
  rcases List.mem_append.mp h_mem with h_mem | h_array
  · rcases List.mem_append.mp h_mem with h_top | h_table
    · exact .inl h_top
    · exact .inr (.inl (List.mem_singleton.mp h_table))
  · unfold Entries.arrayEntry at h_array
    split at h_array
    · cases h_array
    · exact .inr (.inr (List.mem_singleton.mp h_array))

theorem Tidy.bare_ofPlain {entries : List (String × Plain)} (tidy : Tidy entries) :
    ∀ e ∈ Entries.ofPlain entries, IsBare e.1 := by
  intro e h_mem
  obtain ⟨e, h_entry, rfl⟩ := List.mem_map.mp h_mem
  exact tidy.bare e h_entry

theorem resolveDates?_ofPlain (entries : List (String × Plain)) :
    ∀ e ∈ Entries.ofPlain entries, e.2.resolveDates? = some e.2 := by
  intro e h_mem
  obtain ⟨e, -, rfl⟩ := List.mem_map.mp h_mem
  exact e.2.resolveDates?_value

theorem Tidy.resolveDates? {entries : List (String × Plain)} (tidy : Tidy entries) :
    (Value.table .header (Entries.ofPlain entries)).resolveDates? =
      some (.table .header (Entries.ofPlain entries)) :=
  resolveDates?_table tidy.bare_ofPlain (resolveDates?_ofPlain entries) .header

theorem Sound.resolveDates? (h : o.Sound) :
    (Value.table .header o.entries).resolveDates? = some (.table .header o.entries) := by
  have h_items : ∀ v ∈ o.elements.map fun e => Value.table .header (Entries.ofPlain e),
      v.resolveDates? = some v := by
    intro v h_mem
    obtain ⟨e, h_element, rfl⟩ := List.mem_map.mp h_mem
    exact (h.elements e h_element).resolveDates?
  have h_entry : ∀ e ∈ o.entries, IsBare e.1 ∧ e.2.resolveDates? = some e.2 := by
    intro e h_mem
    rcases mem_entries h_mem with h_top | rfl | rfl
    · exact ⟨h.top.bare_ofPlain e h_top, resolveDates?_ofPlain o.top e h_top⟩
    · exact ⟨h.bare_table, h.table.resolveDates?⟩
    · refine ⟨h.bare_element, ?_⟩
      rw [Value.resolveDates?, resolveDatesOfItems?_eq h_items]
      rfl
  exact resolveDates?_table (fun e h_mem => (h_entry e h_mem).1)
    (fun e h_mem => (h_entry e h_mem).2) .header

/-- What is written for the document is read as its entries. -/
theorem Sound.parse?_write (h : o.Sound) :
    parse? (String.ofList (writeSections o.sections)) = some o.entries :=
  parse?_writeSections h.readable h.ofStatements?_sections h.resolveDates?

end Outline

/-! ## Codecs -/

/-- A table with the given entries, in any order. -/
def Value.Lists (v : Value) (entries : List (String × Plain)) : Prop :=
  ∃ form found, v = .table form found ∧ found.Perm (Entries.ofPlain entries)

theorem Value.lists_ofPlain (form : TableForm) (entries : List (String × Plain)) :
    (Value.table form (Entries.ofPlain entries)).Lists entries :=
  ⟨form, _, rfl, .refl _⟩

namespace Outline

/-- The entries of the document, with the given values for the table and the array. -/
def entriesWith (o : Outline) (table array : Value) : Entries :=
  Entries.ofPlain o.top ++ [(o.tableKey, table)] ++
    if o.elements = [] then [] else [(o.elementKey, array)]

/-- What the document may be read as: the order of its tables is left open, and so is the
form in which a table or an array was opened. -/
def IsRead (o : Outline) (entries : Entries) : Prop :=
  ∃ table form items, table.Lists o.table ∧ List.Forall₂ Value.Lists items o.elements ∧
    entries.Perm (o.entriesWith table (.array form items))

theorem isRead_entries (o : Outline) : o.IsRead o.entries := by
  refine ⟨_, .headers, _, Value.lists_ofPlain .header o.table, List.forall₂_map_left_iff.mpr
    (List.forall₂_same.mpr fun e _ => Value.lists_ofPlain .header e), ?_⟩
  simp only [entries, entriesWith, Entries.arrayEntry, List.map_eq_nil_iff]
  exact .refl _

end Outline

/-- A codec reads what it writes, up to the order of keys in a table. -/
structure Codec.Lawful (codec : Codec) : Prop where
  read?_write : ∀ o : Outline, o.Sound →
    ∃ entries, codec.read? (codec.write o) = some entries ∧ o.IsRead entries

theorem Codec.lawful_standard : Codec.standard.Lawful where
  read?_write o sound := ⟨o.entries, sound.parse?_write, o.isRead_entries⟩

end FlashImage.Toml
