import FlashImage.Manifest.Document
import FlashImage.Proofs.Except
import FlashImage.Proofs.Toml.Outline
import Mathlib.Data.List.Infix
import Mathlib.Data.List.TakeWhile

/-!
# Texts without references

A text that no reference stands in is its own substitute, whatever the variables
are, and so is a document all of whose strings are like that.

* `Toml.Codec.Lawful.readDocument?_write`: a document that is written is read as it is.
-/

namespace FlashImage

namespace Substitution

/-! ## Names -/

def IsLetter (c : Char) : Prop :=
  ('A' ≤ c ∧ c ≤ 'Z') ∨ ('a' ≤ c ∧ c ≤ 'z') ∨ c = '_'

def IsDigit (c : Char) : Prop :=
  '0' ≤ c ∧ c ≤ '9'

/-- A letter of ASCII or an underscore, and behind it any number of these and of digits. -/
inductive IsName : List Char → Prop where
  | intro {c : Char} {name : List Char} (first : IsLetter c)
      (others : ∀ d ∈ name, IsLetter d ∨ IsDigit d) : IsName (c :: name)

theorem isNameStart_iff {c : Char} : isNameStart c = true ↔ IsLetter c := by
  have h_char : isNameStart c =
      (decide ('A' ≤ c ∧ c ≤ 'Z') || ('a' ≤ c && c ≤ 'z') || c == '_') := rfl
  simp only [h_char, IsLetter, Bool.or_eq_true, Bool.and_eq_true, decide_eq_true_eq, beq_iff_eq,
    or_assoc]

theorem isNameChar_iff {c : Char} : isNameChar c = true ↔ IsLetter c ∨ IsDigit c := by
  have h_char : isNameChar c = (isNameStart c || c.isDigit) := Bool.or_right_comm _ _ _
  rw [h_char, Bool.or_eq_true, isNameStart_iff]
  simp only [Char.isDigit, Bool.and_eq_true, decide_eq_true_eq]
  rfl

theorem IsName.mark_notMem {name : List Char} (isName : IsName name) : '$' ∉ name := by
  have h_mark : ¬ (IsLetter '$' ∨ IsDigit '$') := by
    rw [← isNameChar_iff]
    decide
  intro h_mem
  cases isName with
  | intro first others =>
    rcases List.mem_cons.mp h_mem with rfl | h_mem
    · exact h_mark (.inl first)
    · exact h_mark (others _ h_mem)

/-! ## References -/

/-- What refers to a variable: its name between braces, behind the mark. -/
def mention (name : List Char) : List Char :=
  '$' :: '{' :: (name ++ ['}'])

theorem reference?_eq_some_iff {s name rest : List Char} :
    reference? s = some (name, rest) ↔ IsName name ∧ s = mention name ++ rest := by
  constructor
  · intro h
    unfold reference? at h
    split at h
    next c s =>
      split at h
      next h_start =>
        split at h
        next behind h_behind =>
          have h_split := List.takeWhile_append_dropWhile (p := isNameChar) (l := s)
          rw [h_behind] at h_split
          obtain ⟨rfl, rfl⟩ : c :: s.takeWhile isNameChar = name ∧ behind = rest := by simpa using h
          refine ⟨.intro (isNameStart_iff.mp h_start) fun d h_mem => ?_, ?_⟩
          · exact isNameChar_iff.mp (List.mem_takeWhile_imp h_mem)
          · simp [mention, h_split]
        · cases h
      · cases h
    · cases h
  · rintro ⟨⟨first, others⟩, rfl⟩
    rename_i c name
    have h_name : ∀ d ∈ name, isNameChar d = true :=
      fun d h_mem => isNameChar_iff.mpr (others d h_mem)
    obtain ⟨h_take, h_drop⟩ := Toml.span_append h_name (by decide : isNameChar '}' = false) rest
    simp [mention, reference?, isNameStart_iff.mpr first, h_take, h_drop]

/-- The name of a variable between braces, behind the mark. -/
def IsReference (s : List Char) : Prop :=
  ∃ c name, isNameStart c = true ∧ (∀ d ∈ name, isNameChar d = true) ∧
    s = '$' :: '{' :: c :: (name ++ ['}'])

theorem isReference_iff {s : List Char} :
    IsReference s ↔ ∃ name, IsName name ∧ s = mention name := by
  constructor
  · rintro ⟨c, name, h_start, h_name, rfl⟩
    refine ⟨c :: name, .intro (isNameStart_iff.mp h_start) fun d h_mem => ?_, rfl⟩
    exact isNameChar_iff.mp (h_name d h_mem)
  · rintro ⟨_, ⟨first, others⟩, rfl⟩
    refine ⟨_, _, isNameStart_iff.mpr first, fun d h_mem => ?_, rfl⟩
    exact isNameChar_iff.mpr (others d h_mem)

/-! ## Texts without references -/

/-- No variable is referred to in the text. -/
def Free (s : List Char) : Prop :=
  ∀ name, IsName name → ¬ mention name <:+: s

theorem free_iff {s : List Char} : Free s ↔ ∀ t ∈ s.tails, reference? t = none := by
  constructor
  · intro free t h_mem
    by_contra h_some
    obtain ⟨⟨name, rest⟩, h_reference⟩ := Option.ne_none_iff_exists'.mp h_some
    obtain ⟨isName, rfl⟩ := reference?_eq_some_iff.mp h_reference
    have h_suffix : mention name ++ rest <:+ s := (List.mem_tails _ _).mp h_mem
    exact free name isName (List.infix_iff_prefix_suffix.mpr ⟨_, ⟨rest, rfl⟩, h_suffix⟩)
  · intro h name isName h_infix
    obtain ⟨t, ⟨rest, rfl⟩, h_suffix⟩ := List.infix_iff_prefix_suffix.mp h_infix
    have h_none := h _ ((List.mem_tails _ _).mpr h_suffix)
    rw [reference?_eq_some_iff.mpr ⟨isName, rfl⟩] at h_none
    cases h_none

theorem free_nil : Free [] := by
  intro name isName h_infix
  simp [mention] at h_infix

theorem Free.tail {c : Char} {s : List Char} (free : Free (c :: s)) : Free s :=
  fun name isName h_infix => free name isName (List.infix_cons h_infix)

theorem Free.cons {c : Char} {literal s : List Char} (free : Free literal) (h_front : literal <+: s)
    (h_none : reference? (c :: s) = none) : Free (c :: literal) := by
  intro name isName h_infix
  rcases List.infix_cons_iff.mp h_infix with h_prefix | h_infix
  · obtain ⟨rest, h_text⟩ := h_prefix.trans (List.cons_prefix_cons.mpr ⟨rfl, h_front⟩)
    rw [reference?_eq_some_iff.mpr ⟨isName, h_text.symm⟩] at h_none
    cases h_none
  · exact free name isName h_infix

/-! ## The scan -/

theorem parts_of_reference {s name rest : List Char} (h : reference? s = some (name, rest)) :
    parts s = .reference name :: parts rest := by
  cases s with
  | nil => cases h
  | cons c s =>
    rw [parts]
    split
    next h_some => rw [h] at h_some; cases h_some; rfl
    next h_none => rw [h] at h_none; cases h_none

theorem parts_cons_of_none {c : Char} {s : List Char} (h : reference? (c :: s) = none) :
    parts (c :: s) = .char c :: parts s := by
  rw [parts]
  split
  next h_some => rw [h] at h_some; cases h_some
  next => rfl

theorem parts_of_free {s : List Char} (free : Free s) : parts s = s.map .char := by
  induction s with
  | nil => rw [parts]; rfl
  | cons c s ih =>
    have h_none : reference? (c :: s) = none := free_iff.mp free _ (by simp)
    rw [parts_cons_of_none h_none, ih free.tail, List.map_cons]

end Substitution

open Substitution

/-- No reference stands in the text. -/
def Unreferenced (text : String) : Prop :=
  ∀ r, IsReference r → ¬ r <:+: text.toList

theorem unreferenced_iff_free {text : String} : Unreferenced text ↔ Free text.toList := by
  constructor
  · intro h name isName
    exact h _ (isReference_iff.mpr ⟨name, isName, rfl⟩)
  · rintro free r h_reference
    obtain ⟨name, isName, rfl⟩ := isReference_iff.mp h_reference
    exact free name isName

theorem unreferenced_iff {text : String} :
    Unreferenced text ↔ ∀ t ∈ text.toList.tails, reference? t = none :=
  unreferenced_iff_free.trans free_iff

instance (text : String) : Decidable (Unreferenced text) :=
  decidable_of_iff' _ unreferenced_iff

theorem substitute_eq_self {text : String} (h : Unreferenced text) (env : Environment) :
    substitute env text = text := by
  rw [substitute, parts_of_free (unreferenced_iff_free.mp h), List.flatMap_map]
  show String.ofList (text.toList.flatMap fun c => [c]) = text
  rw [List.flatMap_singleton', String.ofList_toList]

/-! ## Documents -/

namespace Toml

mutual

theorem Value.mapStrings_eq_self {f : String → String} :
    ∀ v : Value, (∀ s ∈ v.strings, f s = s) → v.mapStrings f = v
  | .string s, h => by
      rw [Value.mapStrings, h s List.mem_cons_self]
  | .array form items, h => by
      rw [Value.mapStrings, mapStringsOfItems_eq_self items h]
  | .table form entries, h => by
      rw [Value.mapStrings, mapStringsOfEntries_eq_self entries h]
  | .integer _, _ => rfl
  | .float _, _ => rfl
  | .boolean _, _ => rfl
  | .dateTime _, _ => rfl

theorem mapStringsOfItems_eq_self {f : String → String} :
    ∀ items : List Value, (∀ s ∈ stringsOfItems items, f s = s) → mapStringsOfItems f items = items
  | [], _ => rfl
  | v :: items, h => by
      rw [stringsOfItems, List.forall_mem_append] at h
      rw [mapStringsOfItems, v.mapStrings_eq_self h.1, mapStringsOfItems_eq_self items h.2]

theorem mapStringsOfEntries_eq_self {f : String → String} :
    ∀ entries : List (String × Value), (∀ s ∈ stringsOfEntries entries, f s = s) →
      mapStringsOfEntries f entries = entries
  | [], _ => rfl
  | (key, v) :: entries, h => by
      rw [stringsOfEntries, List.forall_mem_append] at h
      rw [mapStringsOfEntries, v.mapStrings_eq_self h.1, mapStringsOfEntries_eq_self entries h.2]

end

theorem mem_stringsOfItems {items : List Value} {s : String} :
    s ∈ stringsOfItems items ↔ ∃ v ∈ items, s ∈ v.strings := by
  induction items with
  | nil => simp [stringsOfItems]
  | cons v items ih => simp [stringsOfItems, ih]

theorem mem_stringsOfEntries {entries : Entries} {s : String} :
    s ∈ stringsOfEntries entries ↔ ∃ e ∈ entries, s ∈ e.2.strings := by
  induction entries with
  | nil => simp [stringsOfEntries]
  | cons e entries ih => simp [stringsOfEntries, ih]

/-- The strings of a value that documents are written with. -/
def Plain.strings : Plain → List String
  | number _ => []
  | text s => [s]
  | texts items => items

theorem Plain.strings_value (p : Plain) : p.value.strings = p.strings := by
  cases p with
  | number n => rfl
  | text s => rfl
  | texts items =>
    rw [value, Value.strings]
    induction items with
    | nil => rfl
    | cons s items ih =>
      rw [List.map_cons, stringsOfItems, ih]
      rfl

theorem mem_stringsOfEntries_ofPlain {entries : List (String × Plain)} {s : String} :
    s ∈ stringsOfEntries (Entries.ofPlain entries) ↔ ∃ e ∈ entries, s ∈ e.2.strings := by
  simp [mem_stringsOfEntries, Entries.ofPlain, Plain.strings_value]

namespace Outline

variable {o : Outline}

/-- All strings that the document holds under its keys. -/
def strings (o : Outline) : List String :=
  (o.top :: o.table :: o.elements).flatMap fun entries => entries.flatMap (·.2.strings)

theorem mem_strings_of_lists {v : Value} {entries : List (String × Plain)}
    (lists : v.Lists entries) (h_entries : entries ∈ o.top :: o.table :: o.elements) {s : String}
    (h_mem : s ∈ v.strings) : s ∈ o.strings := by
  obtain ⟨form, found, rfl, h_perm⟩ := lists
  obtain ⟨e, h_entry, h_string⟩ := mem_stringsOfEntries.mp h_mem
  obtain ⟨e, h_entry, h_string⟩ := mem_stringsOfEntries_ofPlain.mp
    (mem_stringsOfEntries.mpr ⟨e, h_perm.mem_iff.mp h_entry, h_string⟩)
  exact List.mem_flatMap.mpr ⟨entries, h_entries, List.mem_flatMap.mpr ⟨e, h_entry, h_string⟩⟩

/-- Whatever is read of the document has its strings. -/
theorem IsRead.mem_strings {entries : Entries} (isRead : o.IsRead entries) {s : String}
    (h_mem : s ∈ stringsOfEntries entries) : s ∈ o.strings := by
  obtain ⟨table, form, items, h_table, h_items, h_perm⟩ := isRead
  obtain ⟨e, h_entry, h_string⟩ := mem_stringsOfEntries.mp h_mem
  rcases List.mem_append.mp (h_perm.mem_iff.mp h_entry) with h_front | h_array
  · rcases List.mem_append.mp h_front with h_top | h_table_entry
    · have h_top_string := mem_stringsOfEntries.mpr ⟨e, h_top, h_string⟩
      exact mem_strings_of_lists (Value.lists_ofPlain .header o.top) List.mem_cons_self
        h_top_string
    · rw [List.mem_singleton.mp h_table_entry] at h_string
      exact mem_strings_of_lists h_table (List.mem_cons_of_mem _ List.mem_cons_self) h_string
  · split at h_array
    · cases h_array
    · rw [List.mem_singleton.mp h_array] at h_string
      obtain ⟨v, h_item, h_string⟩ := mem_stringsOfItems.mp h_string
      obtain ⟨element, h_element, lists⟩ := exists_of_mem_forall₂ h_items h_item
      exact mem_strings_of_lists lists
        (List.mem_cons_of_mem _ (List.mem_cons_of_mem _ h_element)) h_string

end Outline

/-- What is written for a document without references is read as this document. -/
theorem Codec.Lawful.readDocument?_write {codec : Codec} (lawful : codec.Lawful) {o : Outline}
    (sound : o.Sound) (h_plain : ∀ s ∈ o.strings, Unreferenced s) (env : Environment) :
    ∃ entries, Manifest.readDocument? codec env (codec.write o) = some entries ∧
      o.IsRead entries := by
  obtain ⟨entries, h_read, isRead⟩ := lawful.read?_write o sound
  have h_same : mapStringsOfEntries (substitute env) entries = entries :=
    mapStringsOfEntries_eq_self entries fun s h_mem =>
      substitute_eq_self (h_plain s (isRead.mem_strings h_mem)) env
  refine ⟨entries, ?_, isRead⟩
  rw [Manifest.readDocument?, h_read, Option.map_some, h_same]

end Toml

end FlashImage
