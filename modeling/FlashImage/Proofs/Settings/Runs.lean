import FlashImage.Proofs.Except
import FlashImage.Proofs.Text
import FlashImage.Settings.Items

/-!
# Runs over the items of a settings string

All items are read before the first is applied, so a string with an item that cannot be
read does nothing.  Otherwise the items are applied in their order, and what was done
before the first item that is refused stays done.

* `applyWith_append`: a string that is continued behind a comma.
-/

namespace FlashImage.Settings

open Text

/-! ## Reading items -/

/-- An item is cut at its first equals sign. -/
inductive Reads : List Char → Item → Prop where
  | intro {key : List Char} (h_key : '=' ∉ key) (value : List Char) :
      Reads (key ++ '=' :: value) ⟨String.ofList (lower (trim key)), String.ofList (trim value)⟩

/-- The first item without an equals sign. -/
inductive FirstMalformed : List (List Char) → List Char → Prop where
  | intro {before after : List (List Char)} {raw : List Char} (h_before : ∀ r ∈ before, '=' ∈ r)
      (h_raw : '=' ∉ raw) : FirstMalformed (before ++ raw :: after) raw

theorem readItem_plain {raw : List Char} (h_raw : '=' ∉ raw) :
    readItem raw = .error (.malformed (String.ofList raw)) := by
  rw [readItem, cutAt_eq_none h_raw]

theorem readItem_eq_ok_iff {raw : List Char} {i : Item} : readItem raw = .ok i ↔ Reads raw i := by
  constructor
  · intro h_read
    by_cases h_mem : '=' ∈ raw
    · obtain ⟨key, value, rfl, h_key⟩ := List.eq_append_cons_of_mem h_mem
      rw [readItem, cutAt_append_cons h_key, Except.ok.injEq] at h_read
      subst h_read
      exact .intro h_key value
    · rw [readItem_plain h_mem] at h_read
      contradiction
  · intro reads
    cases reads with
    | intro h_key value => rw [readItem, cutAt_append_cons h_key]

theorem exists_readItem_iff {raw : List Char} : (∃ i, readItem raw = .ok i) ↔ '=' ∈ raw := by
  constructor
  · intro h_read
    obtain ⟨i, h_read⟩ := h_read
    cases readItem_eq_ok_iff.mp h_read with
    | intro h_key value => exact List.mem_append_right _ List.mem_cons_self
  · intro h_mem
    obtain ⟨key, value, rfl, h_key⟩ := List.eq_append_cons_of_mem h_mem
    exact ⟨_, readItem_eq_ok_iff.mpr (.intro h_key value)⟩

theorem readItem_eq_error_iff {raw : List Char} {e : SettingsError} :
    readItem raw = .error e ↔ '=' ∉ raw ∧ e = .malformed (String.ofList raw) := by
  by_cases h_mem : '=' ∈ raw
  · obtain ⟨i, h_read⟩ := exists_readItem_iff.mpr h_mem
    simp [h_read, h_mem]
  · simp [readItem_plain h_mem, h_mem, eq_comm]

theorem readItems_eq_ok_iff {input : String} {items : List Item} :
    readItems input = .ok items ↔ List.Forall₂ Reads (rawItems input.toList) items := by
  simp only [readItems, mapM_eq_ok_iff_forall₂, readItem_eq_ok_iff]

theorem readItems_eq_error_iff {input : String} {e : SettingsError} :
    readItems input = .error e ↔
      ∃ raw, FirstMalformed (rawItems input.toList) raw ∧ e = .malformed (String.ofList raw) := by
  simp only [readItems, mapM_eq_error_iff, readItem_eq_error_iff, exists_readItem_iff]
  constructor
  · intro h
    obtain ⟨before, raw, after, h_raws, h_before, h_raw, h_error⟩ := h
    rw [h_raws]
    exact ⟨raw, .intro h_before h_raw, h_error⟩
  · intro h
    obtain ⟨raw, first, h_error⟩ := h
    generalize rawItems input.toList = raws at first
    obtain ⟨h_before, h_raw⟩ := first
    exact ⟨_, raw, _, rfl, h_before, h_raw, h_error⟩

theorem exists_readItems {input : String} (h_input : ∀ raw ∈ rawItems input.toList, '=' ∈ raw) :
    ∃ items, readItems input = .ok items := by
  cases h_read : readItems input with
  | ok items => exact ⟨items, rfl⟩
  | error e =>
    obtain ⟨raw, first, -⟩ := readItems_eq_error_iff.mp h_read
    generalize rawItems input.toList = raws at first h_input
    cases first with
    | intro _ h_raw => exact absurd (h_input raw (by simp)) h_raw

theorem word_eq_ok {key value : String} {w : UInt32} (number : Literal.word? value = some w) :
    (Item.mk key value).word = .ok w := by
  unfold Item.word
  simp only [number]

theorem word_eq_error {key value : String} (no_number : Literal.word? value = none) :
    (Item.mk key value).word = .error (.invalidValue key value) := by
  unfold Item.word
  simp only [no_number]

/-! ## Applying items -/

/-- The keys of one kind of settings, and what an item does to them. -/
structure Vocabulary (σ : Type) where
  topic : String
  keys : List String
  Sets : σ → Item → σ → Prop
  known : ∀ {s i t}, Sets s i t → i.key ∈ keys

namespace Vocabulary

variable {σ : Type} (v : Vocabulary σ)

/-- An item is refused for its key, or for a value that does nothing under this key. -/
inductive Refuses (s : σ) (i : Item) : SettingsError → Prop where
  | unknownKey (h_key : i.key ∉ v.keys) : Refuses s i (.unknownKey v.topic i.key)
  | invalidValue (h_key : i.key ∈ v.keys) (h_value : ∀ t, ¬ v.Sets s i t) :
      Refuses s i (.invalidValue i.key i.value)

/-- Items that can be applied, one after the other. -/
inductive Run : σ → List Item → σ → Prop where
  | nil (s : σ) : Run s [] s
  | cons {s t u : σ} {i : Item} {is : List Item} (sets : v.Sets s i t) (run : Run t is u) :
      Run s (i :: is) u

/-- The items that are applied, the result and the settings at the end. -/
inductive Outcome (s : σ) (raws : List (List Char)) :
    List Item → Except SettingsError Unit → σ → Prop where
  | malformed {raw : List Char} (first : FirstMalformed raws raw) :
      Outcome s raws [] (.error (.malformed (String.ofList raw))) s
  | refused {before after : List Item} {i : Item} {t : σ} {e : SettingsError}
      (reads : List.Forall₂ Reads raws (before ++ i :: after)) (run : v.Run s before t)
      (refuses : v.Refuses t i e) : Outcome s raws before (.error e) t
  | applied {items : List Item} {t : σ} (reads : List.Forall₂ Reads raws items)
      (run : v.Run s items t) : Outcome s raws items (.ok ()) t

/-- What is said about an item if it is refused. -/
def complaint (i : Item) : SettingsError :=
  if i.key ∈ v.keys then .invalidValue i.key i.value else .unknownKey v.topic i.key

inductive Answers (s : σ) (i : Item) : Except SettingsError σ → Prop where
  | applied {t : σ} (sets : v.Sets s i t) : Answers s i (.ok t)
  | refused : Answers s i (.error (v.complaint i))

/-- A function applies the items that the vocabulary has a meaning for, and no others. -/
structure Governs (set : σ → Item → Except SettingsError σ) : Prop where
  answers : ∀ s i, v.Answers s i (set s i)
  applies : ∀ {s i t}, v.Sets s i t → set s i = .ok t

variable {v} {set : σ → Item → Except SettingsError σ}

theorem answers_unknown {s : σ} {i : Item} (h_key : i.key ∉ v.keys) :
    v.Answers s i (.error (.unknownKey v.topic i.key)) := by
  have h_complaint : v.complaint i = .unknownKey v.topic i.key := if_neg h_key
  rw [← h_complaint]
  exact .refused

theorem answers_invalid {s : σ} {i : Item} (h_key : i.key ∈ v.keys) :
    v.Answers s i (.error (.invalidValue i.key i.value)) := by
  have h_complaint : v.complaint i = .invalidValue i.key i.value := if_pos h_key
  rw [← h_complaint]
  exact .refused

theorem answers_word {s : σ} {i : Item} (h_key : i.key ∈ v.keys) {change : UInt32 → σ}
    (sets : ∀ w, Literal.word? i.value = some w → v.Sets s i (change w)) :
    v.Answers s i (do .ok (change (← i.word))) := by
  obtain ⟨key, value⟩ := i
  cases number : Literal.word? value with
  | some w =>
    rw [word_eq_ok number]
    exact .applied (sets w number)
  | none =>
    rw [word_eq_error number]
    exact answers_invalid h_key

theorem refuses_iff_complaint {s : σ} {i : Item} {e : SettingsError} :
    v.Refuses s i e ↔ (∀ t, ¬ v.Sets s i t) ∧ e = v.complaint i := by
  constructor
  · intro refuses
    cases refuses with
    | unknownKey h_key => exact ⟨fun t sets => h_key (v.known sets), (if_neg h_key).symm⟩
    | invalidValue h_key h_value => exact ⟨h_value, (if_pos h_key).symm⟩
  · intro h
    obtain ⟨h_value, rfl⟩ := h
    rw [complaint]
    split
    next h_key => exact .invalidValue h_key h_value
    next h_key => exact .unknownKey h_key

/-- What holds of no items and is carried on by each that is applied. -/
theorem Run.induct {P : List String → σ → σ → Prop} (nil : ∀ s, P [] s s)
    (cons : ∀ {s t u i keys}, v.Sets s i t → P keys t u → P (i.key :: keys) s u)
    {s t : σ} {is : List Item} (run : v.Run s is t) : P (is.map Item.key) s t := by
  induction run with
  | nil s => exact nil s
  | cons sets _ ih => exact cons sets ih

namespace Governs

variable (governs : v.Governs set) {s t : σ}

include governs

theorem sets_iff {i : Item} : set s i = .ok t ↔ v.Sets s i t := by
  constructor
  · intro h_set
    have h_answer := governs.answers s i
    rw [h_set] at h_answer
    cases h_answer with
    | applied sets => exact sets
  · exact governs.applies

theorem refuses_iff {i : Item} {e : SettingsError} :
    set s i = .error e ↔ v.Refuses s i e := by
  have h_answer := governs.answers s i
  rw [refuses_iff_complaint]
  constructor
  · intro h_set
    rw [h_set] at h_answer
    cases h_answer with
    | refused =>
      refine ⟨fun t sets => ?_, rfl⟩
      rw [governs.applies sets] at h_set
      contradiction
  · intro h
    obtain ⟨h_value, rfl⟩ := h
    generalize set s i = answer at h_answer
    cases h_answer with
    | applied sets => exact absurd sets (h_value _)
    | refused => rfl

theorem applyItems_eq_ok_iff {is : List Item} :
    applyItems set s is = (.ok (), t) ↔ v.Run s is t := by
  constructor
  · intro h
    induction is generalizing s with
    | nil =>
      obtain rfl := congrArg Prod.snd h
      exact .nil s
    | cons i is ih =>
      rw [applyItems] at h
      split at h
      next h_set => exact .cons (governs.sets_iff.mp h_set) (ih h)
      next => cases h
  · intro run
    induction run with
    | nil s => rfl
    | cons sets _ ih =>
      rw [applyItems, governs.applies sets]
      exact ih

theorem applyItems_eq_error_iff {is : List Item} {e : SettingsError} :
    applyItems set s is = (.error e, t) ↔
      ∃ before i after, is = before ++ i :: after ∧ v.Run s before t ∧ v.Refuses t i e := by
  constructor
  · intro h
    -- on the items, whatever those in front of them have made of the settings
    induction is generalizing s with
    | nil => cases h
    | cons i is ih =>
      rw [applyItems] at h
      split at h
      next h_set =>
        obtain ⟨before, j, after, rfl, run, refuses⟩ := ih h
        exact ⟨i :: before, j, after, rfl, .cons (governs.sets_iff.mp h_set) run, refuses⟩
      next h_set =>
        cases h
        exact ⟨[], i, is, rfl, .nil _, governs.refuses_iff.mp h_set⟩
  · intro h
    obtain ⟨before, i, after, rfl, run, refuses⟩ := h
    induction run with
    | nil s => rw [List.nil_append, applyItems, governs.refuses_iff.mpr refuses]
    | cons sets _ ih =>
      rw [List.cons_append, applyItems, governs.applies sets]
      exact ih refuses

/-- A settings string ends in the way that its items tell. -/
theorem applyWith_eq_iff {input : String} {r : Except SettingsError Unit} :
    applyWith set s input = (r, t) ↔
      ∃ applied, v.Outcome s (rawItems input.toList) applied r t := by
  constructor
  · intro h
    rw [applyWith] at h
    split at h
    next items h_read =>
      have reads := readItems_eq_ok_iff.mp h_read
      cases r with
      | ok => exact ⟨items, .applied reads (governs.applyItems_eq_ok_iff.mp h)⟩
      | error e =>
        obtain ⟨before, i, after, rfl, run, refuses⟩ := governs.applyItems_eq_error_iff.mp h
        exact ⟨before, .refused reads run refuses⟩
    next e h_read =>
      obtain ⟨raw, first, rfl⟩ := readItems_eq_error_iff.mp h_read
      cases h
      exact ⟨[], .malformed first⟩
  · intro h
    obtain ⟨applied, outcome⟩ := h
    cases outcome with
    | malformed first => rw [applyWith, readItems_eq_error_iff.mpr ⟨_, first, rfl⟩]
    | refused reads run refuses =>
      rw [applyWith, readItems_eq_ok_iff.mpr reads]
      exact governs.applyItems_eq_error_iff.mpr ⟨_, _, _, rfl, run, refuses⟩
    | applied reads run =>
      rw [applyWith, readItems_eq_ok_iff.mpr reads]
      exact governs.applyItems_eq_ok_iff.mpr run

end Governs

end Vocabulary

/-! ## Strings in a row -/

section Continued

variable {σ : Type}

/-- The settings are changed further if they could be changed so far. -/
def andThen (first : Except SettingsError Unit × σ)
    (next : σ → Except SettingsError Unit × σ) : Except SettingsError Unit × σ :=
  match first with
  | (.ok (), s) => next s
  | (.error e, s) => (.error e, s)

theorem rawItems_append_comma (a b : List Char) :
    rawItems (a ++ ',' :: b) = rawItems a ++ rawItems b := by
  rw [rawItems, List.splitOn_append_cons_self, List.map_append, List.filter_append]
  rfl

theorem applyItems_append (set : σ → Item → Except SettingsError σ) (s : σ)
    (is js : List Item) :
    applyItems set s (is ++ js) = andThen (applyItems set s is) (applyItems set · js) := by
  induction is generalizing s with
  | nil => rfl
  | cons i is ih =>
    rw [List.cons_append, applyItems, applyItems]
    cases set s i with
    | ok s => exact ih s
    | error e => rfl

/-- Two strings with a comma between them are applied one after the other, unless the
second has an item that cannot be read: nothing of the first would then be applied. -/
theorem applyWith_append (set : σ → Item → Except SettingsError σ) (s : σ) (a : String)
    {b : String} (h_b : ∀ raw ∈ rawItems b.toList, '=' ∈ raw) :
    applyWith set s (a ++ "," ++ b) = andThen (applyWith set s a) (applyWith set · b) := by
  obtain ⟨js, h_js⟩ := exists_readItems h_b
  have h_read : readItems (a ++ "," ++ b) = (readItems a >>= fun is => .ok (is ++ js)) := by
    have h_text : (a ++ "," ++ b).toList = a.toList ++ ',' :: b.toList := by simp
    rw [readItems, h_text, rawItems_append_comma, List.mapM_append]
    rw [readItems] at h_js
    rw [h_js]
    rfl
  simp only [applyWith, h_read, h_js]
  cases readItems a with
  | error e => rfl
  | ok is => exact applyItems_append set s is js

end Continued

end FlashImage.Settings
