import FlashImage.Proofs.Settings.Runs

/-!
# One key, several values

A settings string may give several values to one key.  Each of them changes the field of
this key further, and no other field is looked at; so it is as if the values were applied
to the field alone, one after the other.

* `Field.applyWith_of_some`, `Field.applyWith_of_refused`: a string of such items.
-/

namespace FlashImage.Settings

open Text

/-! ## The string -/

/-- The settings string that gives each of the values to the key, in their order. -/
def repeated (key : String) (values : List String) : String :=
  ",".intercalate (values.map fun value => key ++ "=" ++ value)

/-- A value without the blanks around it, as items hold it. -/
def trimmed (value : String) : String :=
  String.ofList (trim value.toList)

theorem readItem_append {key : List Char} (h_key : '=' ∉ key) (value : List Char) :
    readItem (key ++ '=' :: value) =
      .ok ⟨String.ofList (lower (trim key)), String.ofList (trim value)⟩ :=
  readItem_eq_ok_iff.mpr (.intro h_key value)

/-- Blanks around an item do not matter. -/
theorem reads_trim_iff {raw : List Char} {i : Item} : Reads (trim raw) i ↔ Reads raw i := by
  simp only [← readItem_eq_ok_iff]
  have h_ne : ∀ c, isBlank c = true → '=' ≠ c := fun _ => ne_of_isBlank (by decide)
  refine iff_of_eq (apply_trim (f := fun s => readItem s = .ok i) ?_ ?_ raw)
  · intro c s h_blank
    by_cases h_mem : '=' ∈ s
    · obtain ⟨key, value, rfl, h_key⟩ := List.eq_append_cons_of_mem h_mem
      have h_longer : '=' ∉ c :: key := by simp [h_ne c h_blank, h_key]
      rw [← List.cons_append, readItem_append h_longer, readItem_append h_key,
        trim_cons_blank h_blank]
    · simp [readItem_plain, h_ne c h_blank, h_mem]
  · intro c s h_blank
    by_cases h_mem : '=' ∈ s
    · obtain ⟨key, value, rfl, h_key⟩ := List.eq_append_cons_of_mem h_mem
      rw [List.append_assoc, List.cons_append, readItem_append h_key, readItem_append h_key,
        trim_concat_blank h_blank]
    · simp [readItem_plain, h_ne c h_blank, h_mem]

theorem rawItems_intercalate {raws : List (List Char)} (h_plain : ∀ raw ∈ raws, ',' ∉ raw)
    (h_some : ∀ raw ∈ raws, trim raw ≠ []) : rawItems ([','].intercalate raws) = raws.map trim := by
  by_cases h_empty : raws = []
  · subst h_empty
    rfl
  · rw [rawItems, List.splitOn_intercalate ',' h_plain h_empty, List.filter_eq_self]
    simpa using h_some

/-- A way to write a key in a settings string. -/
structure Spelling (key name : String) : Prop where
  comma : ',' ∉ name.toList
  equals : '=' ∉ name.toList
  key_eq : String.ofList (lower (trim name.toList)) = key

theorem readItems_repeated {key name : String} (spelling : Spelling key name)
    {values : List String} (h_values : ∀ value ∈ values, ',' ∉ value.toList) :
    readItems (repeated name values) = .ok ((values.map trimmed).map (Item.mk key)) := by
  let raw (value : String) : List Char := name.toList ++ '=' :: value.toList
  have h_text : (repeated name values).toList = [','].intercalate (values.map raw) := by
    simp [repeated, raw, String.toList_intercalate, Function.comp_def]
  have h_plain : ∀ r ∈ values.map raw, ',' ∉ r := by
    simp only [List.mem_map, forall_exists_index, and_imp, forall_apply_eq_imp_iff₂]
    intro value h_mem
    simp [raw, spelling.comma, h_values value h_mem]
  have h_some : ∀ r ∈ values.map raw, trim r ≠ [] := by
    simp only [List.mem_map, forall_exists_index, and_imp, forall_apply_eq_imp_iff₂]
    intro value _ h_nil
    have h_mark : '=' ∈ trim (raw value) := (mem_trim_iff (by decide)).mpr (by simp [raw])
    rw [h_nil] at h_mark
    cases h_mark
  rw [readItems_eq_ok_iff, h_text, rawItems_intercalate h_plain h_some, List.map_map, List.map_map,
    List.forall₂_map_left_iff, List.forall₂_map_right_iff, List.forall₂_same]
  intro value _
  have reads := Reads.intro spelling.equals value.toList
  rw [spelling.key_eq] at reads
  exact reads_trim_iff.mpr reads

theorem applyWith_repeated {σ : Type} (set : σ → Item → Except SettingsError σ) (s : σ)
    {key name : String} (spelling : Spelling key name) {values : List String}
    (h_values : ∀ value ∈ values, ',' ∉ value.toList) :
    applyWith set s (repeated name values) =
      applyItems set s ((values.map trimmed).map (Item.mk key)) := by
  rw [applyWith, readItems_repeated spelling h_values]

/-! ## The field -/

/-- A part of the settings that one key changes, and what a value makes of it. -/
structure Field {σ : Type} (set : σ → Item → Except SettingsError σ) (key : String) (τ : Type) where
  get : σ → τ
  put : σ → τ → σ
  change : τ → String → Option τ
  get_put : ∀ s t, get (put s t) = t
  put_put : ∀ s t u, put (put s t) u = put s u
  put_get : ∀ s, put s (get s) = s
  set_eq_ok : ∀ {s value t}, change (get s) value = some t → set s ⟨key, value⟩ = .ok (put s t)
  set_eq_error : ∀ {s value}, change (get s) value = none →
    set s ⟨key, value⟩ = .error (.invalidValue key value)
  change_trimmed : ∀ t value, change t (trimmed value) = change t value

namespace Field

variable {σ τ : Type} {set : σ → Item → Except SettingsError σ} {key : String}
  (F : Field set key τ)

theorem foldlM_trimmed (t : τ) (values : List String) :
    (values.map trimmed).foldlM F.change t = values.foldlM F.change t := by
  simp only [List.foldlM_map, F.change_trimmed]

variable {s : σ} {t : τ} {values : List String} {name : String}

theorem applyItems_of_some (h : values.foldlM F.change (F.get s) = some t) :
    applyItems set s (values.map (Item.mk key)) = (.ok (), F.put s t) := by
  induction values generalizing s with
  | nil =>
    obtain rfl := Option.some.inj h
    rw [F.put_get]
    rfl
  | cons value values ih =>
    rw [List.foldlM_cons] at h
    obtain ⟨u, h_first, h_rest⟩ := Option.bind_eq_some_iff.mp h
    rw [← F.get_put s u] at h_rest
    rw [List.map_cons, applyItems, F.set_eq_ok h_first, ← F.put_put s u t]
    exact ih h_rest

/-- What the values in front of the one that is refused have made of the field stays. -/
theorem applyItems_of_refused {rest : List String} {bad : String}
    (h_front : values.foldlM F.change (F.get s) = some t) (h_bad : F.change t bad = none) :
    applyItems set s ((values ++ bad :: rest).map (Item.mk key)) =
      (.error (.invalidValue key bad), F.put s t) := by
  rw [← F.get_put s t] at h_bad
  rw [List.map_append, applyItems_append, F.applyItems_of_some h_front, andThen, List.map_cons,
    applyItems, F.set_eq_error h_bad]

theorem applyWith_of_some (spelling : Spelling key name)
    (h_values : ∀ value ∈ values, ',' ∉ value.toList)
    (h : values.foldlM F.change (F.get s) = some t) :
    applyWith set s (repeated name values) = (.ok (), F.put s t) := by
  rw [applyWith_repeated set s spelling h_values]
  exact F.applyItems_of_some (F.foldlM_trimmed _ values ▸ h)

theorem applyWith_of_refused (spelling : Spelling key name) {rest : List String} {bad : String}
    (h_values : ∀ value ∈ values ++ bad :: rest, ',' ∉ value.toList)
    (h_front : values.foldlM F.change (F.get s) = some t) (h_bad : F.change t bad = none) :
    applyWith set s (repeated name (values ++ bad :: rest)) =
      (.error (.invalidValue key (trimmed bad)), F.put s t) := by
  rw [applyWith_repeated set s spelling h_values, List.map_append, List.map_cons]
  rw [← F.foldlM_trimmed] at h_front
  rw [← F.change_trimmed] at h_bad
  exact F.applyItems_of_refused h_front h_bad

end Field

end FlashImage.Settings
