import FlashImage.Camera.CommandTable
import FlashImage.Proofs.Text.Ends
import Mathlib.Data.List.Forall2
import Mathlib.Logic.Relation

/-!
# Spellings of command names

The name of a command may be written in any case, with blanks around it and with spaces for
its underscores.  Two texts are spellings of one name if such changes, made forwards and
backwards, lead from one to the other; and this is so just if they have one normal form.

* `lookup?_upToSpelling`: which texts name a command.
-/

namespace FlashImage.Command

open Text

/-! ## Changes of spelling -/

/-- The same character, or the same letter in the other case. -/
def Recased (c d : Char) : Prop :=
  d = c ∨ d = c.toUpper ∨ d = c.toLower

/-- The same character, or an underscore for a space. -/
def Joined (c d : Char) : Prop :=
  d = c ∨ c = ' ' ∧ d = '_'

instance : DecidableRel Recased :=
  fun _ _ => inferInstanceAs (Decidable (_ ∨ _))

instance : DecidableRel Joined :=
  fun _ _ => inferInstanceAs (Decidable (_ ∨ _))

/-- One change to the spelling of a name: letters in another case, blanks around it, or
underscores for spaces between its other characters. -/
inductive Respelled : List Char → List Char → Prop where
  | recased {s t : List Char} (h : List.Forall₂ Recased s t) : Respelled s t
  | padded {front back : List Char} (h_front : ∀ c ∈ front, isBlank c = true)
      (h_back : ∀ c ∈ back, isBlank c = true) (s : List Char) : Respelled s (front ++ s ++ back)
  | joined {front back s t : List Char} (h_front : ∀ c ∈ front, isBlank c = true)
      (h_back : ∀ c ∈ back, isBlank c = true) (h_trim : trim s = s)
      (h : List.Forall₂ Joined s t) : Respelled (front ++ s ++ back) (front ++ t ++ back)

/-- Two spellings of one name. -/
def SameName : List Char → List Char → Prop :=
  Relation.EqvGen Respelled

/-! ## Normal forms -/

/-- An underscore for a space. -/
def join (c : Char) : Char :=
  if c = ' ' then '_' else c

/-- The character of a normal form for a character of a name. -/
def canonical (c : Char) : Char :=
  (join c).toUpper

theorem joined_join (c : Char) : Joined c (join c) := by
  by_cases h_space : c = ' '
  · exact .inr ⟨h_space, if_pos h_space⟩
  · exact .inl (if_neg h_space)

theorem join_of_isAlpha {c : Char} (h_letter : c.isAlpha = true) : join c = c := by
  refine if_neg ?_
  rintro rfl
  exact absurd h_letter (by decide)

theorem normalize_eq (s : List Char) : normalize s = (trim s).map canonical := by
  rw [normalize, upper, List.map_map]
  rfl

theorem map_eq_of_forall₂ {R : Char → Char → Prop} {f : Char → Char} {s t : List Char}
    (h : List.Forall₂ R s t) (h_eq : ∀ c d, R c d → f c = f d) : s.map f = t.map f := by
  rw [← List.forall₂_eq_eq_eq, List.forall₂_map_left_iff, List.forall₂_map_right_iff]
  exact h.imp h_eq

theorem isAlpha_canonical_of_isBlank {c : Char} (h_blank : isBlank c = true) :
    (canonical c).isAlpha = false := by
  rw [canonical, Char.isAlpha_toUpper_eq_isAlpha, join]
  split
  · decide
  · exact isAlpha_of_isBlank h_blank

theorem canonical_toUpper (c : Char) : canonical c.toUpper = canonical c := by
  by_cases h_lower : c.isLower = true
  · have h_letter : c.isAlpha = true := by simp [Char.isAlpha, h_lower]
    have h_upper : c.toUpper.isAlpha = true := by rwa [Char.isAlpha_toUpper_eq_isAlpha]
    rw [canonical, join_of_isAlpha h_upper, Char.toUpper_toUpper_eq_toUpper, canonical,
      join_of_isAlpha h_letter]
  · rw [Char.toUpper_eq_of_not_isLower h_lower]

theorem Recased.toUpper_eq {c d : Char} (h : Recased c d) : c.toUpper = d.toUpper := by
  rcases h with rfl | rfl | rfl
  · rfl
  · rw [Char.toUpper_toUpper_eq_toUpper]
  · rw [Char.toUpper_toLower_eq_toUpper]

theorem Recased.canonical_eq {c d : Char} (h : Recased c d) : canonical c = canonical d := by
  rw [← canonical_toUpper c, h.toUpper_eq, canonical_toUpper]

theorem Joined.canonical_eq {c d : Char} (h : Joined c d) : canonical c = canonical d := by
  rcases h with rfl | ⟨rfl, rfl⟩
  · rfl
  · decide

theorem normalize_upper (s : List Char) : normalize (upper s) = normalize s := by
  rw [normalize_eq, trim_upper, upper, List.map_map, normalize_eq]
  exact congrArg (List.map · (trim s)) (funext canonical_toUpper)

/-- No space at the ends of a trimmed text is replaced. -/
theorem trim_of_joined {s t : List Char} (h_trim : trim s = s) (h : List.Forall₂ Joined s t) :
    trim t = t := by
  have on_head : ∀ {s t : List Char}, List.Forall₂ Joined s t →
      (∀ c ∈ s.head?, isBlank c = false) → ∀ d ∈ t.head?, isBlank d = false := by
    intro s t h h_head d h_mem
    cases h with
    | nil => cases h_mem
    | @cons c d' s t h_first h_rest =>
      obtain rfl : d' = d := Option.some.inj h_mem
      have h_blank := h_head c rfl
      rcases h_first with rfl | ⟨rfl, -⟩
      · exact h_blank
      · exact absurd h_blank (by decide)
  rw [trim_eq_self_iff] at h_trim ⊢
  refine ⟨on_head h h_trim.1, ?_⟩
  rw [← List.head?_reverse]
  exact on_head (List.forall₂_reverse_iff.mpr h) (by rw [List.head?_reverse]; exact h_trim.2)

/-! ## Spellings have one normal form -/

variable {s t : List Char}

theorem Respelled.normalize_eq (h : Respelled s t) : normalize s = normalize t := by
  cases h with
  | recased h =>
    have h_upper : upper s = upper t := map_eq_of_forall₂ h fun _ _ => Recased.toUpper_eq
    rw [← normalize_upper s, h_upper, normalize_upper]
  | padded h_front h_back =>
    rw [Command.normalize_eq, Command.normalize_eq, trim_padded h_front h_back]
  | joined h_front h_back h_trim h =>
    rw [Command.normalize_eq, trim_padded h_front h_back, h_trim, Command.normalize_eq,
      trim_padded h_front h_back, trim_of_joined h_trim h]
    exact map_eq_of_forall₂ h fun _ _ => Joined.canonical_eq

theorem SameName.normalize_eq (h : SameName s t) : normalize s = normalize t := by
  induction h with
  | rel _ _ step => exact step.normalize_eq
  | refl => rfl
  | symm _ _ _ ih => exact ih.symm
  | trans _ _ _ _ _ ih₁ ih₂ => exact ih₁.trans ih₂

/-- The normal form is a spelling of the name itself. -/
theorem sameName_normalize (s : List Char) : SameName s (normalize s) := by
  -- each step of the normal form is a change of spelling: trimming is padding backwards
  obtain ⟨front, back, h_front, h_back, h_s⟩ := exists_padded s
  have padded := Respelled.padded h_front h_back (trim s)
  rw [← h_s] at padded
  have h_join : List.Forall₂ Joined (trim s) ((trim s).map join) := by
    rw [List.forall₂_map_right_iff, List.forall₂_same]
    exact fun c _ => joined_join c
  have joined := @Respelled.joined [] [] _ _ (by simp) (by simp) (trim_trim s) h_join
  rw [List.nil_append, List.append_nil, List.nil_append, List.append_nil] at joined
  have h_upper : List.Forall₂ Recased ((trim s).map join) (upper ((trim s).map join)) := by
    rw [upper, List.forall₂_map_right_iff, List.forall₂_same]
    exact fun c _ => .inr (.inl rfl)
  have recased : Respelled ((trim s).map join) (normalize s) := .recased h_upper
  exact .trans _ _ _ (.symm _ _ (.rel _ _ padded))
    (.trans _ _ _ (.rel _ _ joined) (.rel _ _ recased))

theorem normalize_eq_iff : normalize s = normalize t ↔ SameName s t := by
  refine ⟨fun h_eq => ?_, SameName.normalize_eq⟩
  have h_s := sameName_normalize s
  rw [h_eq] at h_s
  exact .trans _ _ _ h_s (.symm _ _ (sameName_normalize t))

/-- A space at the end of a name is trimmed, and not replaced. -/
example : normalize "SET_FPS ".toList ≠ normalize "SET_FPS_".toList := by
  decide

/-! ## The mark -/

/-- The mark in any case, and with spaces for underscores. -/
def IsMark (m : List Char) : Prop :=
  ∃ written, List.Forall₂ Recased mark written ∧ List.Forall₂ Joined m written

/-- The mark without the underscore at its end. -/
def bareMark : List Char :=
  "CAM_CFG_CMND".toList

variable {m : List Char}

theorem IsMark.map_canonical (h : IsMark m) : m.map canonical = mark := by
  obtain ⟨written, h_case, h_join⟩ := h
  calc m.map canonical
    _ = written.map canonical := map_eq_of_forall₂ h_join fun _ _ => Joined.canonical_eq
    _ = mark.map canonical := (map_eq_of_forall₂ h_case fun _ _ => Recased.canonical_eq).symm
    _ = mark := by decide

/-- What becomes a letter is no blank. -/
theorem not_isBlank_of_canonical {c? : Option Char} {letter : Char}
    (h_letter : letter.isAlpha = true) (h_map : c?.map canonical = some letter) :
    ∀ c ∈ c?, isBlank c = false := by
  rintro c rfl
  rw [Option.map_some, Option.some.injEq] at h_map
  refine Bool.eq_false_iff.mpr fun h_blank => ?_
  have h_other := isAlpha_canonical_of_isBlank h_blank
  rw [h_map, h_letter] at h_other
  cases h_other

theorem trim_of_bareMark {front : List Char} (h_front : front.map canonical = bareMark) :
    trim front = front := by
  have h_head : front.head?.map canonical = some 'C' := by
    rw [← List.head?_map, h_front]
    rfl
  have h_last : front.getLast?.map canonical = some 'D' := by
    rw [← List.getLast?_map, h_front]
    rfl
  exact trim_eq_self_iff.mpr ⟨not_isBlank_of_canonical (by decide) h_head,
    not_isBlank_of_canonical (by decide) h_last⟩

/-- The last character of a mark may be a blank; what stands in front of it has none at its
ends. -/
theorem IsMark.exists_front (h : IsMark m) :
    ∃ front c, m = front ++ [c] ∧ front.map canonical = bareMark ∧ canonical c = '_' ∧
      front ≠ [] ∧ trim front = front := by
  have h_parts : m.map canonical = bareMark ++ ['_'] := h.map_canonical
  obtain ⟨front, last, rfl, h_front, h_last⟩ := List.map_eq_append_iff.mp h_parts
  obtain ⟨c, rfl, h_c⟩ := List.map_eq_singleton_iff.mp h_last
  have h_some : front ≠ [] := by
    rintro rfl
    cases h_front
  exact ⟨front, c, rfl, h_front, h_c, h_some, trim_of_bareMark h_front⟩

theorem normalize_mark_append (h_mark : IsMark m) (h_some : trimEnd s ≠ []) :
    normalize (m ++ s) = mark ++ (trimEnd s).map canonical := by
  obtain ⟨front, c, rfl, h_front, h_c, front_some, front_trim⟩ := h_mark.exists_front
  rw [normalize_eq, List.append_assoc, List.singleton_append, trim_append front_some front_trim,
    trimEnd_cons h_some, List.map_append, h_front, List.map_cons, h_c]
  rfl

/-- A mark with nothing behind it loses its end if that is a space. -/
theorem normalize_mark (h_mark : IsMark m) : normalize m = mark ∨ normalize m = bareMark := by
  obtain ⟨front, c, rfl, h_front, h_c, front_some, front_trim⟩ := h_mark.exists_front
  rw [normalize_eq, trim_append front_some front_trim, List.map_append, h_front]
  by_cases h_blank : isBlank c = true
  · exact .inr (by simp [trimEnd, h_blank])
  · refine .inl ?_
    have h_end : trimEnd [c] = [c] := by simp [trimEnd, h_blank]
    rw [h_end, List.map_singleton, h_c]
    rfl

theorem dropMark_mark_append (s : List Char) : dropMark (mark ++ s) = s := by
  rw [dropMark, List.isPrefixOf?_eq_some_iff_append_eq.mpr rfl, Option.getD_some]

theorem dropMark_eq_self (h_plain : ¬ mark <+: s) : dropMark s = s := by
  have h_none : mark.isPrefixOf? s = none :=
    Option.eq_none_iff_forall_ne_some.mpr fun rest h_rest =>
      h_plain ⟨rest, List.isPrefixOf?_eq_some_iff_append_eq.mp h_rest⟩
  rw [dropMark, h_none, Option.getD_none]

theorem dropMark_eq_iff {name : List Char} (h_plain : ¬ mark <+: name) :
    dropMark s = name ↔ s = name ∨ s = mark ++ name := by
  constructor
  · rintro rfl
    by_cases h_marked : mark <+: s
    · obtain ⟨rest, rfl⟩ := h_marked
      exact .inr (by rw [dropMark_mark_append])
    · exact .inl (dropMark_eq_self h_marked).symm
  · rintro (rfl | rfl)
    · exact dropMark_eq_self h_plain
    · exact dropMark_mark_append name

/-! ## The table

The names of the table are distinct normal forms, and none of them begins with a mark. -/

/-- The identifier of the command with just this name. -/
def named? (name : List Char) : Option UInt32 :=
  (table.find? (·.1.toList == name)).map (·.2)

theorem lookup?_eq (name : String) : lookup? name = named? (dropMark (normalize name.toList)) :=
  rfl

theorem nodup_names : (table.map (·.1)).Nodup := by
  decide

theorem normalize_name : ∀ row ∈ table, normalize row.1.toList = row.1.toList ∧
    normalize (mark ++ row.1.toList) = mark ++ row.1.toList := by
  decide

theorem name_ne_nil : ∀ row ∈ table, row.1.toList ≠ [] := by
  decide

theorem bareMark_not_prefix : ∀ row ∈ table, ¬ bareMark <+: row.1.toList := by
  decide

theorem mark_not_prefix {row : String × UInt32} (h_row : row ∈ table) :
    ¬ mark <+: row.1.toList :=
  fun h_marked => bareMark_not_prefix row h_row (List.IsPrefix.trans ⟨['_'], rfl⟩ h_marked)

theorem named?_eq_some_iff {name : List Char} {v : UInt32} :
    named? name = some v ↔ ∃ text, (text, v) ∈ table ∧ text.toList = name := by
  rw [named?, Option.map_eq_some_iff]
  constructor
  · rintro ⟨row, h_find, rfl⟩
    exact ⟨row.1, List.mem_of_find?_eq_some h_find, by simpa using List.find?_some h_find⟩
  · rintro ⟨text, h_mem, rfl⟩
    have h_found : (table.find? (·.1.toList == text.toList)).isSome = true :=
      List.find?_isSome.mpr ⟨(text, v), h_mem, beq_self_eq_true text.toList⟩
    obtain ⟨row, h_find⟩ := Option.isSome_iff_exists.mp h_found
    have h_text : row.1 = text := String.toList_injective (by simpa using List.find?_some h_find)
    have h_row :=
      List.inj_on_of_nodup_map nodup_names (List.mem_of_find?_eq_some h_find) h_mem h_text
    exact ⟨row, h_find, by rw [h_row]⟩

theorem named?_eq_none {name : List Char} (h : ∀ row ∈ table, row.1.toList ≠ name) :
    named? name = none := by
  rw [named?, Option.map_eq_none_iff, List.find?_eq_none]
  simpa using h

theorem named?_nil : named? [] = none :=
  named?_eq_none name_ne_nil

theorem named?_of_bareMark (h_marked : bareMark <+: s) : named? s = none :=
  named?_eq_none fun row h_row h_name => bareMark_not_prefix row h_row (h_name ▸ h_marked)

/-! ## Names with and without the mark -/

theorem lookup?_congr {s t : String} (h_same : SameName s.toList t.toList) :
    lookup? s = lookup? t := by
  rw [lookup?_eq, h_same.normalize_eq, lookup?_eq]

theorem lookup?_eq_some_iff {s : String} {v : UInt32} :
    lookup? s = some v ↔ ∃ name, (name, v) ∈ table ∧
      (SameName s.toList name.toList ∨ SameName s.toList (mark ++ name.toList)) := by
  rw [lookup?_eq, named?_eq_some_iff]
  refine exists_congr fun name => and_congr_right fun h_mem => ?_
  have h_plain : ¬ mark <+: name.toList := mark_not_prefix h_mem
  obtain ⟨h_normal, h_marked⟩ := normalize_name (name, v) h_mem
  dsimp only at h_normal h_marked
  rw [eq_comm, dropMark_eq_iff h_plain, ← normalize_eq_iff, h_normal, ← normalize_eq_iff, h_marked]

theorem lookup?_mark_append {m s : String} (h_mark : IsMark m.toList)
    (h_trim : trim s.toList = s.toList) (h_plain : ¬ mark <+: normalize s.toList) :
    lookup? (m ++ s) = lookup? s := by
  rw [lookup?_eq, lookup?_eq, String.toList_append, dropMark_eq_self h_plain]
  by_cases h_nil : s.toList = []
  · have h_none : named? (dropMark (normalize m.toList)) = none := by
      rcases normalize_mark h_mark with h_eq | h_eq
      · rw [h_eq, ← List.append_nil mark, dropMark_mark_append, named?_nil]
      · rw [h_eq, dropMark_eq_self (by decide)]
        exact named?_of_bareMark (List.prefix_refl bareMark)
    rw [h_nil, List.append_nil, h_none]
    exact named?_nil.symm
  · have h_end : trimEnd s.toList = s.toList :=
      trimEnd_eq_self_iff.mpr (trim_eq_self_iff.mp h_trim).2
    rw [normalize_mark_append h_mark (by rwa [h_end]), h_end, dropMark_mark_append, normalize_eq,
      h_trim]

theorem lookup?_mark_mark {m m' : String} (h_mark : IsMark m.toList) (h_mark' : IsMark m'.toList)
    (s : String) : lookup? (m ++ m' ++ s) = none := by
  obtain ⟨front, c, h_eq, h_front, -, front_some, front_trim⟩ := h_mark'.exists_front
  -- whatever is trimmed at the end, the second mark stays but for its last character
  have h_end : trimEnd (m'.toList ++ s.toList) = front ++ trimEnd (c :: s.toList) := by
    rw [h_eq, List.append_assoc, List.singleton_append,
      trimEnd_append (trimEnd_eq_self_iff.mpr (trim_eq_self_iff.mp front_trim).2)]
  have h_some : trimEnd (m'.toList ++ s.toList) ≠ [] := by
    rw [h_end]
    exact List.append_ne_nil_of_left_ne_nil front_some _
  rw [lookup?_eq, String.toList_append, String.toList_append, List.append_assoc,
    normalize_mark_append h_mark h_some, dropMark_mark_append, h_end, List.map_append, h_front]
  exact named?_of_bareMark (List.prefix_append _ _)

/-- What is found depends on the name alone and not on its spelling: a command is found by the
spellings of its name in the table, bare or behind one mark.  So a mark in front of a name
without one makes no difference, and behind two marks nothing is found. -/
theorem lookup?_upToSpelling :
    (∀ s t : String, SameName s.toList t.toList → lookup? s = lookup? t) ∧
    (∀ (s : String) (v : UInt32), lookup? s = some v ↔ ∃ name, (name, v) ∈ table ∧
      (SameName s.toList name.toList ∨ SameName s.toList (mark ++ name.toList))) ∧
    (∀ m s : String, IsMark m.toList → trim s.toList = s.toList →
      ¬ mark <+: normalize s.toList → lookup? (m ++ s) = lookup? s) ∧
    ∀ m m' s : String, IsMark m.toList → IsMark m'.toList → lookup? (m ++ m' ++ s) = none :=
  ⟨fun _ _ => lookup?_congr, fun _ _ => lookup?_eq_some_iff, fun _ _ => lookup?_mark_append,
    fun _ _ s h_mark h_mark' => lookup?_mark_mark h_mark h_mark' s⟩

/-- Blanks of several kinds around a name in mixed case, and marks with spaces. -/
theorem lookup?_upToSpelling_mixed :
    SameName "\t white_Balance\u3000".toList "WHITE_BALANCE".toList ∧
      IsMark "Cam cfg_Cmnd ".toList ∧ IsMark "CAM_CFG_CMND_".toList ∧
      ¬ mark <+: normalize "set gain".toList ∧
      lookup? "\t white_Balance\u3000" = lookup? "WHITE_BALANCE" ∧
      lookup? "set gain" = some 0x1016 ∧
      lookup? ("Cam cfg_Cmnd " ++ "set gain") = lookup? "set gain" ∧
      lookup? ("Cam cfg_Cmnd " ++ "CAM_CFG_CMND_" ++ "set gain") = none := by
  obtain ⟨respelled, found, marked, doubled⟩ := lookup?_upToSpelling
  have same : SameName "\t white_Balance\u3000".toList "WHITE_BALANCE".toList :=
    normalize_eq_iff.mp (by decide)
  have spaced : IsMark "Cam cfg_Cmnd ".toList := ⟨"Cam_cfg_Cmnd_".toList, by decide, by decide⟩
  have plain : IsMark "CAM_CFG_CMND_".toList := ⟨mark, by decide, by decide⟩
  have bare : ¬ mark <+: normalize "set gain".toList := by decide
  exact ⟨same, spaced, plain, bare, respelled _ _ same,
    (found _ _).mpr ⟨"SET_GAIN", by decide, .inl (normalize_eq_iff.mp (by decide))⟩,
    marked _ _ spaced (by decide) bare, doubled _ _ "set gain" spaced plain⟩

end FlashImage.Command
