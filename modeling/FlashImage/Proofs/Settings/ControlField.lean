import FlashImage.Proofs.Literal.Characters
import FlashImage.Proofs.Settings.Repeated
import FlashImage.Settings.Root

/-!
# Control fields

A value of the control field is an integer, which replaces the whole word, or one of four
flags, each of which sets or clears one bit.  So after any number of values every bit is as
the last integer has it, unless a flag behind it is about this bit: then the last of them
tells.

* `controlField_settled`: the word that several values leave.
-/

namespace FlashImage.Settings

open Text

/-! ## Values -/

/-- What a flag is about. -/
inductive Family where
  | config
  | crc
  deriving DecidableEq, Repr

def Family.index : Family → Nat
  | config => 0
  | crc => 1

def Family.mask : Family → UInt32
  | config => configValidBit
  | crc => crcValidBit

/-- A flag clears its bit if it says that something is valid, and sets it otherwise. -/
structure Flag where
  family : Family
  isSet : Bool
  deriving DecidableEq, Repr

namespace Flag

def name : Flag → List Char
  | ⟨.config, false⟩ => "config-valid".toList
  | ⟨.config, true⟩ => "config-not-valid".toList
  | ⟨.crc, false⟩ => "crc-valid".toList
  | ⟨.crc, true⟩ => "crc-not-valid".toList

def apply (f : Flag) (c : UInt32) : UInt32 :=
  if f.isSet then c ||| f.family.mask else c &&& ~~~f.family.mask

end Flag

/-- What a value of the control field says. -/
inductive ControlValue where
  | integer (w : UInt32)
  | flag (f : Flag)
  deriving DecidableEq, Repr

def ControlValue.apply : ControlValue → UInt32 → UInt32
  | integer w, _ => w
  | flag f, c => f.apply c

/-- The texts of the values: integer literals, and the names of the flags in any case. -/
inductive Means : String → ControlValue → Prop where
  | integer {value : String} {w : UInt32} (literal : Literal.word? value = some w) :
      Means value (.integer w)
  | flag {value : String} {f : Flag} (named : lower (trim value.toList) = f.name) :
      Means value (.flag f)

/-- Only letters are changed with their case. -/
theorem mem_lower_iff {c : Char} (h : c.toNat < 0x41) {s : List Char} : c ∈ lower s ↔ c ∈ s := by
  rw [lower, List.mem_map]
  constructor
  · rintro ⟨d, h_mem, h_lower⟩
    have h_eq : d.toNat = c.toNat := by
      have h_value := toNat_toLower d
      rw [h_lower] at h_value
      split_ifs at h_value <;> omega
    rwa [← Char.toNat_inj.mp h_eq]
  · intro h_mem
    refine ⟨c, h_mem, Char.toNat_inj.mp ?_⟩
    rw [toNat_toLower, if_neg (by omega)]

theorem dash_mem_name (f : Flag) : '-' ∈ f.name := by
  match f with
  | ⟨.config, false⟩ | ⟨.config, true⟩ | ⟨.crc, false⟩ | ⟨.crc, true⟩ => decide

theorem comma_notMem_name (f : Flag) : ',' ∉ f.name := by
  match f with
  | ⟨.config, false⟩ | ⟨.config, true⟩ | ⟨.crc, false⟩ | ⟨.crc, true⟩ => decide

theorem mem_name_iff {value : String} {f : Flag} (named : lower (trim value.toList) = f.name)
    {c : Char} (h_blank : isBlank c = false) (h : c.toNat < 0x41) :
    c ∈ value.toList ↔ c ∈ f.name := by
  rw [← named, mem_lower_iff h, mem_trim_iff h_blank]

theorem word?_of_named {value : String} {f : Flag} (named : lower (trim value.toList) = f.name) :
    Literal.word? value = none := by
  have h_dash : '-' ∈ value.toList :=
    (mem_name_iff named (by decide) (by decide)).mpr (dash_mem_name f)
  exact Literal.word?_eq_none_of_mem h_dash (by decide) (by decide)

theorem Means.comma_notMem {value : String} {a : ControlValue} (meaning : Means value a) :
    ',' ∉ value.toList := by
  intro h_mem
  cases meaning with
  | integer literal =>
    rw [Literal.word?_eq_none_of_mem h_mem (by decide) (by decide)] at literal
    cases literal
  | @flag f named =>
    exact comma_notMem_name f ((mem_name_iff named (by decide) (by decide)).mp h_mem)

theorem applyControlFlag?_eq_some_iff {c w : UInt32} {value : String} :
    applyControlFlag? c value = some w ↔ ∃ a, Means value a ∧ a.apply c = w := by
  -- unfolded without its equation, whose proof would evaluate the reading of literals
  delta applyControlFlag?
  constructor
  · intro h
    split at h
    next v literal => exact ⟨.integer v, .integer literal, Option.some.inj h⟩
    next =>
      have h_name : ∀ {name : String}, String.ofList (lower (trim value.toList)) = name →
          lower (trim value.toList) = name.toList := by
        rintro _ rfl
        rw [String.toList_ofList]
      split at h
      next h_eq => exact ⟨.flag ⟨.config, false⟩, .flag (h_name h_eq), Option.some.inj h⟩
      next h_eq => exact ⟨.flag ⟨.config, true⟩, .flag (h_name h_eq), Option.some.inj h⟩
      next h_eq => exact ⟨.flag ⟨.crc, false⟩, .flag (h_name h_eq), Option.some.inj h⟩
      next h_eq => exact ⟨.flag ⟨.crc, true⟩, .flag (h_name h_eq), Option.some.inj h⟩
      next => cases h
  · rintro ⟨a, meaning, rfl⟩
    cases meaning with
    | integer literal => simp only [literal, ControlValue.apply]
    | @flag f named =>
      simp only [word?_of_named named, named]
      match f with
      | ⟨.config, false⟩ | ⟨.config, true⟩ | ⟨.crc, false⟩ | ⟨.crc, true⟩ => rfl

/-! ## Bits -/

theorem Family.toBitVec_mask (family : Family) :
    family.mask.toBitVec = BitVec.twoPow 32 family.index := by
  cases family <;> rfl

theorem Family.index_lt (family : Family) : family.index < 2 := by
  cases family <;> decide

theorem Family.eq_of_index_eq {family other : Family} (h : family.index = other.index) :
    family = other := by
  cases family <;> cases other <;> simp_all [Family.index]

/-- A flag changes its own bit and no other. -/
theorem Flag.testBit_apply (f : Flag) (c : UInt32) (k : Nat) :
    (f.apply c).toNat.testBit k = if k = f.family.index then f.isSet else c.toNat.testBit k := by
  have h_bit : ∀ w : UInt32, w.toNat.testBit k = w.toBitVec.getLsbD k := fun _ => rfl
  have h_mask : f.family.mask.toBitVec.getLsbD k = decide (k = f.family.index) := by
    have h_index := f.family.index_lt
    rw [Family.toBitVec_mask, BitVec.getLsbD_twoPow, decide_eq_true (by omega), Bool.true_and,
      decide_eq_decide]
    exact eq_comm
  -- no bit of a word stands beyond the last one, which matters where a mask is complemented
  have h_width : c.toBitVec.getLsbD k = true → k < 32 := BitVec.lt_of_getLsbD
  rw [h_bit, h_bit, apply]
  by_cases h_set : f.isSet = true
  · rw [if_pos h_set, UInt32.toBitVec_or, BitVec.getLsbD_or, h_mask]
    by_cases h_own : k = f.family.index <;> simp [h_own, h_set]
  · rw [if_neg h_set, UInt32.toBitVec_and, UInt32.toBitVec_not, BitVec.getLsbD_and,
      BitVec.getLsbD_not, h_mask]
    by_cases h_own : k = f.family.index
    · simp [h_own, h_set]
    · simpa [h_own] using h_width

theorem eq_of_testBit {c w : UInt32} (h : ∀ k, c.toNat.testBit k = w.toNat.testBit k) : c = w :=
  UInt32.toNat.inj (Nat.eq_of_testBit_eq h)

theorem Flag.apply_comm {f g : Flag} (h : f.family ≠ g.family) (c : UInt32) :
    f.apply (g.apply c) = g.apply (f.apply c) := by
  have h_index : f.family.index ≠ g.family.index := fun h_eq => h (Family.eq_of_index_eq h_eq)
  refine eq_of_testBit fun k => ?_
  simp only [Flag.testBit_apply]
  by_cases h_f : k = f.family.index
  · rw [if_pos h_f, if_neg fun h_g => h_index (h_f.symm.trans h_g), if_pos h_f]
  · rw [if_neg h_f, if_neg h_f]

theorem Flag.apply_apply (f : Flag) (c : UInt32) : f.apply (f.apply c) = f.apply c := by
  refine eq_of_testBit fun k => ?_
  simp only [Flag.testBit_apply]
  split <;> rfl

/-! ## Sequences of values -/

/-- The word of the last integer, or the one at the beginning if there is none, and the flags
behind it. -/
inductive LastInteger (c : UInt32) : List ControlValue → UInt32 → List Flag → Prop where
  | initial (flags : List Flag) : LastInteger c (flags.map .flag) c flags
  | replaced (earlier : List ControlValue) (r : UInt32) (flags : List Flag) :
      LastInteger c (earlier ++ .integer r :: flags.map .flag) r flags

/-- What the last of the flags about a bit tells of it. -/
def lastTold (family : Family) (flags : List Flag) : Option Bool :=
  ((flags.filter (·.family = family)).map Flag.isSet).getLast?

/-- The word with the two lowest bits as the flags tell, and the others as they were. -/
structure Flagged (r : UInt32) (flags : List Flag) (c : UInt32) : Prop where
  told : ∀ family : Family, c.toNat.testBit family.index =
    (lastTold family flags).getD (r.toNat.testBit family.index)
  others : ∀ k, 2 ≤ k → c.toNat.testBit k = r.toNat.testBit k

theorem exists_lastInteger (c : UInt32) (as : List ControlValue) :
    ∃ r flags, LastInteger c as r flags := by
  induction as using List.reverseRecOn with
  | nil => exact ⟨c, [], .initial []⟩
  | append_singleton as a ih =>
    cases a with
    | integer r => exact ⟨r, [], .replaced as r []⟩
    | flag f =>
      obtain ⟨r, flags, last⟩ := ih
      cases last with
      | initial =>
        refine ⟨c, flags ++ [f], ?_⟩
        have h_all : flags.map ControlValue.flag ++ [.flag f] = (flags ++ [f]).map .flag := by simp
        exact h_all ▸ .initial (flags ++ [f])
      | replaced earlier =>
        refine ⟨r, flags ++ [f], ?_⟩
        have h_all : earlier ++ ControlValue.integer r :: flags.map .flag ++ [.flag f] =
            earlier ++ .integer r :: (flags ++ [f]).map .flag := by simp
        exact h_all ▸ .replaced earlier r (flags ++ [f])

theorem lastTold_concat (family : Family) (flags : List Flag) (f : Flag) :
    lastTold family (flags ++ [f]) =
      if f.family = family then some f.isSet else lastTold family flags := by
  rw [lastTold, List.filter_append, List.map_append]
  split
  next h => simp [h]
  next h => simp [h, lastTold]

theorem flagged_foldl (r : UInt32) (flags : List Flag) :
    Flagged r flags (flags.foldl (fun c f => f.apply c) r) := by
  induction flags using List.reverseRecOn with
  | nil => exact ⟨fun _ => rfl, fun _ _ => rfl⟩
  | append_singleton flags f ih =>
    rw [List.foldl_concat]
    refine ⟨fun family => ?_, fun k h_le => ?_⟩
    · rw [Flag.testBit_apply, lastTold_concat, ih.told]
      by_cases h : f.family = family
      · rw [if_pos (congrArg Family.index h.symm), if_pos h, Option.getD_some]
      · rw [if_neg fun h_index => h (Family.eq_of_index_eq h_index).symm, if_neg h]
    · have h_index := f.family.index_lt
      rw [Flag.testBit_apply, if_neg (by omega), ih.others k h_le]

theorem Flagged.unique {r c w : UInt32} {flags : List Flag} (h : Flagged r flags c)
    (h' : Flagged r flags w) : c = w := by
  refine eq_of_testBit fun k => ?_
  match k with
  | 0 => exact (h.told .config).trans (h'.told .config).symm
  | 1 => exact (h.told .crc).trans (h'.told .crc).symm
  | k + 2 => exact (h.others _ (by omega)).trans (h'.others _ (by omega)).symm

theorem foldl_apply_flags (c : UInt32) (flags : List Flag) :
    (flags.map ControlValue.flag).foldl (fun c a => a.apply c) c =
      flags.foldl (fun c f => f.apply c) c := by
  rw [List.foldl_map]
  rfl

theorem LastInteger.foldl_eq {c r : UInt32} {as : List ControlValue} {flags : List Flag}
    (last : LastInteger c as r flags) :
    as.foldl (fun c a => a.apply c) c = flags.foldl (fun c f => f.apply c) r := by
  cases last with
  | initial => exact foldl_apply_flags c flags
  | replaced earlier =>
    rw [List.foldl_append, List.foldl_cons]
    exact foldl_apply_flags r flags

/-! ## The settings -/

theorem applyControlFlag?_trimmed (c : UInt32) (value : String) :
    applyControlFlag? c (trimmed value) = applyControlFlag? c value := by
  delta applyControlFlag?
  rw [trimmed, Literal.word?_trim, String.toList_ofList, trim_trim]

def controlField : Field setRootItem "controlfield" UInt32 where
  get := LayoutSettings.controlField
  put s c := { s with controlField := c }
  change := applyControlFlag?
  get_put _ _ := rfl
  put_put _ _ _ := rfl
  put_get _ := rfl
  set_eq_ok h := by simp [setRootItem, h]
  set_eq_error h := by simp [setRootItem, h]
  change_trimmed := applyControlFlag?_trimmed

theorem foldlM_applyControlFlag? (c : UInt32) {values : List String} {as : List ControlValue}
    (meanings : List.Forall₂ Means values as) :
    values.foldlM applyControlFlag? c = some (as.foldl (fun c a => a.apply c) c) := by
  induction meanings generalizing c with
  | nil => rfl
  | cons meaning _ ih =>
    rw [List.foldlM_cons, applyControlFlag?_eq_some_iff.mpr ⟨_, meaning, rfl⟩]
    exact ih _

/-- The values leave this word, and nothing else is changed, in whichever way they are applied:
one by one to the field, each by a settings string of its own, or all by one string. -/
structure ComesTo (s : LayoutSettings) (values : List String) (c : UInt32) : Prop where
  oneByOne : values.foldlM applyControlFlag? s.controlField = some c
  severally :
    values.foldl (fun done value => andThen done (applyRoot · (repeated "ControlField" [value])))
      (.ok (), s) = (.ok (), { s with controlField := c })
  together : applyRoot s (repeated "ControlField" values) = (.ok (), { s with controlField := c })

theorem spelling_controlField : Spelling "controlfield" "ControlField" :=
  ⟨by decide, by decide, by decide⟩

theorem applyRoot_repeated (s : LayoutSettings) {values : List String} {as : List ControlValue}
    (meanings : List.Forall₂ Means values as) :
    applyRoot s (repeated "ControlField" values) =
      (.ok (), { s with controlField := as.foldl (fun c a => a.apply c) s.controlField }) := by
  refine controlField.applyWith_of_some spelling_controlField (fun value h_mem => ?_)
    (foldlM_applyControlFlag? s.controlField meanings)
  obtain ⟨a, -, meaning⟩ := exists_of_mem_forall₂ meanings h_mem
  exact meaning.comma_notMem

theorem comesTo_foldl (s : LayoutSettings) {values : List String} {as : List ControlValue}
    (meanings : List.Forall₂ Means values as) :
    ComesTo s values (as.foldl (fun c a => a.apply c) s.controlField) where
  oneByOne := foldlM_applyControlFlag? s.controlField meanings
  severally := by
    induction meanings generalizing s with
    | nil => rfl
    | cons meaning _ ih =>
      rw [List.foldl_cons, andThen, applyRoot_repeated s (.cons meaning .nil)]
      exact ih _
  together := applyRoot_repeated s meanings

/-- Any number of values leave one word, in whichever way they are applied: that of the last
integer, with the two lowest bits as the last flag about each tells that stands behind it.  So
flags about different bits may change places, and a flag may be repeated. -/
theorem controlField_settled :
    (∀ c value, applyControlFlag? c value ≠ none ↔ ∃ a, Means value a) ∧
    (∀ (s : LayoutSettings) (values : List String) (as : List ControlValue),
      List.Forall₂ Means values as → ∃ r flags c, LastInteger s.controlField as r flags ∧
        (∀ w, Flagged r flags w ↔ w = c) ∧ ComesTo s values c) ∧
    (∀ (c : UInt32) (before after : List String) (v w : String) (f g : Flag),
      Means v (.flag f) → Means w (.flag g) → f.family ≠ g.family →
        (before ++ v :: w :: after).foldlM applyControlFlag? c =
          (before ++ w :: v :: after).foldlM applyControlFlag? c) ∧
    ∀ (c : UInt32) (before after : List String) (v w : String) (f : Flag),
      Means v (.flag f) → Means w (.flag f) →
        (before ++ v :: w :: after).foldlM applyControlFlag? c =
          (before ++ v :: after).foldlM applyControlFlag? c := by
  have h_flag : ∀ {v : String} {f : Flag}, Means v (.flag f) →
      ∀ c, applyControlFlag? c v = some (f.apply c) :=
    fun meaning c => applyControlFlag?_eq_some_iff.mpr ⟨_, meaning, rfl⟩
  refine ⟨fun c value => ?_, fun s values as meanings => ?_, ?_, ?_⟩
  · rw [Option.ne_none_iff_exists']
    simp only [applyControlFlag?_eq_some_iff]
    exact ⟨fun ⟨_, a, meaning, _⟩ => ⟨a, meaning⟩, fun ⟨a, meaning⟩ => ⟨_, a, meaning, rfl⟩⟩
  · obtain ⟨r, flags, last⟩ := exists_lastInteger s.controlField as
    have comesTo := comesTo_foldl s meanings
    rw [last.foldl_eq] at comesTo
    refine ⟨r, flags, _, last, fun w => ⟨fun flagged => flagged.unique (flagged_foldl r flags), ?_⟩,
      comesTo⟩
    rintro rfl
    exact flagged_foldl r flags
  · intro c before after v w f g meaning_v meaning_w h_family
    simp only [List.foldlM_append, List.foldlM_cons, h_flag meaning_v, h_flag meaning_w,
      Option.bind_eq_bind, Option.bind_some, Flag.apply_comm h_family]
  · intro c before after v w f meaning_v meaning_w
    simp only [List.foldlM_append, List.foldlM_cons, h_flag meaning_v, h_flag meaning_w,
      Option.bind_eq_bind, Option.bind_some, Flag.apply_apply]

/-- Flags about both bits on both sides of an integer, in mixed case and with blanks. -/
theorem controlField_settled_mixed :
    let values := ["crc-not-valid", " 0x1_2 ", "Config-Not-Valid", "CRC-VALID", "config-not-valid"]
    let as : List ControlValue :=
      [.flag ⟨.crc, true⟩, .integer 0x12, .flag ⟨.config, true⟩, .flag ⟨.crc, false⟩,
        .flag ⟨.config, true⟩]
    List.Forall₂ Means values as ∧ ComesTo {} values 0x11 ∧
      ["crc-valid", "Config-Valid"].foldlM applyControlFlag? 7 =
        ["Config-Valid", "crc-valid"].foldlM applyControlFlag? 7 ∧
      ["crc-valid", "CRC-Valid"].foldlM applyControlFlag? 7 =
        ["crc-valid"].foldlM applyControlFlag? 7 := by
  intro values as
  obtain ⟨-, h_values, h_swapped, h_repeated⟩ := controlField_settled
  have meanings : List.Forall₂ Means values as := by
    refine .cons (.flag ?_) (.cons (.integer ?_) (.cons (.flag ?_) (.cons (.flag ?_)
      (.cons (.flag ?_) .nil))))
    all_goals decide
  have config : Means "Config-Valid" (.flag ⟨.config, false⟩) := .flag (by decide)
  have crc : Means "crc-valid" (.flag ⟨.crc, false⟩) := .flag (by decide)
  have crc' : Means "CRC-Valid" (.flag ⟨.crc, false⟩) := .flag (by decide)
  refine ⟨meanings, ?_, h_swapped 7 [] [] _ _ _ _ crc config (by decide),
    h_repeated 7 [] [] _ _ _ crc crc'⟩
  obtain ⟨r, flags, c, -, -, comesTo⟩ := h_values {} values as meanings
  have h_word : values.foldlM applyControlFlag? 0xFFFFFFFE = some 0x11 := by decide
  obtain rfl : c = 0x11 := Option.some.inj (comesTo.oneByOne.symm.trans h_word)
  exact comesTo

end FlashImage.Settings
