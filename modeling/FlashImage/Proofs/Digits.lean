import FlashImage.Text.Digits
import Mathlib.Data.List.Forall2
import Mathlib.Data.Nat.Digits.Defs

/-!
# What digits spell

* `Text.IsDigit`: a character is the digit of a value, a letter in either case;
* `Text.digit?_eq_some_iff`: in radices up to sixteen it is then read as this value;
* `Text.IsNumber`: a run of digits and its positional value;
* `Text.cappedNumber?_eq_some_iff`: a run of digits has its positional value, up to
  the cap;
* `Text.filter_cappedNumber?_eq_some_iff`: below the cap it has just that value;
* `Text.isNumber_toDigits`: a number is written as a run of this value.
-/

namespace FlashImage.Text

/-! ## One digit -/

/-- A character is the digit that writes `d`, or this digit as a capital letter. -/
def IsDigit (radix : Nat) (c : Char) (d : Nat) : Prop :=
  d < radix ∧ c.toLower = Nat.digitChar d

theorem toNat_digitChar {d : Nat} (h : d < 16) :
    (Nat.digitChar d).toNat = if d < 10 then 0x30 + d else 0x61 + (d - 10) := by
  have h_all : ∀ d < 16,
      (Nat.digitChar d).toNat = if d < 10 then 0x30 + d else 0x61 + (d - 10) := by decide
  exact h_all d h

theorem toNat_toLower (c : Char) :
    c.toLower.toNat = if 0x41 ≤ c.toNat ∧ c.toNat ≤ 0x5A then c.toNat + 0x20 else c.toNat := by
  have h_range : (c.val ≥ 'A'.val ∧ c.val ≤ 'Z'.val) ↔ 0x41 ≤ c.toNat ∧ c.toNat ≤ 0x5A := Iff.rfl
  unfold Char.toLower
  split
  next h =>
    rw [if_pos (h_range.mp h)]
    have h_upper : c.val.toNat ≤ 0x5A := (h_range.mp h).2
    show (c.val + 0x20).toNat = c.val.toNat + 0x20
    rw [UInt32.toNat_add]
    exact Nat.mod_eq_of_lt (by simp only [UInt32.reduceToNat]; omega)
  next h => rw [if_neg fun h_upper => h (h_range.mpr h_upper)]

theorem digit?_eq_some_iff {radix : Nat} (h_radix : radix ≤ 16) {c : Char} {d : Nat} :
    digit? radix c = some d ↔ IsDigit radix c d := by
  rw [IsDigit, ← Char.toNat_inj, toNat_toLower, digit?, Option.ite_none_right_eq_some,
    Option.some.injEq]
  constructor
  · rintro ⟨h_lt, rfl⟩
    refine ⟨h_lt, ?_⟩
    rw [toNat_digitChar (by omega)]
    split_ifs at h_lt ⊢ <;> omega
  · rintro ⟨h_lt, h_char⟩
    rw [toNat_digitChar (by omega)] at h_char
    split_ifs at h_char ⊢ <;> omega

theorem IsDigit.range {radix : Nat} (h_radix : radix ≤ 16) {c : Char} {d : Nat}
    (digit : IsDigit radix c d) : 0x30 ≤ c.toNat ∧ c.toNat ≤ 0x66 := by
  obtain ⟨h_lt, h_char⟩ := digit
  rw [← Char.toNat_inj, toNat_toLower, toNat_digitChar (by omega)] at h_char
  split_ifs at h_char <;> omega

theorem IsDigit.ne {radix : Nat} {c other : Char} {d : Nat} (digit : IsDigit radix c d)
    (h_other : ∀ d < radix, Nat.digitChar d ≠ other.toLower) : c ≠ other := by
  rintro rfl
  exact h_other d digit.1 digit.2.symm

theorem IsDigit.ne_underscore {radix : Nat} (h_radix : radix ≤ 16) {c : Char} {d : Nat}
    (digit : IsDigit radix c d) : c ≠ '_' := by
  have h_other : ∀ d < 16, Nat.digitChar d ≠ '_'.toLower := by decide
  exact digit.ne fun d h_lt => h_other d (Nat.lt_of_lt_of_le h_lt h_radix)

theorem IsDigit.ne_plus {radix : Nat} (h_radix : radix ≤ 16) {c : Char} {d : Nat}
    (digit : IsDigit radix c d) : c ≠ '+' := by
  have h_other : ∀ d < 16, Nat.digitChar d ≠ '+'.toLower := by decide
  exact digit.ne fun d h_lt => h_other d (Nat.lt_of_lt_of_le h_lt h_radix)

theorem IsDigit.eq_zero_iff {radix : Nat} (h_radix : radix ≤ 16) {c : Char} {d : Nat}
    (digit : IsDigit radix c d) : c = '0' ↔ d = 0 := by
  obtain ⟨h_lt, h_char⟩ := digit
  rw [← Char.toNat_inj, toNat_toLower, toNat_digitChar (by omega)] at h_char
  rw [← Char.toNat_inj, show '0'.toNat = 0x30 from rfl]
  split_ifs at h_char <;> omega

/-! ## Runs of digits -/

/-- One or more digits, and the number that they write. -/
def IsNumber (radix : Nat) (s : List Char) (n : Nat) : Prop :=
  s ≠ [] ∧ ∃ ds, List.Forall₂ (IsDigit radix) s ds ∧ n = Nat.ofDigits radix ds.reverse

/-- What the run is worth so far is cut down to the cap at every step, which comes to
cutting it down once. -/
theorem min_mul_add {cap radix : Nat} (h_radix : 0 < radix) (acc d : Nat) :
    min cap (min cap acc * radix + d) = min cap (acc * radix + d) := by
  by_cases h_le : acc ≤ cap
  · rw [Nat.min_eq_right h_le]
  · have h_lt : cap ≤ acc := Nat.le_of_not_le h_le
    have h_cap : cap ≤ cap * radix := Nat.le_mul_of_pos_right cap h_radix
    have h_acc : cap * radix ≤ acc * radix := Nat.mul_le_mul_right radix h_lt
    rw [Nat.min_eq_left h_lt]
    omega

theorem foldlM_digit?_eq_some_iff {cap radix : Nat} (h_radix : 0 < radix) {s : List Char}
    {acc v : Nat} :
    s.foldlM (fun acc c => (digit? radix c).map fun d => min cap (acc * radix + d))
        (min cap acc) = some v ↔
      ∃ ds, List.Forall₂ (fun c d => digit? radix c = some d) s ds ∧
        v = min cap (ds.foldl (fun acc d => acc * radix + d) acc) := by
  induction s generalizing acc with
  | nil =>
    simp only [List.foldlM_nil, List.forall₂_nil_left_iff, exists_eq_left, List.foldl_nil]
    exact ⟨fun h => (Option.some.inj h).symm, fun h => congrArg some h.symm⟩
  | cons c s ih =>
    simp only [List.foldlM_cons, Option.bind_eq_bind, Option.bind_eq_some_iff,
      Option.map_eq_some_iff]
    constructor
    · rintro ⟨_, ⟨d, h_digit, rfl⟩, h_rest⟩
      rw [min_mul_add h_radix, ih] at h_rest
      obtain ⟨ds, h_digits, h_value⟩ := h_rest
      exact ⟨d :: ds, .cons h_digit h_digits, h_value⟩
    · rintro ⟨ds, h_digits, h_value⟩
      cases h_digits with
      | @cons _ d _ ds h_digit h_digits =>
        refine ⟨_, ⟨d, h_digit, rfl⟩, ?_⟩
        rw [min_mul_add h_radix, ih]
        exact ⟨ds, h_digits, h_value⟩

theorem foldl_eq_ofDigits (radix : Nat) (ds : List Nat) :
    ds.foldl (fun acc d => acc * radix + d) 0 = Nat.ofDigits radix ds.reverse := by
  simp only [Nat.ofDigits_eq_foldr, List.foldr_reverse, Nat.cast_id, Nat.add_comm, Nat.mul_comm]

theorem cappedNumber?_eq_some_iff {cap radix : Nat} (h_positive : 0 < radix) (h_radix : radix ≤ 16)
    {s : List Char} {v : Nat} :
    cappedNumber? cap radix s = some v ↔
      s ≠ [] ∧ ∃ ds, List.Forall₂ (IsDigit radix) s ds ∧
        v = min cap (Nat.ofDigits radix ds.reverse) := by
  cases s with
  | nil => simp [cappedNumber?]
  | cons c s =>
    have h_fold := @foldlM_digit?_eq_some_iff cap radix h_positive (c :: s) 0 v
    simp only [Nat.min_zero, foldl_eq_ofDigits, digit?_eq_some_iff h_radix] at h_fold
    rw [and_iff_right (List.cons_ne_nil c s), ← h_fold]
    rfl

theorem filter_cappedNumber?_eq_some_iff {cap radix : Nat} (h_positive : 0 < radix)
    (h_radix : radix ≤ 16) {s : List Char} {v : Nat} :
    (cappedNumber? cap radix s).filter (· < cap) = some v ↔ v < cap ∧ IsNumber radix s v := by
  rw [Option.filter_eq_some_iff, cappedNumber?_eq_some_iff h_positive h_radix, decide_eq_true_eq]
  constructor
  · rintro ⟨⟨h_some, ds, h_digits, h_value⟩, h_lt⟩
    exact ⟨h_lt, h_some, ds, h_digits, by omega⟩
  · rintro ⟨h_lt, h_some, ds, h_digits, h_value⟩
    exact ⟨⟨h_some, ds, h_digits, by omega⟩, h_lt⟩

/-! ## Numbers written -/

theorem isDigit_digitChar {radix d : Nat} (h_radix : radix ≤ 16) (h_lt : d < radix) :
    IsDigit radix (Nat.digitChar d) d := by
  have h_lower : ∀ d < 16, (Nat.digitChar d).toLower = Nat.digitChar d := by decide
  exact ⟨h_lt, h_lower d (Nat.lt_of_lt_of_le h_lt h_radix)⟩

/-- A number is written with its digits. -/
theorem isNumber_toDigits {radix : Nat} (h_two : 1 < radix) (h_radix : radix ≤ 16) (n : Nat) :
    IsNumber radix (Nat.toDigits radix n) n := by
  refine ⟨Nat.toDigits_ne_nil, ?_⟩
  induction n using Nat.strongRecOn with
  | _ n ih =>
    by_cases h_lt : n < radix
    · rw [Nat.toDigits_of_lt_base h_lt]
      exact ⟨[n], .cons (isDigit_digitChar h_radix h_lt) .nil, by simp⟩
    · have h_le : radix ≤ n := Nat.le_of_not_lt h_lt
      have h_positive : 0 < radix := Nat.lt_of_succ_lt h_two
      obtain ⟨ds, digits, h_value⟩ := ih (n / radix) (Nat.div_lt_self (by omega) h_two)
      have digit := isDigit_digitChar h_radix (Nat.mod_lt n h_positive)
      rw [Nat.toDigits_of_base_le h_two h_le]
      refine ⟨ds ++ [n % radix], List.rel_append digits (.cons digit .nil), ?_⟩
      rw [List.reverse_append, List.reverse_singleton, List.singleton_append, Nat.ofDigits_cons,
        ← h_value, Nat.mod_add_div]

/-- Zeros in front of a number make no difference. -/
theorem IsNumber.zeros {radix : Nat} (h_positive : 0 < radix) {s : List Char} {n : Nat}
    (number : IsNumber radix s n) (k : Nat) : IsNumber radix (List.replicate k '0' ++ s) n := by
  obtain ⟨h_some, ds, digits, h_value⟩ := number
  have zero : IsDigit radix '0' 0 := ⟨h_positive, rfl⟩
  have zeros : List.Forall₂ (IsDigit radix) (List.replicate k '0') (List.replicate k 0) := by
    induction k with
    | zero => exact .nil
    | succ k ih => exact .cons zero ih
  refine ⟨by simp [h_some], List.replicate k 0 ++ ds, List.rel_append zeros digits, ?_⟩
  rw [List.reverse_append, List.reverse_replicate, Nat.ofDigits_append_replicate_zero, h_value]

end FlashImage.Text
