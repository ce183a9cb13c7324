import FlashImage.Proofs.Digits
import FlashImage.Text.Literal
import Mathlib.Data.List.Induction

/-!
# Digits with underscores between them

* `Literal.Spelled`: digits with single underscores between them, and their values;
* `Literal.spelled_iff`: they are what a well separated text consists of;
* `Literal.hasLeadingZero_iff`: whether a number has a leading zero shows in its digits.
-/

namespace FlashImage.Literal

open Text

/-- Digits with single underscores between them, and the values of the digits. -/
inductive Spelled (radix : Nat) : List Char → List Nat → Prop where
  | last {c : Char} {d : Nat} (digit : IsDigit radix c d) : Spelled radix [c] [d]
  | next {c : Char} {d : Nat} {s : List Char} {ds : List Nat} (digit : IsDigit radix c d)
      (rest : Spelled radix s ds) : Spelled radix (c :: s) (d :: ds)
  | gap {c : Char} {d : Nat} {s : List Char} {ds : List Nat} (digit : IsDigit radix c d)
      (rest : Spelled radix s ds) : Spelled radix (c :: '_' :: s) (d :: ds)

theorem ne_underscore_of_wellSeparated {c : Char} {s : List Char}
    (h : wellSeparated (c :: s) = true) : c ≠ '_' := by
  rintro rfl
  simp [wellSeparated] at h

/-- Behind a digit the text ends, goes on, or goes on behind an underscore. -/
theorem wellSeparated_cons_iff {c : Char} (h : c ≠ '_') (s : List Char) :
    wellSeparated (c :: s) = true ↔
      s = [] ∨ wellSeparated s = true ∨ ∃ u, s = '_' :: u ∧ wellSeparated u = true := by
  cases s with
  | nil => simp [wellSeparated, hasDoubleUnderscore, h]
  | cons d s =>
    by_cases h_gap : d = '_'
    · subst h_gap
      cases s with
      | nil => simp [wellSeparated]
      | cons e s => simp [wellSeparated, hasDoubleUnderscore, h, and_assoc, and_left_comm]
    · simp [wellSeparated, hasDoubleUnderscore, h, h_gap]

theorem filter_cons_digit {c : Char} (h : c ≠ '_') (s : List Char) :
    (c :: s).filter (· != '_') = c :: s.filter (· != '_') :=
  List.filter_cons_of_pos (bne_iff_ne.mpr h)

theorem filter_cons_underscore (s : List Char) :
    ('_' :: s).filter (· != '_') = s.filter (· != '_') := rfl

theorem Spelled.wellSeparated {radix : Nat} (h_radix : radix ≤ 16) {s : List Char}
    {ds : List Nat} (spelled : Spelled radix s ds) : wellSeparated s = true := by
  induction spelled with
  | last digit => exact (wellSeparated_cons_iff (digit.ne_underscore h_radix) _).mpr (.inl rfl)
  | next digit _ ih =>
    exact (wellSeparated_cons_iff (digit.ne_underscore h_radix) _).mpr (.inr (.inl ih))
  | gap digit _ ih =>
    exact (wellSeparated_cons_iff (digit.ne_underscore h_radix) _).mpr (.inr (.inr ⟨_, rfl, ih⟩))

theorem Spelled.digits {radix : Nat} (h_radix : radix ≤ 16) {s : List Char} {ds : List Nat}
    (spelled : Spelled radix s ds) :
    List.Forall₂ (IsDigit radix) (s.filter (· != '_')) ds := by
  induction spelled with
  | last digit =>
    rw [filter_cons_digit (digit.ne_underscore h_radix)]
    exact .cons digit .nil
  | next digit _ ih =>
    rw [filter_cons_digit (digit.ne_underscore h_radix)]
    exact .cons digit ih
  | gap digit _ ih =>
    rw [filter_cons_digit (digit.ne_underscore h_radix), filter_cons_underscore]
    exact .cons digit ih

/-- The cases are those of the test for two underscores, which looks at two characters. -/
theorem spelled_of_wellSeparated {radix : Nat} {s : List Char} {ds : List Nat}
    (h_separated : wellSeparated s = true)
    (h_digits : List.Forall₂ (IsDigit radix) (s.filter (· != '_')) ds) : Spelled radix s ds := by
  induction s using List.twoStepInduction generalizing ds with
  | nil => cases h_separated
  | singleton c =>
    rw [filter_cons_digit (ne_underscore_of_wellSeparated h_separated)] at h_digits
    cases h_digits with
    | cons digit h_rest =>
      cases h_rest
      exact .last digit
  | cons_cons c e s ih_gap ih_next =>
    have h_first := ne_underscore_of_wellSeparated h_separated
    rw [filter_cons_digit h_first] at h_digits
    cases h_digits with
    | cons digit h_rest =>
      obtain h_nil | h_next | ⟨u, h_eq, h_gap⟩ := (wellSeparated_cons_iff h_first _).mp h_separated
      · cases h_nil
      · exact .next digit (ih_next e h_next h_rest)
      · obtain ⟨rfl, rfl⟩ := List.cons.inj h_eq
        rw [filter_cons_underscore] at h_rest
        exact .gap digit (ih_gap h_gap h_rest)

theorem spelled_iff {radix : Nat} (h_radix : radix ≤ 16) {s : List Char} {ds : List Nat} :
    Spelled radix s ds ↔
      wellSeparated s = true ∧ List.Forall₂ (IsDigit radix) (s.filter (· != '_')) ds :=
  ⟨fun spelled => ⟨spelled.wellSeparated h_radix, spelled.digits h_radix⟩,
    fun ⟨h_separated, h_digits⟩ => spelled_of_wellSeparated h_separated h_digits⟩

theorem Spelled.exists_cons {radix : Nat} {s : List Char} {ds : List Nat}
    (spelled : Spelled radix s ds) : ∃ c d u, s = c :: u ∧ IsDigit radix c d := by
  cases spelled with
  | last digit => exact ⟨_, _, _, rfl, digit⟩
  | next digit _ => exact ⟨_, _, _, rfl, digit⟩
  | gap digit _ => exact ⟨_, _, _, rfl, digit⟩

theorem Spelled.head?_ne {radix : Nat} {s : List Char} {ds : List Nat}
    (spelled : Spelled radix s ds) {other : Char}
    (h_other : ∀ {c : Char} {d : Nat}, IsDigit radix c d → c ≠ other) : s.head? ≠ some other := by
  obtain ⟨c, d, u, rfl, digit⟩ := spelled.exists_cons
  exact fun h_eq => h_other digit (Option.some.inj h_eq)

theorem Spelled.mem {radix : Nat} {s : List Char} {ds : List Nat} (spelled : Spelled radix s ds)
    {c : Char} (h_mem : c ∈ s) : c = '_' ∨ ∃ d, IsDigit radix c d := by
  induction spelled with
  | last digit =>
    obtain rfl := List.mem_singleton.mp h_mem
    exact .inr ⟨_, digit⟩
  | next digit _ ih =>
    rcases List.mem_cons.mp h_mem with rfl | h_mem
    · exact .inr ⟨_, digit⟩
    · exact ih h_mem
  | gap digit _ ih =>
    rcases List.mem_cons.mp h_mem with rfl | h_mem
    · exact .inr ⟨_, digit⟩
    · exact (List.mem_cons.mp h_mem).elim .inl ih

/-- Digits need no underscores between them. -/
theorem spelled_of_digits {radix : Nat} {s : List Char} {ds : List Nat} (h_some : s ≠ [])
    (digits : List.Forall₂ (IsDigit radix) s ds) : Spelled radix s ds := by
  induction digits with
  | nil => exact absurd rfl h_some
  | cons digit rest ih =>
    cases rest with
    | nil => exact .last digit
    | cons => exact .next digit (ih (List.cons_ne_nil _ _))

/-! ## Leading zeros -/

theorem any_ne_zero {radix : Nat} (h_radix : radix ≤ 16) {s : List Char} {ds : List Nat}
    (h_digits : List.Forall₂ (IsDigit radix) s ds) : s.any (· != '0') = ds.any (· != 0) := by
  induction h_digits with
  | nil => rfl
  | cons digit _ ih =>
    rw [List.any_cons, List.any_cons, ih]
    congr 1
    rw [Bool.eq_iff_iff, bne_iff_ne, bne_iff_ne, ne_eq, ne_eq, digit.eq_zero_iff h_radix]

/-- Whether a digit other than zero comes behind a zero in front shows in the values. -/
theorem hasLeadingZero_iff {radix : Nat} (h_radix : radix ≤ 16) {s : List Char} {ds : List Nat}
    (h_digits : List.Forall₂ (IsDigit radix) s ds) :
    hasLeadingZero s = true ↔ ¬ (ds.head? = some 0 → ∀ d ∈ ds, d = 0) := by
  rw [hasLeadingZero, any_ne_zero h_radix h_digits]
  cases h_digits with
  | nil => simp
  | cons digit _ => simp +contextual [digit.eq_zero_iff h_radix]

end FlashImage.Literal
