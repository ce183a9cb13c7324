import FlashImage.Proofs.Text
import FlashImage.Text.Basic
import Mathlib

/-!
# The ends of a text

Trimming looks at the ends of a text alone: at the blanks in front of its first character
that is none, and behind the last one.

* `trim_upper`: the case of letters does not matter.
-/

namespace FlashImage.Text

/-! ## Blanks around a text -/

theorem trim_padded {front back : List Char} (h_front : ∀ c ∈ front, isBlank c = true)
    (h_back : ∀ c ∈ back, isBlank c = true) (s : List Char) :
    trim (front ++ s ++ back) = trim s := by
  have in_front : trim (front ++ s) = trim s := by
    induction front with
    | nil => rfl
    | cons c front ih =>
      obtain ⟨h_blank, h_front⟩ := List.forall_mem_cons.mp h_front
      rw [List.cons_append, trim_cons_blank h_blank, ih h_front]
  rw [← in_front]
  induction back using List.reverseRecOn with
  | nil => rw [List.append_nil]
  | append_singleton back c ih =>
    obtain ⟨h_back, h_blank⟩ := List.forall_mem_append.mp h_back
    rw [← List.append_assoc, trim_concat_blank (h_blank c (List.mem_singleton_self c)), ih h_back]

theorem exists_padded (s : List Char) :
    ∃ front back, (∀ c ∈ front, isBlank c = true) ∧ (∀ c ∈ back, isBlank c = true) ∧
      s = front ++ trim s ++ back := by
  refine ⟨s.takeWhile isBlank, ((trimStart s).reverse.takeWhile isBlank).reverse,
    fun _ h_mem => List.mem_takeWhile_imp h_mem,
    fun _ h_mem => List.mem_takeWhile_imp (List.mem_reverse.mp h_mem), ?_⟩
  have behind : trim s ++ ((trimStart s).reverse.takeWhile isBlank).reverse = trimStart s := by
    rw [trim, trimEnd, ← List.reverse_append, List.takeWhile_append_dropWhile, List.reverse_reverse]
  rw [List.append_assoc, behind, trimStart, List.takeWhile_append_dropWhile]

/-! ## Trimmed texts -/

theorem trimStart_eq_self_iff {s : List Char} :
    trimStart s = s ↔ ∀ c ∈ s.head?, isBlank c = false := by
  cases s with
  | nil => simp [trimStart]
  | cons c s => simp [trimStart]

theorem trimEnd_eq_self_iff {s : List Char} :
    trimEnd s = s ↔ ∀ c ∈ s.getLast?, isBlank c = false := by
  rw [← List.head?_reverse, ← trimStart_eq_self_iff, trimEnd, List.reverse_eq_iff, trimStart]

theorem trim_eq_self_iff {s : List Char} :
    trim s = s ↔ (∀ c ∈ s.head?, isBlank c = false) ∧ ∀ c ∈ s.getLast?, isBlank c = false := by
  rw [← trimStart_eq_self_iff, ← trimEnd_eq_self_iff]
  refine ⟨fun h_trim => ?_, fun ⟨h_start, h_end⟩ => by rw [trim, h_start, h_end]⟩
  have h_prefix : trim s <+: trimStart s := List.rdropWhile_prefix isBlank _
  have h_length : s.length ≤ (trimStart s).length := by
    simpa only [h_trim] using h_prefix.length_le
  have h_start : trimStart s = s := (List.dropWhile_suffix isBlank).eq_of_length_le h_length
  rw [trim, h_start] at h_trim
  exact ⟨h_start, h_trim⟩

theorem trimEnd_append {s : List Char} (h_end : trimEnd s = s) (t : List Char) :
    trimEnd (s ++ t) = s ++ trimEnd t := by
  induction t using List.reverseRecOn with
  | nil => rw [List.append_nil, h_end, trimEnd, List.reverse_nil, List.dropWhile_nil,
      List.reverse_nil, List.append_nil]
  | append_singleton t c ih =>
    rw [← List.append_assoc]
    simp only [trimEnd, List.reverse_append, List.reverse_singleton, List.singleton_append,
      List.dropWhile_cons] at ih ⊢
    split
    · exact ih
    · simp

theorem trimEnd_cons {s : List Char} (h_some : trimEnd s ≠ []) (c : Char) :
    trimEnd (c :: s) = c :: trimEnd s := by
  have h_rest : (s.reverse.dropWhile isBlank).isEmpty = false := by
    simpa [trimEnd] using h_some
  rw [trimEnd, List.reverse_cons, List.dropWhile_append, h_rest]
  simp [trimEnd]

theorem trim_append {s : List Char} (h_some : s ≠ []) (h_trim : trim s = s) (t : List Char) :
    trim (s ++ t) = s ++ trimEnd t := by
  obtain ⟨h_head, h_last⟩ := trim_eq_self_iff.mp h_trim
  have h_start : trimStart (s ++ t) = s ++ t := by
    rw [trimStart_eq_self_iff, List.head?_append_of_ne_nil s h_some]
    exact h_head
  rw [trim, h_start, trimEnd_append (trimEnd_eq_self_iff.mpr h_last)]

/-! ## Letters -/

theorem isAlpha_of_isBlank {c : Char} (h_blank : isBlank c = true) : c.isAlpha = false := by
  simp only [isBlank, Bool.or_eq_true, Bool.and_eq_true, decide_eq_true_eq, beq_iff_eq] at h_blank
  have h_letter : c.isAlpha = true ↔
      (0x41 ≤ c.toNat ∧ c.toNat ≤ 0x5A) ∨ (0x61 ≤ c.toNat ∧ c.toNat ≤ 0x7A) := by
    simp [Char.isAlpha, Char.isUpper, Char.isLower, UInt32.le_iff_toNat_le]
  rw [← Bool.not_eq_true, h_letter]
  omega

theorem isBlank_toUpper (c : Char) : isBlank c.toUpper = isBlank c := by
  by_cases h_lower : c.isLower = true
  · have h_alpha : c.isAlpha = true := by simp [Char.isAlpha, h_lower]
    have not_blank : ∀ d : Char, d.isAlpha = true → isBlank d = false := fun d h_letter =>
      Bool.eq_false_iff.mpr fun h_blank => by simp [isAlpha_of_isBlank h_blank] at h_letter
    rw [not_blank c h_alpha, not_blank c.toUpper (by rwa [Char.isAlpha_toUpper_eq_isAlpha])]
  · rw [Char.toUpper_eq_of_not_isLower h_lower]

theorem trim_upper (s : List Char) : trim (upper s) = upper (trim s) := by
  have h_blank : isBlank ∘ Char.toUpper = isBlank := funext isBlank_toUpper
  simp only [upper, trim, trimEnd, trimStart, List.dropWhile_map, ← List.map_reverse, h_blank]

end FlashImage.Text
