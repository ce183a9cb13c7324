import FlashImage.Text.Basic
import Mathlib.Data.List.Induction

/-!
# Cutting and trimming texts

* `Text.InFront`: the text in front of the first two adjacent marks;
* `Text.inFront_iff`: it is what `Text.beforeDouble` finds;
* `Text.cutAt_append_cons`, `Text.cutAt_eq_none`: a text is cut where its first mark is;
* `Text.split_induction`: induction over the parts between marks;
* `Text.apply_trim`: what does not depend on a blank at either end does not depend
  on trimming;
* `Text.trim_trim`, `Text.trim_eq_self`: a trimmed text is not changed any more, nor is
  one without blanks;
* `Text.mem_trim_iff`: trimming takes nothing away but blanks.
-/

namespace FlashImage.Text

/-! ## The first two adjacent marks -/

/-- `InFront mark text body`: the text up to its first two adjacent marks, or the
whole text if there are none. -/
inductive InFront (mark : Char) : List Char → List Char → Prop where
  | cut {body rest : List Char} (first : ¬ [mark, mark] <:+: body ++ [mark]) :
      InFront mark (body ++ mark :: mark :: rest) body
  | whole {text : List Char} (single : ¬ [mark, mark] <:+: text) : InFront mark text text

theorem double_infix_cons {mark c : Char} {s : List Char} :
    [mark, mark] <:+: c :: s ↔ (c = mark ∧ s.head? = some mark) ∨ [mark, mark] <:+: s := by
  rw [List.infix_cons_iff, List.cons_prefix_cons, eq_comm]
  cases s with
  | nil => simp
  | cons d s => simp [eq_comm]

theorem beforeDouble_cons (mark c : Char) (s : List Char) :
    beforeDouble mark (c :: s) =
      if c = mark ∧ s.head? = some mark then [] else c :: beforeDouble mark s := by
  cases s with
  | nil => simp [beforeDouble]
  | cons d s => simp [beforeDouble]

theorem inFront_beforeDouble (mark : Char) (text : List Char) :
    InFront mark text (beforeDouble mark text) := by
  induction text with
  | nil => exact .whole (by simp)
  | cons c s ih =>
    rw [beforeDouble_cons]
    split
    next h_double =>
      obtain ⟨rfl, h_head⟩ := h_double
      obtain ⟨rest, rfl⟩ := List.head?_eq_some_iff.mp h_head
      exact @InFront.cut c [] rest (by simp [double_infix_cons])
    next h_single =>
      generalize beforeDouble mark s = body at ih ⊢
      cases ih with
      | @cut _ rest first =>
        refine @InFront.cut mark (c :: body) rest fun h_infix => ?_
        rw [List.cons_append, double_infix_cons] at h_infix
        refine h_infix.elim (fun h_double => h_single ⟨h_double.1, ?_⟩) first
        cases body <;> exact h_double.2
      | whole single =>
        refine .whole fun h_infix => ?_
        exact (double_infix_cons.mp h_infix).elim h_single single

theorem InFront.eq_beforeDouble {mark : Char} {text body : List Char} (h : InFront mark text body) :
    beforeDouble mark text = body := by
  cases h with
  | whole single =>
    induction text with
    | nil => rfl
    | cons c s ih =>
      rw [double_infix_cons, not_or] at single
      rw [beforeDouble_cons, if_neg single.1, ih single.2]
  | @cut _ rest first =>
    induction body with
    | nil => simp [beforeDouble]
    | cons c s ih =>
      rw [List.cons_append, double_infix_cons, not_or] at first
      rw [List.cons_append, beforeDouble_cons, if_neg, ih first.2]
      cases s <;> exact first.1

theorem inFront_iff {mark : Char} {text body : List Char} :
    InFront mark text body ↔ beforeDouble mark text = body :=
  ⟨InFront.eq_beforeDouble, fun h_eq => h_eq ▸ inFront_beforeDouble mark text⟩

theorem beforeDouble_cons_of_ne {mark c : Char} (h_ne : c ≠ mark) (s : List Char) :
    beforeDouble mark (c :: s) = c :: beforeDouble mark s := by
  rw [beforeDouble_cons, if_neg fun h => h_ne h.1]

/-- A character behind the marks is cut off, and any other one stays. -/
theorem beforeDouble_concat {mark c : Char} (h_ne : c ≠ mark) (s : List Char) :
    beforeDouble mark (s ++ [c]) = beforeDouble mark s ∨
      (beforeDouble mark s = s ∧ beforeDouble mark (s ++ [c]) = s ++ [c]) := by
  induction s with
  | nil => exact .inr ⟨rfl, rfl⟩
  | cons d s ih =>
    have h_head : (s ++ [c]).head? = some mark ↔ s.head? = some mark := by
      cases s with
      | nil => simp [h_ne]
      | cons e s => simp
    simp only [List.cons_append, beforeDouble_cons, h_head]
    split
    · exact .inl rfl
    · rcases ih with h_cut | ⟨h_all, h_kept⟩
      · exact .inl (congrArg _ h_cut)
      · exact .inr ⟨congrArg _ h_all, congrArg _ h_kept⟩

/-! ## Cutting at the first mark -/

theorem cutAt_append_cons {mark : Char} {head : List Char} (h_head : mark ∉ head)
    (tail : List Char) : cutAt mark (head ++ mark :: tail) = some (head, tail) := by
  induction head with
  | nil => rw [List.nil_append, cutAt, if_pos rfl]
  | cons c head ih =>
    obtain ⟨h_first, h_others⟩ := List.ne_and_not_mem_of_not_mem_cons h_head
    rw [List.cons_append, cutAt, if_neg h_first.symm, ih h_others]
    rfl

theorem cutAt_eq_none {mark : Char} {text : List Char} (h_text : mark ∉ text) :
    cutAt mark text = none := by
  induction text with
  | nil => rfl
  | cons c text ih =>
    obtain ⟨h_first, h_others⟩ := List.ne_and_not_mem_of_not_mem_cons h_text
    rw [cutAt, if_neg h_first.symm, ih h_others]
    rfl

/-! ## Cutting at every mark -/

/-- A property of lists holds if it holds of those without a separator, and of
those that consist of a first part, a separator and a rest of which it holds. -/
theorem split_induction {α : Type} {P : List α → Prop} (sep : α)
    (last : ∀ part, sep ∉ part → P part)
    (next : ∀ part rest, sep ∉ part → P rest → P (part ++ sep :: rest)) (l : List α) : P l := by
  -- on the length: what stands behind the first separator is shorter
  induction h_length : l.length using Nat.strongRecOn generalizing l with
  | _ n ih =>
    by_cases h_mem : sep ∈ l
    · obtain ⟨part, rest, rfl, h_part⟩ := List.eq_append_cons_of_mem h_mem
      refine next part rest h_part (ih rest.length ?_ rest rfl)
      rw [← h_length, List.length_append, List.length_cons]
      omega
    · exact last l h_mem

theorem length_splitOn (mark : Char) (text : List Char) :
    (text.splitOn mark).length = text.count mark + 1 := by
  induction text using split_induction mark with
  | last part h_part => rw [List.splitOn_eq_singleton h_part,
    List.count_eq_zero_of_not_mem h_part]; rfl
  | next part rest h_part ih =>
    rw [List.splitOn_append_cons_self, List.splitOn_eq_singleton h_part, List.length_append, ih,
      List.count_append, List.count_eq_zero_of_not_mem h_part, List.count_cons_self,
      List.length_singleton]
    omega

/-! ## Blanks around a text -/

theorem trim_cons_blank {c : Char} (h_blank : isBlank c = true) (s : List Char) :
    trim (c :: s) = trim s := by
  rw [trim, trimStart, List.dropWhile_cons_of_pos h_blank]
  rfl

theorem trim_concat_blank {c : Char} (h_blank : isBlank c = true) (s : List Char) :
    trim (s ++ [c]) = trim s := by
  rw [trim, trim, trimStart, trimStart, List.dropWhile_append]
  split
  next h_all =>
    rw [List.isEmpty_iff.mp h_all]
    simp [trimEnd, h_blank]
  next => simp [trimEnd, h_blank]

/-- What does not depend on a blank at either end does not depend on trimming. -/
theorem apply_trim {β : Type} {f : List Char → β}
    (front : ∀ c s, isBlank c = true → f (c :: s) = f s)
    (back : ∀ c s, isBlank c = true → f (s ++ [c]) = f s) (s : List Char) : f (trim s) = f s := by
  have h_start : ∀ s, f (trimStart s) = f s := by
    intro s
    induction s with
    | nil => rfl
    | cons c s ih =>
      rw [trimStart, List.dropWhile_cons]
      split
      next h_blank => rw [front c s h_blank, ← ih, trimStart]
      next => rfl
  have h_end : ∀ s, f (trimEnd s) = f s := by
    intro s
    induction s using List.reverseRecOn with
    | nil => rfl
    | append_singleton s c ih =>
      by_cases h_blank : isBlank c = true
      · rw [back c s h_blank, ← ih]
        simp [trimEnd, h_blank]
      · simp [trimEnd, h_blank]
  rw [trim, h_end, h_start]

theorem trim_trim (s : List Char) : trim (trim s) = trim s :=
  apply_trim (fun _ s h_blank => trim_cons_blank h_blank s)
    (fun _ s h_blank => trim_concat_blank h_blank s) s

theorem ne_of_isBlank {mark c : Char} (h_mark : isBlank mark = false) (h_blank : isBlank c = true) :
    mark ≠ c := by
  rintro rfl
  exact Bool.eq_false_iff.mp h_mark h_blank

theorem mem_trim_iff {mark : Char} (h_mark : isBlank mark = false) {s : List Char} :
    mark ∈ trim s ↔ mark ∈ s := by
  refine iff_of_eq (apply_trim (f := fun t => mark ∈ t) ?_ ?_ s)
  · intro c s h_blank
    simp [ne_of_isBlank h_mark h_blank]
  · intro c s h_blank
    simp [ne_of_isBlank h_mark h_blank]

theorem trim_eq_self {s : List Char} (h : ∀ c ∈ s, isBlank c = false) : trim s = s := by
  have h_drop : ∀ t : List Char, (∀ c ∈ t, isBlank c = false) → t.dropWhile isBlank = t := by
    intro t h
    cases t with
    | nil => rfl
    | cons c t => simp [h c List.mem_cons_self]
  rw [trim, trimStart, h_drop s h, trimEnd, h_drop _ (by simpa using h), List.reverse_reverse]

end FlashImage.Text
