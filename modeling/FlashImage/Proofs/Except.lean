import Mathlib.Data.List.Forall2

/-!
# Computations that can fail

* `bind_eq_ok`, `map_eq_ok`: what a computation went through that succeeds;
* `bind_eq_error`, `map_eq_error`: where one failed;
* `exists_eq_error`: one that never succeeds fails;
* `mapM_eq_ok_iff_forall₂`: a traversal succeeds step by step;
* `mapM_eq_error_iff`: it fails at the first step that does;
* `exists_of_mem_forall₂`: each element has its result;
* `exists_mapM_eq_ok_iff`: a traversal succeeds if each of its steps does;
* `mapM_eq_ok_iff`: when it does, and with what, if its steps fail off a predicate.
-/

namespace FlashImage

variable {α β ε : Type}

theorem bind_eq_ok {x : Except ε α} {f : α → Except ε β} {b : β} :
    x >>= f = .ok b ↔ ∃ a, x = .ok a ∧ f a = .ok b := by
  cases x with
  | error e => simp [bind, Except.bind]
  | ok a => simp [bind, Except.bind]

theorem bind_eq_error {x : Except ε α} {f : α → Except ε β} {e : ε} :
    x >>= f = .error e ↔ x = .error e ∨ ∃ a, x = .ok a ∧ f a = .error e := by
  cases x with
  | error e' => simp [bind, Except.bind]
  | ok a => simp [bind, Except.bind]

theorem map_eq_ok {x : Except ε α} {f : α → β} {b : β} :
    f <$> x = .ok b ↔ ∃ a, x = .ok a ∧ f a = b := by
  cases x with
  | error e => simp [Functor.map, Except.map]
  | ok a => simp [Functor.map, Except.map]

theorem map_eq_error {x : Except ε α} {f : α → β} {e : ε} :
    f <$> x = .error e ↔ x = .error e := by
  cases x with
  | error e' => simp [Functor.map, Except.map]
  | ok a => simp [Functor.map, Except.map]

theorem exists_eq_error {x : Except ε α} (h : ∀ a, x ≠ .ok a) : ∃ e, x = .error e := by
  cases x with
  | error e => exact ⟨e, rfl⟩
  | ok a => exact absurd rfl (h a)

theorem mapM_eq_ok_iff_forall₂ {f : α → Except ε β} {l : List α} {out : List β} :
    l.mapM f = .ok out ↔ List.Forall₂ (fun x y => f x = .ok y) l out := by
  induction l generalizing out with
  | nil => simp [pure, Except.pure, eq_comm]
  | cons x l ih =>
    rw [List.mapM_cons, bind_eq_ok, List.forall₂_cons_left_iff]
    refine exists_congr fun y => ?_
    simp only [bind_eq_ok, ih, pure, Except.pure, Except.ok.injEq]
    constructor
    · rintro ⟨h_head, rest, h_rest, rfl⟩
      exact ⟨rest, h_head, h_rest, rfl⟩
    · rintro ⟨rest, h_head, h_rest, rfl⟩
      exact ⟨h_head, rest, h_rest, rfl⟩

/-- A traversal fails at the first step that does, whatever the steps behind it do. -/
theorem mapM_eq_error_iff {f : α → Except ε β} {l : List α} {e : ε} :
    l.mapM f = .error e ↔
      ∃ before x after, l = before ++ x :: after ∧ (∀ y ∈ before, ∃ b, f y = .ok b) ∧
        f x = .error e := by
  constructor
  · intro h
    induction l with
    | nil => cases h
    | cons x l ih =>
      rw [List.mapM_cons] at h
      rcases bind_eq_error.mp h with h_head | ⟨b, h_head, h⟩
      · exact ⟨[], x, l, rfl, nofun, h_head⟩
      · rcases bind_eq_error.mp h with h_tail | ⟨bs, -, h_pure⟩
        · obtain ⟨before, y, after, rfl, h_before, h_step⟩ := ih h_tail
          exact ⟨x :: before, y, after, rfl,
            List.forall_mem_cons.mpr ⟨⟨b, h_head⟩, h_before⟩, h_step⟩
        · cases h_pure
  · rintro ⟨before, x, after, rfl, h_before, h_step⟩
    induction before with
    | nil =>
      rw [List.nil_append, List.mapM_cons, h_step]
      rfl
    | cons y before ih =>
      obtain ⟨⟨b, h_head⟩, h_rest⟩ := List.forall_mem_cons.mp h_before
      rw [List.cons_append, List.mapM_cons, h_head, ih h_rest]
      rfl

theorem exists_of_mem_forall₂ {R : α → β → Prop} {l : List α} {out : List β}
    (h : List.Forall₂ R l out) {x : α} (h_mem : x ∈ l) : ∃ y ∈ out, R x y := by
  induction h with
  | nil => cases h_mem
  | cons h_head _ ih =>
    rcases List.mem_cons.mp h_mem with rfl | h_mem
    · exact ⟨_, List.mem_cons_self, h_head⟩
    · obtain ⟨y, h_y, h_step⟩ := ih h_mem
      exact ⟨y, List.mem_cons_of_mem _ h_y, h_step⟩

theorem exists_mapM_eq_ok_iff {f : α → Except ε β} {l : List α} :
    (∃ out, l.mapM f = .ok out) ↔ ∀ x ∈ l, ∃ y, f x = .ok y := by
  constructor
  · rintro ⟨out, h⟩ x h_mem
    obtain ⟨y, -, h_step⟩ := exists_of_mem_forall₂ (mapM_eq_ok_iff_forall₂.mp h) h_mem
    exact ⟨y, h_step⟩
  · intro h
    induction l with
    | nil => exact ⟨[], rfl⟩
    | cons x l ih =>
      obtain ⟨⟨y, h_step⟩, h_rest⟩ := List.forall_mem_cons.mp h
      obtain ⟨out, h_out⟩ := ih h_rest
      exact ⟨y :: out, mapM_eq_ok_iff_forall₂.mpr (.cons h_step (mapM_eq_ok_iff_forall₂.mp h_out))⟩

/-- A traversal whose steps fail exactly off a predicate succeeds exactly on it. -/
theorem mapM_eq_ok_iff {f : α → Except ε β} {p : α → Prop} [DecidablePred p]
    {g : α → β} {err : α → ε} {l : List α} {out : List β}
    (h : ∀ x ∈ l, f x = if p x then .ok (g x) else .error (err x)) :
    l.mapM f = .ok out ↔ (∀ x ∈ l, p x) ∧ out = l.map g := by
  induction l generalizing out with
  | nil => simp [pure, Except.pure, eq_comm]
  | cons x l ih =>
    have h_tail : ∀ out, l.mapM f = .ok out ↔ (∀ y ∈ l, p y) ∧ out = l.map g :=
      fun _ => ih fun y h_mem => h y (List.mem_cons_of_mem x h_mem)
    rw [List.mapM_cons, h x List.mem_cons_self, List.forall_mem_cons]
    by_cases h_x : p x
    · simp only [if_pos h_x, bind_eq_ok, h_tail, pure, Except.pure, Except.ok.injEq]
      constructor
      · rintro ⟨_, rfl, _, ⟨h_all, rfl⟩, rfl⟩
        exact ⟨⟨h_x, h_all⟩, rfl⟩
      · rintro ⟨⟨-, h_all⟩, rfl⟩
        exact ⟨_, rfl, _, ⟨h_all, rfl⟩, rfl⟩
    · simp [bind, Except.bind, h_x]

end FlashImage
