import FlashImage.Proofs.Literal.Spelled
import FlashImage.Proofs.Toml.Quoted
import FlashImage.Toml.Reading
import FlashImage.Toml.Writing
import Mathlib.Algebra.Group.Nat.Defs
import Mathlib.Data.List.Basic

/-!
# Plain values are read back

Numbers are written in decimal, texts between quotes, and arrays of texts on one
line or on one line a text.

* `value?_write`: a plain value is read back, in front of the end of a line.
-/

namespace FlashImage.Toml

open Text

/-- A word ends where the first character that cannot stand in it comes. -/
theorem span_append {p : Char → Bool} {word : List Char} (h : ∀ c ∈ word, p c = true) {d : Char}
    (h_stop : p d = false) (rest : List Char) :
    (word ++ d :: rest).takeWhile p = word ∧ (word ++ d :: rest).dropWhile p = d :: rest := by
  have h_stop : ¬ p d = true := by rw [h_stop]; exact Bool.false_ne_true
  rw [List.takeWhile_append_of_pos h, List.dropWhile_append_of_pos h,
    List.takeWhile_cons_of_neg h_stop, List.dropWhile_cons_of_neg h_stop, List.append_nil]
  exact ⟨rfl, rfl⟩

/-! ## Numbers -/

theorem isDigit_of_mem_toDigits {n : Nat} {c : Char} (h_mem : c ∈ Nat.toDigits 10 n) :
    c.isDigit = true :=
  Nat.isDigit_of_mem_toDigits (by decide) (by decide) h_mem

theorem isBareChar_of_mem_toDigits {n : Nat} {c : Char} (h_mem : c ∈ Nat.toDigits 10 n) :
    isBareChar c = true := by
  simp [isBareChar, Char.isAlphanum, isDigit_of_mem_toDigits h_mem]

theorem not_mem_toDigits {c : Char} (h : c.isDigit = false) (n : Nat) : c ∉ Nat.toDigits 10 n := by
  intro h_mem
  rw [isDigit_of_mem_toDigits h_mem] at h
  cases h

theorem toDigits_ne_of_mem {c : Char} (h : c.isDigit = false) {n : Nat} {s : List Char}
    (h_mem : c ∈ s) : Nat.toDigits 10 n ≠ s := by
  rintro rfl
  exact not_mem_toDigits h n h_mem

theorem cappedNumber?_toDigits (cap n : Nat) :
    cappedNumber? cap 10 (Nat.toDigits 10 n) = some (min cap n) := by
  obtain ⟨h_some, ds, digits, h_value⟩ := isNumber_toDigits (by decide : 1 < 10) (by decide) n
  exact (cappedNumber?_eq_some_iff (by decide) (by decide)).mpr
    ⟨h_some, ds, digits, congrArg (min cap) h_value⟩

theorem wellSeparated_of_not_mem {s : List Char} (h_some : s ≠ []) (h : '_' ∉ s) :
    Literal.wellSeparated s = true := by
  induction s with
  | nil => exact absurd rfl h_some
  | cons c s ih =>
    have h_rest : '_' ∉ s := fun h_mem => h (List.mem_cons_of_mem _ h_mem)
    rw [Literal.wellSeparated_cons_iff fun h_eq => h (h_eq ▸ List.mem_cons_self)]
    by_cases h_nil : s = []
    · exact .inl h_nil
    · exact .inr (.inl (ih h_nil h_rest))

/-- A decimal begins with a zero only if there is no other digit. -/
theorem eq_zero_of_head?_toDigits (n : Nat) (h : (Nat.toDigits 10 n).head? = some '0') : n = 0 := by
  induction n using Nat.strongRecOn with
  | _ n ih =>
    by_cases h_lt : n < 10
    · have h_digit : ∀ n < 10, Nat.digitChar n = '0' → n = 0 := by decide
      rw [Nat.toDigits_of_lt_base h_lt] at h
      exact h_digit n h_lt (Option.some.inj h)
    · rw [Nat.toDigits_of_base_le (by decide) (Nat.le_of_not_lt h_lt),
        List.head?_append_of_ne_nil _ Nat.toDigits_ne_nil] at h
      have h_zero := ih (n / 10) (by omega) h
      omega

theorem decimal?_toDigits {n : Nat} (h : n < 2 ^ 64) : decimal? (Nat.toDigits 10 n) = some n := by
  have h_zero : ¬ ((Nat.toDigits 10 n).head? = some '0' ∧ (Nat.toDigits 10 n).length ≠ 1) := by
    rintro ⟨h_head, h_length⟩
    rw [eq_zero_of_head?_toDigits n h_head] at h_length
    exact h_length rfl
  have h_underscore : '_' ∉ Nat.toDigits 10 n := not_mem_toDigits (by decide) n
  have h_filter : (Nat.toDigits 10 n).filter (· != '_') = Nat.toDigits 10 n :=
    List.filter_eq_self.mpr fun c h_mem => bne_iff_ne.mpr fun h_eq => h_underscore (h_eq ▸ h_mem)
  rw [decimal?, if_neg h_zero, separatedNumber?,
    if_pos (wellSeparated_of_not_mem Nat.toDigits_ne_nil h_underscore), h_filter,
    cappedNumber?_toDigits]
  exact congrArg some (Nat.min_eq_right (Nat.le_of_lt h))

theorem integer?_toDigits {n : Nat} (h : n < 2 ^ 63) :
    integer? (Nat.toDigits 10 n) = some (n : Int) := by
  have h_first : ∀ {c : Char} {s : List Char}, c.isDigit = false → Nat.toDigits 10 n ≠ c :: s :=
    fun h_digit => toDigits_ne_of_mem h_digit List.mem_cons_self
  have h_second : ∀ {c d : Char} {s : List Char}, d.isDigit = false →
      Nat.toDigits 10 n ≠ c :: d :: s :=
    fun h_digit => toDigits_ne_of_mem h_digit (List.mem_cons_of_mem _ List.mem_cons_self)
  have h_sign : dropSign (Nat.toDigits 10 n) = (false, Nat.toDigits 10 n) := by
    unfold dropSign
    split
    next h_eq => exact absurd h_eq (h_first (by decide))
    next h_eq => exact absurd h_eq (h_first (by decide))
    next => rfl
  have h_wide : wideInteger? (Nat.toDigits 10 n) = some (n : Int) := by
    unfold wideInteger?
    split
    next h_eq => exact absurd h_eq (h_second (by decide))
    next h_eq => exact absurd h_eq (h_second (by decide))
    next h_eq => exact absurd h_eq (h_second (by decide))
    next =>
      simp only [h_sign, decimal?_toDigits (Nat.lt_trans h (by decide)), Option.map_some]
      rfl
  have h_range : -0x8000000000000000 ≤ (n : Int) ∧ (n : Int) < 0x8000000000000000 := by omega
  rw [integer?, h_wide, Option.filter_some, if_pos (decide_eq_true h_range)]

theorem scalar?_toDigits {n : Nat} (h : n < 2 ^ 63) :
    scalar? (Nat.toDigits 10 n) = some (.integer n) := by
  have h_word : ∀ {c : Char} {s : List Char}, c.isDigit = false → Nat.toDigits 10 n ≠ c :: s :=
    fun h_digit => toDigits_ne_of_mem h_digit List.mem_cons_self
  rw [scalar?, if_neg (h_word (by decide)), if_neg (h_word (by decide)), integer?_toDigits h]

theorem readScalar?_toDigits {n : Nat} (h : n < 2 ^ 63) (rest : List Char) :
    readScalar? (Nat.toDigits 10 n ++ '\n' :: rest) = some (.integer n, '\n' :: rest) := by
  have h_scalar : ∀ c ∈ Nat.toDigits 10 n, isScalarChar c = true := by
    intro c h_mem
    simp [isScalarChar, isBareChar_of_mem_toDigits h_mem]
  obtain ⟨h_take, h_drop⟩ := span_append h_scalar (by decide : isScalarChar '\n' = false) rest
  simp only [readScalar?, h_drop, h_take, scalar?_toDigits h, Option.map_some]
  rfl

/-! ## Texts -/

theorem value?_of_quote (n depth : Nat) {quote : Char} (h : quote = '"' ∨ quote = '\'')
    (t : List Char) :
    value? (n + 1) depth (quote :: t) = (Quoted.read? (quote :: t)).map
      fun (text, r) => (.string (String.ofList text), r) := by
  rcases h with rfl | rfl <;> cases depth <;> rfl

/-- Behind a text in quotes comes no further quote. -/
theorem value?_quoted (n depth : Nat) (s : String) {rest : List Char}
    (h_double : rest.head? ≠ some '"') (h_single : rest.head? ≠ some '\'') :
    value? (n + 1) depth (Quoted.write s.toList ++ rest) = some (.string s, rest) := by
  have h_read := Quoted.read?_write s.toList h_double h_single
  obtain ⟨quote, t, h_quote, h_write⟩ := Quoted.exists_write_eq s.toList
  rw [h_write, List.cons_append] at h_read ⊢
  rw [value?_of_quote n depth h_quote, h_read, Option.map_some]
  simp only [String.ofList_toList]

theorem dropLayout_quoted (s rest : List Char) :
    dropLayout false (Quoted.write s ++ rest) = some (Quoted.write s ++ rest) := by
  obtain ⟨quote, t, h_quote, h_write⟩ := Quoted.exists_write_eq s
  rw [h_write]
  rcases h_quote with rfl | rfl <;> rfl

/-! ## Arrays -/

/-- An item on a line of its own, as it is written. -/
def itemLine (s : String) : List Char :=
  "\n    ".toList ++ Quoted.write s.toList ++ [',']

theorem itemLine_append (s : String) (rest : List Char) :
    itemLine s ++ rest = "\n    ".toList ++ (Quoted.write s.toList ++ ',' :: rest) := by
  show "\n    ".toList ++ Quoted.write s.toList ++ [','] ++ rest = _
  simp only [List.append_assoc, List.singleton_append]

/-- A text in quotes is read as an item, and what follows decides how the array goes on. -/
theorem items?_quoted (n depth : Nat) (s : String) {rest : List Char}
    (h_double : rest.head? ≠ some '"') (h_single : rest.head? ≠ some '\'') :
    items? (n + 2) depth (Quoted.write s.toList ++ rest) =
      (dropLayout false rest).bind fun
        | ',' :: r => (items? (n + 1) depth r).map fun (vs, r) => (.string s :: vs, r)
        | ']' :: r => some ([.string s], r)
        | _ => none := by
  rw [items?, dropLayout_quoted, Option.bind_eq_bind, Option.bind_some]
  have h_value := value?_quoted n depth s h_double h_single
  obtain ⟨quote, t, h_quote, h_write⟩ := Quoted.exists_write_eq s.toList
  rw [h_write, List.cons_append] at h_value ⊢
  split
  next h_eq =>
    rw [(List.cons.inj h_eq).1] at h_quote
    exact absurd h_quote (by decide)
  next =>
    rw [h_value]
    rfl

theorem length_le_itemLines (items : List String) :
    items.length ≤ (items.flatMap itemLine).length := by
  induction items with
  | nil => exact Nat.le_refl _
  | cons s items ih =>
    have h_comma : 0 < (itemLine s).length :=
      List.length_pos_of_mem (List.mem_append_right _ List.mem_cons_self)
    rw [List.flatMap_cons, List.length_append, List.length_cons]
    omega

theorem items?_lines (items : List String) {n : Nat} (h : items.length ≤ n) (depth : Nat)
    (rest : List Char) :
    items? (n + 1) depth (items.flatMap itemLine ++ '\n' :: ']' :: rest) =
      some (items.map .string, rest) := by
  induction items generalizing n with
  | nil => rfl
  | cons s items ih =>
    obtain ⟨n, rfl⟩ : ∃ m, n = m + 1 :=
      Nat.exists_eq_add_of_le' (Nat.le_trans (Nat.le_add_left 1 _) h)
    have h_layout : ∀ u, items? (n + 2) depth ("\n    ".toList ++ u) = items? (n + 2) depth u :=
      fun _ => rfl
    have h_rest := ih (Nat.le_of_succ_le_succ h)
    rw [List.flatMap_cons, List.append_assoc, itemLine_append, h_layout,
      items?_quoted n depth s (by simp) (by simp)]
    show (items? (n + 1) depth _).map _ = _
    rw [h_rest]
    rfl

/-- A number is small enough to be read as an integer. -/
def Plain.InRange : Plain → Prop
  | number n => n < 2 ^ 63
  | text _ => True
  | texts _ => True

theorem Plain.length_write_pos (p : Plain) : 0 < p.write.length := by
  match p with
  | .number k => exact Nat.length_toDigits_pos
  | .text s =>
    obtain ⟨quote, t, -, h_write⟩ := Quoted.exists_write_eq s.toList
    rw [Plain.write, h_write]
    exact Nat.succ_pos _
  | .texts [] => decide
  | .texts [s] => exact Nat.succ_pos _
  | .texts (s :: t :: items) => exact Nat.succ_pos _

theorem value?_write {p : Plain} (h : p.InRange) {n : Nat} (h_length : p.write.length ≤ n)
    (depth : Nat) (rest : List Char) :
    value? n (depth + 1) (p.write ++ '\n' :: rest) = some (p.value, '\n' :: rest) := by
  obtain ⟨n, rfl⟩ : ∃ m, n = m + 1 :=
    Nat.exists_eq_add_of_le' (Nat.le_trans p.length_write_pos h_length)
  match p with
  | .number k =>
    have h_read := readScalar?_toDigits h rest
    show value? (n + 1) (depth + 1) (Nat.toDigits 10 k ++ '\n' :: rest) = _
    cases h_digits : Nat.toDigits 10 k with
    | nil => exact absurd h_digits Nat.toDigits_ne_nil
    | cons d digits =>
      have h_digit : d.isDigit = true := isDigit_of_mem_toDigits (h_digits ▸ List.mem_cons_self)
      have h_ne : ∀ {c : Char}, c.isDigit = false → d ≠ c := by
        rintro c h_other rfl
        rw [h_digit] at h_other
        cases h_other
      have h_bracket : d ≠ '[' := h_ne (by decide)
      have h_brace : d ≠ '\x7b' := h_ne (by decide)
      have h_double : d ≠ '"' := h_ne (by decide)
      have h_single : d ≠ '\'' := h_ne (by decide)
      rw [h_digits, List.cons_append] at h_read
      rw [List.cons_append, value?]
      · exact h_read
      all_goals simp [h_bracket, h_brace, h_double, h_single]
  | .text s =>
    exact value?_quoted n (depth + 1) s (by simp) (by simp)
  | .texts [] =>
    obtain ⟨n, rfl⟩ : ∃ m, n = m + 1 := Nat.exists_eq_add_of_le' (Nat.le_of_succ_le_succ h_length)
    rfl
  | .texts [s] =>
    obtain ⟨quote, t, -, h_write⟩ := Quoted.exists_write_eq s.toList
    have h_three : 2 ≤ n := by
      rw [Plain.write, h_write] at h_length
      simp at h_length
      omega
    obtain ⟨n, rfl⟩ : ∃ m, n = m + 2 := Nat.exists_eq_add_of_le' h_three
    have h_text : (Plain.texts [s]).write ++ '\n' :: rest =
        '[' :: (Quoted.write s.toList ++ ']' :: '\n' :: rest) := by
      simp [Plain.write]
    rw [h_text]
    show (items? (n + 2) depth _).map _ = _
    rw [items?_quoted n depth s (by simp) (by simp)]
    rfl
  | .texts (s :: t :: items) =>
    have h_text : (Plain.texts (s :: t :: items)).write ++ '\n' :: rest =
        '[' :: ((s :: t :: items).flatMap itemLine ++ '\n' :: ']' :: '\n' :: rest) := by
      show '[' :: (s :: t :: items).flatMap itemLine ++ ['\n', ']'] ++ '\n' :: rest = _
      simp
    have h_items : (s :: t :: items).length + 2 ≤ n := by
      have h_lines := length_le_itemLines (s :: t :: items)
      have h_text := congrArg List.length h_text
      simp only [List.length_append, List.length_cons] at h_text h_lines h_length ⊢
      omega
    obtain ⟨n, rfl⟩ : ∃ m, n = m + 1 := Nat.exists_eq_add_of_le' (Nat.le_trans (by simp) h_items)
    rw [h_text]
    show (items? (n + 1) depth _).map _ = _
    rw [items?_lines (s :: t :: items) (by omega)]
    rfl

end FlashImage.Toml
