import FlashImage.Proofs.Except
import FlashImage.Proofs.Literal.Spelled
import FlashImage.Proofs.Text

/-!
# Which integer literals are read

* `Literal.Denotes`: the literals as they are documented;
* `Literal.Strays`: the literals with a second plus sign, which are read as well;
* `Literal.word?_trim`, `Literal.word?_hex`: blanks around a word make no difference, and
  a word is read back from how it is written;
* `Literal.parse?_eq_some_iff`: no other text is read, and each has its positional value.
-/

namespace FlashImage.Literal

open Text

/-! ## Literals -/

/-- An optional character of a literal. -/
def Optional (c : Char) (s : List Char) : Prop := s = [] ∨ s = [c]

/-- The marks behind a zero that announce a radix, in lower case. -/
def marks : List (Char × Nat) := [('x', 16), ('o', 8), ('b', 2)]

/-- A literal without its sign, and its value. -/
inductive Unsigned : List Char → Nat → Prop where
  | marked {mark : Char} {radix : Nat} {under body : List Char} {ds : List Nat}
      (announced : (mark.toLower, radix) ∈ marks) (gap : Optional '_' under)
      (spelled : Spelled radix body ds) :
      Unsigned ('0' :: mark :: (under ++ body)) (Nat.ofDigits radix ds.reverse)
  | decimal {body : List Char} {ds : List Nat} (spelled : Spelled 10 body ds)
      (leading : ds.head? = some 0 → ∀ d ∈ ds, d = 0) :
      Unsigned body (Nat.ofDigits 10 ds.reverse)

/-- The documented literals and their values. -/
def Denotes (t : List Char) (v : Nat) : Prop :=
  ∃ plus body, Optional '+' plus ∧ t = plus ++ body ∧ Unsigned body v

/-- Digits behind a plus sign, which one underscore may part from it. -/
def Plussed (radix : Nat) (s : List Char) (ds : List Nat) : Prop :=
  ∃ under body, Optional '_' under ∧ s = '+' :: (under ++ body) ∧ Spelled radix body ds

/-- The other texts that are read: a plus sign stands directly in front of the digits,
behind the radix mark or behind the first plus sign, and decimals may begin with zeros. -/
inductive Strays : List Char → Nat → Prop where
  | marked {mark : Char} {radix : Nat} {plus under body : List Char} {ds : List Nat}
      (sign : Optional '+' plus) (announced : (mark.toLower, radix) ∈ marks)
      (gap : Optional '_' under) (plussed : Plussed radix body ds) :
      Strays (plus ++ '0' :: mark :: (under ++ body)) (Nat.ofDigits radix ds.reverse)
  | decimal {body : List Char} {ds : List Nat} (plussed : Plussed 10 body ds) :
      Strays ('+' :: body) (Nat.ofDigits 10 ds.reverse)

theorem mem_marks_iff {mark : Char} {base : Nat} :
    (mark.toLower, base) ∈ marks ↔
      ((mark = 'x' ∨ mark = 'X') ∧ base = 16) ∨ ((mark = 'o' ∨ mark = 'O') ∧ base = 8) ∨
        ((mark = 'b' ∨ mark = 'B') ∧ base = 2) := by
  have h_case : ∀ lower upper : Char, 0x61 ≤ lower.toNat → lower.toNat ≤ 0x7A →
      upper.toNat + 0x20 = lower.toNat → (mark.toLower = lower ↔ mark = lower ∨ mark = upper) := by
    intro lower upper h_low h_high h_upper
    rw [← Char.toNat_inj, ← Char.toNat_inj, ← Char.toNat_inj, toNat_toLower]
    split_ifs <;> omega
  simp only [marks, List.mem_cons, List.not_mem_nil, or_false, Prod.mk.injEq]
  rw [h_case 'x' 'X' (by decide) (by decide) (by decide),
    h_case 'o' 'O' (by decide) (by decide) (by decide),
    h_case 'b' 'B' (by decide) (by decide) (by decide)]

theorem radix_of_marked {mark : Char} {base : Nat} (announced : (mark.toLower, base) ∈ marks)
    (s : List Char) : radix ('0' :: mark :: s) = (base, s) := by
  obtain ⟨rfl | rfl, rfl⟩ | ⟨rfl | rfl, rfl⟩ | ⟨rfl | rfl, rfl⟩ := mem_marks_iff.mp announced
  all_goals rfl

/-- A text has a mark or is taken for a decimal as it stands. -/
theorem radix_cases (s : List Char) :
    (∃ mark base rest, (mark.toLower, base) ∈ marks ∧ s = '0' :: mark :: rest ∧
      radix s = (base, rest)) ∨ radix s = (10, s) := by
  unfold radix
  split
  on_goal 7 => exact .inr rfl
  all_goals exact .inl ⟨_, _, _, by decide, rfl, rfl⟩

theorem forall_marks {m : Char} {base : Nat} (h_mem : (m, base) ∈ marks) :
    (base ≠ 10 ∧ 0 < base ∧ base ≤ 16) ∧ m ≠ '_' ∧ m ≠ '+' ∧ ∀ d < 10, Nat.digitChar d ≠ m := by
  have h_all : ∀ p ∈ marks, (p.2 ≠ 10 ∧ 0 < p.2 ∧ p.2 ≤ 16) ∧
      p.1 ≠ '_' ∧ p.1 ≠ '+' ∧ ∀ d < 10, Nat.digitChar d ≠ p.1 := by decide
  exact h_all _ h_mem

theorem radix_of_spelled {s : List Char} {ds : List Nat} (spelled : Spelled 10 s ds) :
    radix s = (10, s) := by
  rcases radix_cases s with ⟨mark, base, rest, announced, rfl, -⟩ | h_decimal
  · obtain ⟨-, h_underscore, -, h_digit⟩ := forall_marks announced
    rcases spelled.mem (List.mem_cons_of_mem _ List.mem_cons_self) with rfl | ⟨d, digit⟩
    · exact absurd rfl h_underscore
    · exact absurd digit.2.symm (h_digit d digit.1)
  · exact h_decimal

theorem radix_of_plussed {base : Nat} {s : List Char} {ds : List Nat}
    (plussed : Plussed base s ds) : radix s = (10, s) := by
  obtain ⟨under, body, -, rfl, -⟩ := plussed
  rfl

/-! ## What can be dropped -/

theorem dropPlus_eq_self {s : List Char} (h : s.head? ≠ some '+') : dropPlus s = s := by
  unfold dropPlus
  split
  next => exact absurd rfl h
  next => rfl

theorem dropPlus_append {plus body : List Char} (sign : Optional '+' plus)
    (h : body.head? ≠ some '+') : dropPlus (plus ++ body) = body := by
  rcases sign with rfl | rfl
  · exact dropPlus_eq_self h
  · rfl

theorem exists_sign (t : List Char) :
    ∃ plus, Optional '+' plus ∧ t = plus ++ dropPlus t ∧
      ((dropPlus t).head? = some '+' → plus = ['+']) := by
  by_cases h_plus : t.head? = some '+'
  · obtain ⟨s, rfl⟩ := List.head?_eq_some_iff.mp h_plus
    exact ⟨['+'], .inr rfl, rfl, fun _ => rfl⟩
  · rw [dropPlus_eq_self h_plus]
    exact ⟨[], .inl rfl, rfl, fun h => absurd h h_plus⟩

theorem Plussed.head?_eq {radix : Nat} {s : List Char} {ds : List Nat}
    (plussed : Plussed radix s ds) : s.head? = some '+' := by
  obtain ⟨under, body, -, rfl, -⟩ := plussed
  rfl

theorem dropMarkUnderscore_ten (s : List Char) : dropMarkUnderscore 10 s = s := by
  unfold dropMarkUnderscore
  split <;> rfl

theorem dropMarkUnderscore_append {base : Nat} (h_base : base ≠ 10) {under body : List Char}
    (gap : Optional '_' under) (h : body.head? ≠ some '_') :
    dropMarkUnderscore base (under ++ body) = body := by
  rcases gap with rfl | rfl
  · rw [List.nil_append]
    unfold dropMarkUnderscore
    split
    next => exact absurd rfl h
    next => rfl
  · exact if_neg h_base

theorem exists_gap {base : Nat} (h_base : base ≠ 10) (s : List Char) :
    ∃ under, Optional '_' under ∧ s = under ++ dropMarkUnderscore base s := by
  by_cases h_underscore : s.head? = some '_'
  · obtain ⟨u, rfl⟩ := List.head?_eq_some_iff.mp h_underscore
    refine ⟨['_'], .inr rfl, ?_⟩
    rw [dropMarkUnderscore, if_neg h_base]
    rfl
  · refine ⟨[], .inl rfl, ?_⟩
    exact (dropMarkUnderscore_append h_base (.inl rfl) h_underscore).symm

/-! ## The digits that are read -/

theorem plussed_iff {radix : Nat} (h_radix : radix ≤ 16) {s : List Char} {ds : List Nat} :
    Plussed radix s ds ↔ wellSeparated s = true ∧
      ∃ rest, s.filter (· != '_') = '+' :: rest ∧ rest ≠ [] ∧
        List.Forall₂ (IsDigit radix) rest ds := by
  have h_plus : '+' ≠ '_' := by decide
  constructor
  · rintro ⟨under, body, gap, rfl, spelled⟩
    have h_separated := spelled.wellSeparated h_radix
    have h_digits := spelled.digits h_radix
    have h_some : body.filter (· != '_') ≠ [] := by
      obtain ⟨c, d, u, rfl, digit⟩ := spelled.exists_cons
      rw [filter_cons_digit (digit.ne_underscore h_radix)]
      exact List.cons_ne_nil _ _
    rw [wellSeparated_cons_iff h_plus, filter_cons_digit h_plus]
    rcases gap with rfl | rfl
    · exact ⟨.inr (.inl h_separated), _, rfl, h_some, h_digits⟩
    · exact ⟨.inr (.inr ⟨_, rfl, h_separated⟩), _, rfl, h_some, h_digits⟩
  · rintro ⟨h_separated, rest, h_rest, h_some, h_digits⟩
    cases s with
    | nil => cases h_rest
    | cons c u =>
      rw [filter_cons_digit (ne_underscore_of_wellSeparated h_separated)] at h_rest
      obtain ⟨rfl, rfl⟩ := List.cons.inj h_rest
      obtain rfl | h_next | ⟨w, rfl, h_gap⟩ := (wellSeparated_cons_iff h_plus _).mp h_separated
      · exact absurd rfl h_some
      · exact ⟨[], u, .inl rfl, rfl, spelled_of_wellSeparated h_next h_digits⟩
      · exact ⟨['_'], w, .inr rfl, rfl, spelled_of_wellSeparated h_gap h_digits⟩

/-- What stands behind the sign and the mark is read as digits, which a plus sign may precede. -/
def Reads (base : Nat) (s : List Char) (v : Nat) : Prop :=
  ∃ ds, v = Nat.ofDigits base ds.reverse ∧
    (Spelled base s ds ∧ (base = 10 → ds.head? = some 0 → ∀ d ∈ ds, d = 0) ∨ Plussed base s ds)

theorem reads_iff {base : Nat} (h_radix : base ≤ 16) {s plain : List Char} {v : Nat}
    (h_plain : s.filter (· != '_') = plain) :
    Reads base s v ↔
      wellSeparated s = true ∧ ¬ (base = 10 ∧ hasLeadingZero plain = true) ∧
        IsNumber base (dropPlus plain) v := by
  constructor
  · rintro ⟨ds, h_value, ⟨spelled, h_leading⟩ | plussed⟩
    · obtain ⟨h_separated, h_digits⟩ := (spelled_iff h_radix).mp spelled
      obtain ⟨c, d, u, rfl, digit⟩ := spelled.exists_cons
      have h_first := filter_cons_digit (digit.ne_underscore h_radix) u
      have h_drop : dropPlus plain = plain := by
        rw [← h_plain, h_first]
        exact dropPlus_eq_self fun h_eq => digit.ne_plus h_radix (Option.some.inj h_eq)
      rw [h_plain] at h_first h_digits
      rw [h_drop]
      refine ⟨h_separated, ?_, ?_, ds, h_digits, h_value⟩
      · rintro ⟨h_ten, h_zero⟩
        exact (hasLeadingZero_iff h_radix h_digits).mp h_zero (h_leading h_ten)
      · rw [h_first]
        exact List.cons_ne_nil _ _
    · obtain ⟨h_separated, rest, h_rest, h_some, h_digits⟩ := (plussed_iff h_radix).mp plussed
      obtain rfl : plain = '+' :: rest := h_plain.symm.trans h_rest
      exact ⟨h_separated, fun h_zero => Bool.false_ne_true h_zero.2, h_some, ds, h_digits, h_value⟩
  · rintro ⟨h_separated, h_zero, h_some, ds, h_digits, h_value⟩
    refine ⟨ds, h_value, ?_⟩
    by_cases h_plus : plain.head? = some '+'
    · obtain ⟨rest, rfl⟩ := List.head?_eq_some_iff.mp h_plus
      exact .inr ((plussed_iff h_radix).mpr ⟨h_separated, rest, h_plain, h_some, h_digits⟩)
    · rw [dropPlus_eq_self h_plus] at h_digits
      refine .inl ⟨(spelled_iff h_radix).mpr ⟨h_separated, h_plain ▸ h_digits⟩, fun h_ten => ?_⟩
      by_contra h_leading
      exact h_zero ⟨h_ten, (hasLeadingZero_iff h_radix h_digits).mpr h_leading⟩

theorem read?_eq_some_iff_reads {t rest : List Char} {base v : Nat}
    (h_split : radix (dropPlus t) = (base, rest)) (h_positive : 0 < base) (h_radix : base ≤ 16) :
    read? t = some v ↔ v < 2 ^ 64 ∧ Reads base (dropMarkUnderscore base rest) v := by
  simp only [reads_iff h_radix rfl, read?, h_split, Nat.one_shiftLeft,
    Option.ite_none_right_eq_some, Option.ite_none_left_eq_some,
    filter_cappedNumber?_eq_some_iff h_positive h_radix, Bool.and_eq_true, decide_eq_true_eq]
  tauto

/-! ## The texts that are read -/

theorem read?_of_marked {mark : Char} {base v : Nat} {plus under body : List Char}
    (sign : Optional '+' plus) (announced : (mark.toLower, base) ∈ marks)
    (gap : Optional '_' under) (h_first : body.head? ≠ some '_') :
    read? (plus ++ '0' :: mark :: (under ++ body)) = some v ↔ v < 2 ^ 64 ∧ Reads base body v := by
  obtain ⟨⟨h_base, h_positive, h_radix⟩, -⟩ := forall_marks announced
  have h_split : radix (dropPlus (plus ++ '0' :: mark :: (under ++ body))) =
      (base, under ++ body) := by
    rw [dropPlus_append sign (by rw [List.head?_cons]; decide), radix_of_marked announced]
  rw [read?_eq_some_iff_reads h_split h_positive h_radix,
    dropMarkUnderscore_append h_base gap h_first]

theorem read?_of_decimal {t body : List Char} {v : Nat} (h_drop : dropPlus t = body)
    (h_split : radix body = (10, body)) :
    read? t = some v ↔ v < 2 ^ 64 ∧ Reads 10 body v := by
  rw [read?_eq_some_iff_reads ((congrArg radix h_drop).trans h_split) (by decide) (by decide),
    dropMarkUnderscore_ten]

theorem read?_eq_some_iff {t : List Char} {v : Nat} :
    read? t = some v ↔ v < 2 ^ 64 ∧ (Denotes t v ∨ Strays t v) := by
  constructor
  · intro h_read
    obtain ⟨plus, sign, h_text, h_second⟩ := exists_sign t
    obtain ⟨mark, base, rest, announced, h_body, h_split⟩ | h_split := radix_cases (dropPlus t)
    · obtain ⟨⟨h_base, h_positive, h_radix⟩, -⟩ := forall_marks announced
      obtain ⟨under, gap, h_rest⟩ := exists_gap h_base rest
      rw [h_body, h_rest] at h_text
      obtain ⟨h_lt, ds, rfl, ⟨spelled, -⟩ | plussed⟩ :=
        (read?_eq_some_iff_reads h_split h_positive h_radix).mp h_read
      · exact ⟨h_lt, .inl ⟨plus, _, sign, h_text, .marked announced gap spelled⟩⟩
      · exact ⟨h_lt, .inr (h_text ▸ .marked sign announced gap plussed)⟩
    · obtain ⟨h_lt, ds, rfl, ⟨spelled, leading⟩ | plussed⟩ :=
        (read?_of_decimal rfl h_split).mp h_read
      · exact ⟨h_lt, .inl ⟨plus, _, sign, h_text, .decimal spelled (leading rfl)⟩⟩
      · -- one plus sign has been dropped, so the text began with two
        rw [h_second plussed.head?_eq] at h_text
        exact ⟨h_lt, .inr (h_text ▸ .decimal plussed)⟩
  · rintro ⟨h_lt, ⟨plus, body, sign, rfl, unsigned⟩ | strays⟩
    · cases unsigned with
      | marked announced gap spelled =>
        obtain ⟨⟨h_base, -, h_radix⟩, -⟩ := forall_marks announced
        have h_first := spelled.head?_ne fun digit => digit.ne_underscore h_radix
        exact (read?_of_marked sign announced gap h_first).mpr
          ⟨h_lt, _, rfl, .inl ⟨spelled, fun h_ten => absurd h_ten h_base⟩⟩
      | decimal spelled leading =>
        have h_first := spelled.head?_ne fun digit => digit.ne_plus (by decide)
        exact (read?_of_decimal (dropPlus_append sign h_first) (radix_of_spelled spelled)).mpr
          ⟨h_lt, _, rfl, .inl ⟨spelled, fun _ => leading⟩⟩
    · cases strays with
      | marked sign announced gap plussed =>
        have h_first := plussed.head?_eq ▸ (by decide : some '+' ≠ some '_')
        exact (read?_of_marked sign announced gap h_first).mpr ⟨h_lt, _, rfl, .inr plussed⟩
      | decimal plussed =>
        exact (read?_of_decimal rfl (radix_of_plussed plussed)).mpr ⟨h_lt, _, rfl, .inr plussed⟩

/-! ## Words -/

theorem parse?_trim (s : String) : parse? (String.ofList (trim s.toList)) = parse? s := by
  rw [parse?, String.toList_ofList, trim_trim, parse?]

theorem word?_trim (s : String) : word? (String.ofList (trim s.toList)) = word? s := by
  rw [word?, parse?_trim, word?]

/-- Digits are no blanks. -/
theorem isBlank_of_isDigit {radix : Nat} (h_radix : radix ≤ 16) {c : Char} {d : Nat}
    (digit : IsDigit radix c d) : isBlank c = false := by
  have h_range := digit.range h_radix
  simp only [isBlank, Bool.or_eq_false_iff, Bool.and_eq_false_iff, decide_eq_false_iff_not,
    beq_eq_false_iff_ne]
  omega

/-- A number is read back from how it is written in hexadecimal. -/
theorem parse?_hex {n : Nat} (h_lt : n < 2 ^ 64) (width : Nat) : parse? (hex width n) = some n := by
  have number := (isNumber_toDigits (by decide : 1 < 16) (Nat.le_refl 16) n).zeros (by decide)
    (width - (Nat.toDigits 16 n).length)
  have h_text : (hex width n).toList =
      '0' :: 'x' :: (List.replicate (width - (Nat.toDigits 16 n).length) '0' ++
        Nat.toDigits 16 n) := by
    simp [hex]
  generalize List.replicate _ '0' ++ Nat.toDigits 16 n = body at number h_text
  obtain ⟨h_some, ds, digits, rfl⟩ := number
  have h_blank : ∀ c ∈ '0' :: 'x' :: body, isBlank c = false := by
    simp only [List.forall_mem_cons]
    refine ⟨by decide, by decide, fun c h_mem => ?_⟩
    obtain ⟨d, -, digit⟩ := exists_of_mem_forall₂ digits h_mem
    exact isBlank_of_isDigit (Nat.le_refl 16) digit
  have announced : ('x'.toLower, 16) ∈ marks := by decide
  rw [parse?, h_text, trim_eq_self h_blank, read?_eq_some_iff]
  exact ⟨h_lt, .inl ⟨[], _, .inl rfl, rfl,
    .marked announced (.inl rfl) (spelled_of_digits h_some digits)⟩⟩

theorem word?_hex (width : Nat) (w : UInt32) : word? (hex width w.toNat) = some w := by
  have h_lt : w.toNat < 1 <<< 32 := w.toNat_lt
  rw [word?, parse?_hex (Nat.lt_trans h_lt (by decide)), Option.filter_some,
    if_pos (decide_eq_true h_lt), Option.map_some, UInt32.ofNat_toNat]

/-! ## Second plus signs -/

theorem Unsigned.not_mem_plus {body : List Char} {v : Nat} (unsigned : Unsigned body v) :
    '+' ∉ body := by
  have h_spelled : ∀ {radix : Nat} {s : List Char} {ds : List Nat}, radix ≤ 16 →
      Spelled radix s ds → '+' ∉ s := by
    intro radix s ds h_radix spelled h_mem
    obtain h_eq | ⟨d, digit⟩ := spelled.mem h_mem
    · exact absurd h_eq (by decide)
    · exact digit.ne_plus h_radix rfl
  cases unsigned with
  | @marked mark radix under body ds announced gap spelled =>
    obtain ⟨⟨-, -, h_radix⟩, -, h_mark, -⟩ := forall_marks announced
    have h_second : '+' ≠ mark := by
      rintro rfl
      exact h_mark rfl
    have h_under : '+' ∉ under := by rcases gap with rfl | rfl <;> decide
    simp [h_second, h_under, h_spelled h_radix spelled]
  | decimal spelled _ => exact h_spelled (by decide) spelled

theorem Denotes.not_mem_tail {t : List Char} {v : Nat} (denotes : Denotes t v) : '+' ∉ t.tail := by
  obtain ⟨plus, body, sign, rfl, unsigned⟩ := denotes
  rcases sign with rfl | rfl
  · exact fun h_mem => unsigned.not_mem_plus (List.mem_of_mem_tail h_mem)
  · exact unsigned.not_mem_plus

theorem Strays.mem_tail {t : List Char} {v : Nat} (strays : Strays t v) : '+' ∈ t.tail := by
  cases strays with
  | marked sign announced gap plussed =>
    have h_mem := List.mem_of_mem_head? plussed.head?_eq
    rcases sign with rfl | rfl <;> simp [h_mem]
  | decimal plussed => exact List.mem_of_mem_head? plussed.head?_eq

/-- A text is read if, without the blanks around it, it is a documented literal below
`2 ^ 64`, and it then has its positional value; nothing else is read but texts with a
second plus sign in front of the digits. -/
theorem parse?_eq_some_iff (s : String) (v : Nat) :
    (parse? s = some v ↔
        v < 2 ^ 64 ∧ (Denotes (trim s.toList) v ∨ Strays (trim s.toList) v)) ∧
      (Denotes (trim s.toList) v → '+' ∉ (trim s.toList).tail) ∧
      (Strays (trim s.toList) v → '+' ∈ (trim s.toList).tail) ∧
      ('+' ∉ (trim s.toList).tail →
        (parse? s = some v ↔ v < 2 ^ 64 ∧ Denotes (trim s.toList) v)) := by
  have h_read : parse? s = some v ↔
      v < 2 ^ 64 ∧ (Denotes (trim s.toList) v ∨ Strays (trim s.toList) v) := read?_eq_some_iff
  refine ⟨h_read, Denotes.not_mem_tail, Strays.mem_tail, fun h_single => ?_⟩
  have h_regular : ¬ Strays (trim s.toList) v := fun strays => h_single strays.mem_tail
  rw [h_read, or_iff_left h_regular]

/-- Behind a second plus sign a decimal may begin with a zero. -/
theorem parse?_double_plus :
    parse? "++010" = some 10 ∧ ¬ ∃ v, Denotes (trim "++010".toList) v := by
  refine ⟨by decide, ?_⟩
  rintro ⟨v, denotes⟩
  exact denotes.not_mem_tail (by decide)

end FlashImage.Literal
