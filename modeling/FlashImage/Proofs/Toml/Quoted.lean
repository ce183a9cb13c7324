import FlashImage.Toml.Quoted.Reading
import FlashImage.Toml.Quoted.Writing

/-!
# Quoted texts are read back

Whatever a text holds, what is written for it is read as that text, and reading
stops right behind it.  The styles differ in how much has to be said for this:
a text between tripled quotes may hold quotes itself, as long as no three of
them come together.
-/

namespace FlashImage.Toml.Quoted

open Text

/-! ## Characters -/

theorem isBlockChar_of_not_isControl {c : Char} (h : isControl c = false) :
    isBlockChar c = true := by
  simp only [isControl, isBlockChar, isLineChar, Bool.or_eq_false_iff, Bool.and_eq_false_imp,
    Bool.or_eq_true, Bool.and_eq_true, beq_iff_eq, bne_iff_ne, decide_eq_true_eq,
    beq_eq_false_iff_ne, ne_eq, bne_eq_false_iff_eq] at h ⊢
  by_cases h_low : c.toNat < 0x20
  · by_cases h_tab : c = '\t'
    · exact .inr (.inl h_tab)
    · exact .inl (h.1 ⟨h_low, h_tab⟩)
  · exact .inr (.inr ⟨Nat.le_of_not_lt h_low, h.2⟩)

theorem isLineChar_of_isBlockChar {c : Char} (h : isBlockChar c = true) (h_break : c ≠ '\n') :
    isLineChar c = true := by
  rw [isBlockChar, Bool.or_eq_true, beq_iff_eq] at h
  exact h.resolve_left h_break

theorem isBlockChar_of_isLineChar {c : Char} (h : isLineChar c = true) : isBlockChar c = true := by
  rw [isBlockChar, h, Bool.or_true]

theorem ne_break_of_isLineChar {c : Char} (h : isLineChar c = true) : c ≠ '\n' := by
  rintro rfl
  revert h
  decide

/-! ## Escapes -/

/-- A character that stands for itself between double quotes. -/
structure Verbatim (c : Char) : Prop where
  line : isLineChar c = true
  ne_quote : c ≠ '"'
  ne_slash : c ≠ '\\'

/-- What stands for a character between double quotes. -/
inductive Spells : Char → List Char → Prop where
  | itself {c : Char} (verbatim : Verbatim c) : Spells c [c]
  | letter {c e : Char} (h : escaped? e = some c) : Spells c ['\\', e]
  | code {c : Char} (low : c.toNat < 0x80) : Spells c ('\\' :: 'u' :: fourDigits c.toNat)

theorem spells_escape (c : Char) : Spells c (escape c) := by
  unfold escape
  split
  case h_8 c _ h_tab h_break _ _ h_quote h_slash =>
    split
    next h_control =>
      refine .code ?_
      simp only [isControl, Bool.or_eq_true, Bool.and_eq_true, decide_eq_true_eq, beq_iff_eq]
        at h_control
      omega
    next h_control =>
      have block := isBlockChar_of_not_isControl (Bool.not_eq_true _ ▸ h_control)
      exact .itself ⟨isLineChar_of_isBlockChar block h_break, h_quote, h_slash⟩
  all_goals exact .letter rfl

theorem coded?_fourDigits : ∀ n < 0x80, coded? (fourDigits n) = some (Char.ofNat n) := by
  decide +kernel

theorem verbatim_of_mem_fourDigits {n : Nat} (low : n < 0x80) {d : Char}
    (h_mem : d ∈ fourDigits n) : Verbatim d := by
  have h : ∀ n < 0x80,
      (fourDigits n).all (fun d => isLineChar d && d != '"' && d != '\\') = true := by
    decide +kernel
  have h_digit := List.all_eq_true.mp (h n low) d h_mem
  rw [Bool.and_eq_true, Bool.and_eq_true, bne_iff_ne, bne_iff_ne] at h_digit
  obtain ⟨⟨line, ne_quote⟩, ne_slash⟩ := h_digit
  exact ⟨line, ne_quote, ne_slash⟩

theorem isLineChar_of_escaped? {e c : Char} (h : escaped? e = some c) : isLineChar e = true := by
  unfold escaped? at h
  split at h
  case h_8 => cases h
  all_goals decide

theorem unescape_cons {c : Char} (block : isBlockChar c = true) (h_slash : c ≠ '\\')
    (t : List Char) : unescape false (c :: t) = (unescape false t).map (c :: ·) := by
  simp [unescape, h_slash, block]

namespace Spells

variable {c : Char} {u t : List Char}

theorem unescape_append (h : Spells c u) :
    unescape false (u ++ t) = (unescape false t).map (c :: ·) := by
  cases h with
  | itself verbatim =>
    exact unescape_cons (isBlockChar_of_isLineChar verbatim.line) verbatim.ne_slash t
  | letter h =>
    unfold escaped? at h
    split at h
    case h_8 => cases h
    all_goals
      cases h
      rfl
  | code low =>
    have h_coded := coded?_fourDigits c.toNat low
    rw [Char.ofNat_toNat] at h_coded
    unfold fourDigits at h_coded ⊢
    simp only [List.cons_append, List.nil_append, unescape, h_coded, Option.bind_eq_bind,
      Option.bind_some]

theorem all_isLineChar (h : Spells c u) : ∀ d ∈ u, isLineChar d = true := by
  cases h with
  | itself verbatim => simpa using verbatim.line
  | letter h => simpa using ⟨by decide, isLineChar_of_escaped? h⟩
  | code low =>
    have h_digits : ∀ d ∈ fourDigits c.toNat, isLineChar d = true :=
      fun d h_mem => (verbatim_of_mem_fourDigits low h_mem).line
    simpa using ⟨by decide, by decide, h_digits⟩

end Spells

theorem unescape_flatMap_escape (s : List Char) : unescape false (s.flatMap escape) = some s := by
  induction s with
  | nil => rfl
  | cons c s ih =>
    rw [List.flatMap_cons, (spells_escape c).unescape_append, ih]
    rfl

/-! ## Texts on one line -/

theorem lineExtent_append {u : List Char} (verbatim : ∀ c ∈ u, Verbatim c) (t : List Char) :
    lineExtent (u ++ t) = (lineExtent t).map fun (body, rest) => (u ++ body, rest) := by
  induction u with
  | nil => simp
  | cons c u ih =>
    have h_verbatim := verbatim c List.mem_cons_self
    have h_break := ne_break_of_isLineChar h_verbatim.line
    have h_cons : lineExtent (c :: (u ++ t)) =
        (lineExtent (u ++ t)).map fun (body, rest) => (c :: body, rest) := by
      rw [lineExtent, if_neg h_break]
      · exact h_verbatim.ne_quote
      · exact fun _ _ h_slash => absurd h_slash h_verbatim.ne_slash
    rw [List.cons_append, h_cons, ih fun d h_mem => verbatim d (List.mem_cons_of_mem _ h_mem),
      Option.map_map]
    rfl

theorem lineExtent_pair {e : Char} (line : isLineChar e = true) (t : List Char) :
    lineExtent ('\\' :: e :: t) =
      (lineExtent t).map fun (body, rest) => ('\\' :: e :: body, rest) := by
  rw [lineExtent, if_neg (ne_break_of_isLineChar line)]

theorem Spells.lineExtent_append {c : Char} {u : List Char} (h : Spells c u) (t : List Char) :
    lineExtent (u ++ t) = (lineExtent t).map fun (body, rest) => (u ++ body, rest) := by
  cases h with
  | itself verbatim => exact Quoted.lineExtent_append (by simpa using verbatim) t
  | letter h => exact lineExtent_pair (isLineChar_of_escaped? h) t
  | code low =>
    have h_digits := Quoted.lineExtent_append (u := fourDigits c.toNat)
      (fun d h_mem => verbatim_of_mem_fourDigits low h_mem) t
    rw [List.cons_append, List.cons_append, lineExtent_pair (by decide), h_digits, Option.map_map]
    rfl

theorem lineExtent_flatMap_escape (s rest : List Char) :
    lineExtent (s.flatMap escape ++ '"' :: rest) = some (s.flatMap escape, rest) := by
  induction s with
  | nil => rfl
  | cons c s ih =>
    rw [List.flatMap_cons, List.append_assoc, (spells_escape c).lineExtent_append, ih]
    rfl

/-! ## Blocks -/

/-- A text that does not end the block that it stands in, and neither does it with
`run` quotes in front of it. -/
inductive Body (quote : Char) (escapes : Bool) : Nat → List Char → Prop where
  | nil {run : Nat} (few : run ≤ 2) : Body quote escapes run []
  | quote {run : Nat} {t : List Char} (rest : Body quote escapes (run + 1) t) :
      Body quote escapes run (quote :: t)
  | char {run : Nat} {c : Char} {t : List Char} (few : run ≤ 2) (h_quote : c ≠ quote)
      (h_slash : escapes = true → c ≠ '\\') (rest : Body quote escapes 0 t) :
      Body quote escapes run (c :: t)
  | pair {run : Nat} {c : Char} {t : List Char} (few : run ≤ 2) (h : escapes = true)
      (rest : Body quote escapes 0 t) : Body quote escapes run ('\\' :: c :: t)

section Blocks

variable {quote : Char} {escapes : Bool}

theorem blockExtent_cons {c : Char} (h_quote : c ≠ quote) (h_slash : escapes = true → c ≠ '\\')
    (t : List Char) :
    blockExtent quote escapes (c :: t) =
      (blockExtent quote escapes t).map fun (body, rest) => (c :: body, rest) := by
  match t with
  | [] => rfl
  | [_] => rfl
  | a :: b :: t =>
    rw [blockExtent, if_neg fun h => h_quote h.1, if_neg fun h => h_slash h.1 h.2]

theorem blockExtent_pair (h_quote : quote ≠ '\\') (c : Char) (t : List Char) :
    blockExtent quote true ('\\' :: c :: t) =
      (blockExtent quote true t).map fun (body, rest) => ('\\' :: c :: body, rest) := by
  cases t with
  | nil => rfl
  | cons d t => rw [blockExtent, if_neg fun h => h_quote h.1.symm, if_pos ⟨rfl, rfl⟩]

/-- Up to two quotes in front of another character belong to the text. -/
theorem blockExtent_replicate {run : Nat} (few : run ≤ 2) {c : Char} (h_quote : c ≠ quote)
    (h_slash : quote ≠ '\\') (t : List Char) :
    blockExtent quote escapes (List.replicate run quote ++ c :: t) =
      (blockExtent quote escapes (c :: t)).map fun (body, rest) =>
        (List.replicate run quote ++ body, rest) := by
  have step : ∀ a s, ¬ (a = quote ∧ s.head? = some quote) →
      blockExtent quote escapes (quote :: a :: s) =
        (blockExtent quote escapes (a :: s)).map fun (body, rest) => (quote :: body, rest) := by
    intro a s h_triple
    cases s with
    | nil => rfl
    | cons b s =>
      rw [blockExtent, if_neg (by simpa using h_triple), if_neg fun h => h_slash h.2]
  match run, few with
  | 0, _ => simp
  | 1, _ => exact step c t fun h => h_quote h.1
  | 2, _ =>
    show blockExtent quote escapes (quote :: quote :: c :: t) = _
    rw [step quote (c :: t) (by simpa using h_quote), step c t fun h => h_quote h.1, Option.map_map]
    rfl

theorem Body.blockExtent {run : Nat} {t rest : List Char} (h : Body quote escapes run t)
    (h_slash : quote ≠ '\\') (h_rest : rest.head? ≠ some quote) :
    blockExtent quote escapes
        (List.replicate run quote ++ (t ++ quote :: quote :: quote :: rest)) =
      some (List.replicate run quote ++ t, rest) := by
  induction h with
  | @nil run few =>
    have h_stop : ∀ n, (rest.take n).takeWhile (· == quote) = [] := by
      intro n
      cases rest with
      | nil => simp
      | cons c rest =>
        cases n with
        | zero => rfl
        | succ n => rw [List.take_succ_cons, List.takeWhile_cons_of_neg (by simpa using h_rest)]
    match run, few with
    | 0, _ => simp [Quoted.blockExtent, h_stop]
    | 1, _ => simp [Quoted.blockExtent, h_stop]
    | 2, _ => simp [Quoted.blockExtent]
  | @quote run t _ ih =>
    have h_run : List.replicate (run + 1) quote = List.replicate run quote ++ [quote] :=
      List.replicate_succ'
    rw [h_run] at ih
    simpa using ih
  | char few h_quote h_escape _ ih =>
    rw [List.cons_append, blockExtent_replicate few h_quote h_slash,
      blockExtent_cons h_quote h_escape]
    simp only [List.replicate_zero, List.nil_append] at ih
    rw [ih]
    rfl
  | pair few h_escapes _ ih =>
    subst h_escapes
    rw [List.cons_append, List.cons_append, blockExtent_replicate few h_slash.symm h_slash,
      blockExtent_pair h_slash]
    simp only [List.replicate_zero, List.nil_append] at ih
    rw [ih]
    rfl

end Blocks

theorem Spells.body {c : Char} {u t : List Char} (h : Spells c u) {run : Nat} (few : run ≤ 2)
    (rest : Body '"' true 0 t) : Body '"' true run (u ++ t) := by
  cases h with
  | itself verbatim => exact .char few verbatim.ne_quote (fun _ => verbatim.ne_slash) rest
  | letter h => exact .pair few rfl rest
  | code low =>
    refine .pair few rfl ?_
    have h_digits := fun d => verbatim_of_mem_fourDigits low (d := d)
    generalize fourDigits c.toNat = digits at h_digits
    induction digits with
    | nil => exact rest
    | cons d digits ih =>
      have verbatim := h_digits d List.mem_cons_self
      exact .char (by decide) verbatim.ne_quote (fun _ => verbatim.ne_slash)
        (ih fun d h_mem => h_digits d (List.mem_cons_of_mem _ h_mem))

/-- A text and what is written for it in a block, behind `run` quotes: up to two quotes
and all line breaks stand for themselves. -/
inductive Pieces : Nat → List Char → List Char → Prop where
  | nil {run : Nat} (few : run ≤ 2) : Pieces run [] []
  | quote {run : Nat} {s u : List Char} (rest : Pieces (run + 1) s u) :
      Pieces run ('"' :: s) ('"' :: u)
  | lineBreak {run : Nat} {s u : List Char} (few : run ≤ 2) (rest : Pieces 0 s u) :
      Pieces run ('\n' :: s) ('\n' :: u)
  | spelled {run : Nat} {c : Char} {s t u : List Char} (few : run ≤ 2) (h : Spells c t)
      (rest : Pieces 0 s u) : Pieces run (c :: s) (t ++ u)

theorem pieces_escapeBlock (s : List Char) {run : Nat} (few : run ≤ 2) :
    Pieces run s (escapeBlock run s) := by
  induction s generalizing run with
  | nil => exact .nil few
  | cons c s ih =>
    rw [escapeBlock]
    split
    next h_quote =>
      subst h_quote
      split
      · exact .spelled few (spells_escape '"') (ih (Nat.zero_le 2))
      · exact .quote (ih (by omega))
    next =>
      split
      next h_break =>
        subst h_break
        exact .lineBreak few (ih (Nat.zero_le 2))
      next => exact .spelled few (spells_escape c) (ih (Nat.zero_le 2))

namespace Pieces

variable {run : Nat} {s u : List Char}

theorem body (h : Pieces run s u) : Body '"' true run u := by
  induction h with
  | nil few => exact .nil few
  | quote _ ih => exact .quote ih
  | lineBreak few _ ih => exact .char few (by decide) (by decide) ih
  | spelled few h _ ih => exact h.body few ih

theorem unescape_eq (h : Pieces run s u) : unescape false u = some s := by
  induction h with
  | nil => rfl
  | quote _ ih =>
    rw [unescape_cons (by decide) (by decide), ih]
    rfl
  | lineBreak _ _ ih =>
    rw [unescape_cons (by decide) (by decide), ih]
    rfl
  | spelled _ h _ ih =>
    rw [h.unescape_append, ih]
    rfl

theorem all_isBlockChar (h : Pieces run s u) : ∀ c ∈ u, isBlockChar c = true := by
  induction h with
  | nil => exact List.forall_mem_nil _
  | quote _ ih => exact List.forall_mem_cons.mpr ⟨by decide, ih⟩
  | lineBreak _ _ ih => exact List.forall_mem_cons.mpr ⟨by decide, ih⟩
  | spelled _ h _ ih =>
    have h_spelled := fun c h_mem => isBlockChar_of_isLineChar (h.all_isLineChar c h_mem)
    exact List.forall_mem_append.mpr ⟨h_spelled, ih⟩

/-- Escapes have no line breaks. -/
theorem break_mem (h : Pieces run s u) (h_mem : '\n' ∈ u) : '\n' ∈ s := by
  induction h with
  | nil => cases h_mem
  | quote _ ih => exact List.mem_cons_of_mem _ (ih (List.mem_of_ne_of_mem (by decide) h_mem))
  | lineBreak _ _ _ => exact List.mem_cons_self
  | spelled _ h _ ih =>
    rcases List.mem_append.mp h_mem with h_spelled | h_rest
    · exact absurd rfl (ne_break_of_isLineChar (h.all_isLineChar _ h_spelled))
    · exact List.mem_cons_of_mem _ (ih h_rest)

end Pieces

theorem le_longestRunFrom (quote : Char) (s : List Char) (current longest : Nat) :
    longest ≤ longestRunFrom quote current longest s := by
  induction s generalizing current longest with
  | nil => exact Nat.le_refl _
  | cons c s ih =>
    rw [longestRunFrom]
    split
    · exact Nat.le_trans (Nat.le_max_left _ _) (ih _ _)
    · exact ih _ _

theorem body_of_longestRun {quote : Char} {s : List Char} {run longest : Nat}
    (h_le : run ≤ longest) (h : longestRunFrom quote run longest s ≤ 2) :
    Body quote false run s := by
  have few := Nat.le_trans h_le (Nat.le_trans (le_longestRunFrom quote s run longest) h)
  induction s generalizing run longest with
  | nil => exact .nil few
  | cons c s ih =>
    rw [longestRunFrom] at h
    split at h
    next h_quote =>
      subst h_quote
      have h_few := Nat.le_trans (Nat.le_max_right _ _) (Nat.le_trans (le_longestRunFrom _ _ _ _) h)
      exact .quote (ih (Nat.le_max_right _ _) h h_few)
    next h_quote => exact .char few h_quote nofun (ih (Nat.zero_le _) h (Nat.zero_le _))

/-! ## Styles -/

/-- What a text has to be like for a style to hold it. -/
def Style.Holds (s : List Char) : Style → Prop
  | basic => True
  | literal => ∀ c ∈ s, isLineChar c = true ∧ c ≠ '\''
  | basicBlock => True
  | literalBlock => (∀ c ∈ s, isControl c = false) ∧ longestRun '\'' s ≤ 2

theorem Style.holds_choose (s : List Char) : (choose s).Holds s := by
  have tame : (!s.any isControl) = true → ∀ c ∈ s, isControl c = false := by simp
  unfold choose
  dsimp only
  split
  · trivial
  split
  next h =>
    simp only [Bool.and_eq_true] at h
    obtain ⟨⟨h_controls, h_quotes⟩, h_breaks⟩ := h
    intro c h_mem
    have block := isBlockChar_of_not_isControl (tame h_controls c h_mem)
    refine ⟨isLineChar_of_isBlockChar block ?_, ?_⟩
    · rintro rfl
      simp [h_mem] at h_breaks
    · rintro rfl
      simp [h_mem] at h_quotes
  split
  · trivial
  split
  next h =>
    simp only [Bool.and_eq_true, decide_eq_true_eq] at h
    exact ⟨tame h.1, h.2⟩
  split <;> trivial

theorem read?_eq_line? {s : List Char} (h_double : ¬ ['"', '"', '"'] <+: s)
    (h_single : ¬ ['\'', '\'', '\''] <+: s) : read? s = line? s := by
  unfold read?
  split
  · exact absurd ⟨_, rfl⟩ h_double
  · exact absurd ⟨_, rfl⟩ h_single
  · rfl

theorem not_triple {quote : Char} {u rest : List Char} (h_body : u.head? ≠ some quote)
    (h_rest : rest.head? ≠ some quote) :
    ¬ [quote, quote, quote] <+: quote :: (u ++ quote :: rest) := by
  rw [List.cons_prefix_cons]
  rintro ⟨-, h_prefix⟩
  cases u with
  | nil =>
    obtain ⟨t, h_eq⟩ := h_prefix
    cases h_eq
    exact h_rest rfl
  | cons c u =>
    rw [List.cons_append, List.cons_prefix_cons] at h_prefix
    exact h_body (congrArg some h_prefix.1.symm)

theorem not_prefix_of_ne {a b : Char} (h : a ≠ b) (s : List Char) : ¬ [a, a, a] <+: b :: s := by
  rw [List.cons_prefix_cons]
  exact fun h_prefix => h h_prefix.1

theorem head?_flatMap_escape_ne (s : List Char) : (s.flatMap escape).head? ≠ some '"' := by
  cases s with
  | nil => simp
  | cons c s =>
    rw [List.flatMap_cons]
    have spelled := spells_escape c
    generalize escape c = u at spelled ⊢
    cases spelled with
    | itself verbatim => simpa using verbatim.ne_quote
    | letter h => simp
    | code low => simp

/-- The line break that opens a block is dropped, and no other one. -/
theorem dropBreak_opening {s body : List Char} (h : '\n' ∈ body → '\n' ∈ s) {quote : Char}
    (h_quote : quote ≠ '\n') (rest : List Char) :
    dropBreak ((if s.contains '\n' then ['\n'] else []) ++ (body ++ quote :: rest)) =
      body ++ quote :: rest := by
  split
  · rfl
  next h_breaks =>
    have h_body : '\n' ∉ body := fun h_mem => h_breaks (by simpa using h h_mem)
    cases body with
    | nil =>
      unfold dropBreak
      split
      next h_eq => exact absurd (List.cons.inj h_eq).1 h_quote
      next => rfl
    | cons c body =>
      unfold dropBreak
      split
      next h_eq => exact absurd ((List.cons.inj h_eq).1 ▸ List.mem_cons_self) h_body
      next => rfl

theorem Style.read?_write {s : List Char} {style : Style} (h : style.Holds s) {rest : List Char}
    (h_double : rest.head? ≠ some '"') (h_single : rest.head? ≠ some '\'') :
    read? (style.write s ++ rest) = some (s, rest) := by
  cases style with
  | basic =>
    have h_line : read? (basic.write s ++ rest) =
        line? ('"' :: (s.flatMap escape ++ '"' :: rest)) := by
      simp only [write, List.append_assoc, List.cons_append, List.nil_append]
      exact read?_eq_line? (not_triple (head?_flatMap_escape_ne s) h_double)
        (not_prefix_of_ne (by decide) _)
    rw [h_line, line?, lineExtent_flatMap_escape]
    simp only [Option.bind_eq_bind, Option.bind_some, unescape_flatMap_escape]
  | literal =>
    have h_line : read? (literal.write s ++ rest) = line? ('\'' :: (s ++ '\'' :: rest)) := by
      simp only [write, List.append_assoc, List.cons_append, List.nil_append]
      refine read?_eq_line? (not_prefix_of_ne (by decide) _) (not_triple ?_ h_single)
      cases s with
      | nil => simp
      | cons c s => simpa using (h c List.mem_cons_self).2
    have h_all : ∀ c ∈ s, (c != '\'') = true := fun c h_mem => bne_iff_ne.mpr (h c h_mem).2
    have h_lines : s.all isLineChar = true := List.all_eq_true.mpr fun c h_mem => (h c h_mem).1
    rw [h_line]
    simp [line?, List.dropWhile_append_of_pos h_all, List.takeWhile_append_of_pos h_all, h_lines]
  | basicBlock =>
    have pieces := pieces_escapeBlock s (Nat.zero_le 2)
    have h_extent := pieces.body.blockExtent (by decide) h_double
    have h_open := dropBreak_opening pieces.break_mem (by decide : '"' ≠ '\n') ('"' :: '"' :: rest)
    simp only [List.replicate_zero, List.nil_append] at h_extent
    simp only [write, opening, List.append_assoc, List.cons_append, List.nil_append, read?, h_open,
      h_extent, Option.bind_eq_bind, Option.bind_some, pieces.unescape_eq]
  | literalBlock =>
    have h_extent := (body_of_longestRun (Nat.zero_le _) h.2).blockExtent (by decide) h_single
    have h_open := dropBreak_opening (@id ('\n' ∈ s)) (by decide : '\'' ≠ '\n')
      ('\'' :: '\'' :: rest)
    have h_blocks : s.all isBlockChar = true :=
      List.all_eq_true.mpr fun c h_mem => isBlockChar_of_not_isControl (h.1 c h_mem)
    simp only [List.replicate_zero, List.nil_append] at h_extent
    simp only [write, opening, List.append_assoc, List.cons_append, List.nil_append, read?, h_open,
      h_extent, Option.bind_eq_bind, Option.bind_some, h_blocks, if_true]

/-- What is written for a text is read as that text, whatever follows but a quote. -/
theorem read?_write (s : List Char) {rest : List Char} (h_double : rest.head? ≠ some '"')
    (h_single : rest.head? ≠ some '\'') : read? (write s ++ rest) = some (s, rest) :=
  Style.read?_write (Style.holds_choose s) h_double h_single

/-! ## What is written -/

theorem exists_write_eq (s : List Char) :
    ∃ quote t, (quote = '"' ∨ quote = '\'') ∧ write s = quote :: t := by
  unfold write
  cases Style.choose s with
  | basic => exact ⟨_, _, .inl rfl, rfl⟩
  | literal => exact ⟨_, _, .inr rfl, rfl⟩
  | basicBlock => exact ⟨_, _, .inl rfl, rfl⟩
  | literalBlock => exact ⟨_, _, .inr rfl, rfl⟩

theorem all_isBlockChar_opening (s : List Char) {quote : Char}
    (h_quote : isBlockChar quote = true) : ∀ c ∈ opening quote s, isBlockChar c = true := by
  rw [opening, List.forall_mem_append]
  refine ⟨by simpa using h_quote, ?_⟩
  split
  · exact List.all_eq_true.mp rfl
  · exact List.forall_mem_nil _

theorem Style.all_isBlockChar {s : List Char} {style : Style} (h : style.Holds s) :
    ∀ c ∈ style.write s, isBlockChar c = true := by
  cases style with
  | basic =>
    refine List.forall_mem_append.mpr
      ⟨List.forall_mem_append.mpr ⟨List.all_eq_true.mp rfl, ?_⟩, List.all_eq_true.mp rfl⟩
    rw [List.forall_mem_flatMap]
    exact fun d _ c h_mem => isBlockChar_of_isLineChar ((spells_escape d).all_isLineChar c h_mem)
  | literal =>
    refine List.forall_mem_append.mpr
      ⟨List.forall_mem_append.mpr ⟨List.all_eq_true.mp rfl, ?_⟩, List.all_eq_true.mp rfl⟩
    exact fun c h_mem => isBlockChar_of_isLineChar (h c h_mem).1
  | basicBlock =>
    have h_open := all_isBlockChar_opening s (by decide : isBlockChar '"' = true)
    have h_body := (pieces_escapeBlock s (Nat.zero_le 2)).all_isBlockChar
    exact List.forall_mem_append.mpr
      ⟨List.forall_mem_append.mpr ⟨h_open, h_body⟩, List.all_eq_true.mp rfl⟩
  | literalBlock =>
    have h_open := all_isBlockChar_opening s (by decide : isBlockChar '\'' = true)
    have h_body := fun c h_mem => isBlockChar_of_not_isControl (h.1 c h_mem)
    exact List.forall_mem_append.mpr
      ⟨List.forall_mem_append.mpr ⟨h_open, h_body⟩, List.all_eq_true.mp rfl⟩

/-- No control character but the line break is written, and no carriage return. -/
theorem all_isBlockChar_write (s : List Char) : ∀ c ∈ write s, isBlockChar c = true :=
  Style.all_isBlockChar (Style.holds_choose s)

end FlashImage.Toml.Quoted
