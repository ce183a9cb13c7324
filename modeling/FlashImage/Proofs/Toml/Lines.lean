import FlashImage.Proofs.Toml.Values

/-!
# Sections are read back

A document that is written in sections is read as the statements of its
sections, one behind the other.  Each of them stands on lines of its own, with
blank lines between the sections.

* `parse?_writeSections`: what is written for sections is read as their statements.
-/

namespace FlashImage.Toml

/-! ## Keys -/

/-- A key that needs no quotes. -/
structure IsBare (key : String) : Prop where
  ne_nil : key.toList ≠ []
  all_bare : ∀ c ∈ key.toList, isBareChar c = true

instance (key : String) : Decidable (IsBare key) :=
  decidable_of_iff (key.toList ≠ [] ∧ key.toList.all isBareChar = true)
    ⟨fun h => ⟨h.1, List.all_eq_true.mp h.2⟩, fun h => ⟨h.ne_nil, List.all_eq_true.mpr h.all_bare⟩⟩

theorem ne_of_isBareChar {c d : Char} (h : isBareChar c = true) (h_other : isBareChar d = false) :
    c ≠ d := by
  rintro rfl
  rw [h] at h_other
  cases h_other

theorem isLineChar_of_isAlphanum {c : Char} (h : c.isAlphanum = true) :
    Quoted.isLineChar c = true := by
  have h_kinds : ((c.isUpper || c.isLower) || c.isDigit) = true := h
  rw [Bool.or_eq_true, Bool.or_eq_true] at h_kinds
  have h_range : 0x20 ≤ c.toNat ∧ c.toNat < 0x7F := by
    rcases h_kinds with (h_upper | h_lower) | h_digit
    · have h_bounds : 0x41 ≤ c.toNat ∧ c.toNat ≤ 0x5A := of_decide_eq_true h_upper
      omega
    · have h_bounds := Bool.and_eq_true_iff.mp h_lower
      have h_first : 0x61 ≤ c.toNat := of_decide_eq_true h_bounds.1
      have h_last : c.toNat ≤ 0x7A := of_decide_eq_true h_bounds.2
      omega
    · have h_bounds := Bool.and_eq_true_iff.mp h_digit
      have h_first : 0x30 ≤ c.toNat := of_decide_eq_true h_bounds.1
      have h_last : c.toNat ≤ 0x39 := of_decide_eq_true h_bounds.2
      omega
  have h_delete : c.toNat ≠ 0x7F := Nat.ne_of_lt h_range.2
  simp [Quoted.isLineChar, h_range.1, h_delete]

theorem isLineChar_of_isBareChar {c : Char} (h : isBareChar c = true) :
    Quoted.isLineChar c = true := by
  rw [isBareChar, Bool.or_eq_true, Bool.or_eq_true, beq_iff_eq, beq_iff_eq] at h
  rcases h with (h | rfl) | rfl
  · exact isLineChar_of_isAlphanum h
  · decide
  · decide

theorem dropGaps_cons {c : Char} (h : Quoted.isGap c = false) (r : List Char) :
    dropGaps (c :: r) = c :: r := by
  rw [dropGaps, List.dropWhile_cons_of_neg (by rw [h]; exact Bool.false_ne_true)]

theorem isGap_of_isBareChar {c : Char} (h : isBareChar c = true) : Quoted.isGap c = false := by
  rw [Quoted.isGap, beq_eq_false_iff_ne.mpr (ne_of_isBareChar h (by decide)),
    beq_eq_false_iff_ne.mpr (ne_of_isBareChar h (by decide))]
  rfl

namespace IsBare

variable {key : String}

theorem exists_cons (bare : IsBare key) : ∃ c t, key.toList = c :: t ∧ isBareChar c = true := by
  obtain ⟨c, t, h_key⟩ := List.exists_cons_of_ne_nil bare.ne_nil
  exact ⟨c, t, h_key, bare.all_bare c (h_key ▸ List.mem_cons_self)⟩

theorem all_isBlockChar (bare : IsBare key) : ∀ c ∈ key.toList, Quoted.isBlockChar c = true :=
  fun c h_mem => Quoted.isBlockChar_of_isLineChar (isLineChar_of_isBareChar (bare.all_bare c h_mem))

theorem keyPath? (bare : IsBare key) {c d : Char} {r t : List Char} (h_stop : isBareChar c = false)
    (h_gaps : dropGaps (c :: r) = d :: t) (h_dot : d ≠ '.') :
    keyPath? (key.toList ++ c :: r) = some (⟨[], key⟩, d :: t) := by
  obtain ⟨h_take, h_drop⟩ := span_append bare.all_bare h_stop r
  have h_key : key? (key.toList ++ c :: r) = some (key, c :: r) := by
    rw [key?, h_take]
    split
    next h_nil => exact absurd h_nil bare.ne_nil
    next => rw [h_drop, String.ofList_toList]
  have h_start : dropGaps (key.toList ++ c :: r) = key.toList ++ c :: r := by
    obtain ⟨b, t, h_list, h_bare⟩ := bare.exists_cons
    rw [h_list, List.cons_append, dropGaps_cons (isGap_of_isBareChar h_bare)]
  show keysUpTo? (78 + 1) _ = _
  rw [keysUpTo?, h_start, h_key]
  simp only [Option.bind_eq_bind, Option.bind_some, h_gaps]
  split
  next h_eq => exact absurd (List.cons.inj h_eq).1 h_dot
  next => rfl

end IsBare

/-! ## Statements -/

/-- The text of one statement, which is read as this statement whatever follows. -/
structure Line (text : List Char) (statement : Statement) : Prop where
  starts : ∃ c t, text = c :: t ∧ (isBareChar c = true ∨ c = '[')
  block : ∀ c ∈ text, Quoted.isBlockChar c = true
  reads : ∀ n, text.length ≤ n → ∀ rest, statement? n (text ++ rest) = some (statement, rest)

theorem all_isBlockChar_itemLine (s : String) :
    ∀ c ∈ itemLine s, Quoted.isBlockChar c = true :=
  List.forall_mem_append.mpr
    ⟨List.forall_mem_append.mpr ⟨List.all_eq_true.mp rfl, Quoted.all_isBlockChar_write _⟩,
      List.all_eq_true.mp rfl⟩

namespace Plain

theorem all_isBlockChar_write (p : Plain) : ∀ c ∈ p.write, Quoted.isBlockChar c = true := by
  match p with
  | number n =>
    intro c h_mem
    have h_bare := isBareChar_of_mem_toDigits h_mem
    exact Quoted.isBlockChar_of_isLineChar (isLineChar_of_isBareChar h_bare)
  | text s => exact Quoted.all_isBlockChar_write _
  | texts [] => exact List.all_eq_true.mp rfl
  | texts [s] =>
    have h_close : ∀ c ∈ [']'], Quoted.isBlockChar c = true := List.all_eq_true.mp rfl
    exact List.forall_mem_cons.mpr ⟨by decide,
      List.forall_mem_append.mpr ⟨Quoted.all_isBlockChar_write s.toList, h_close⟩⟩
  | texts (s :: t :: items) =>
    have h_items : ∀ c ∈ (s :: t :: items).flatMap itemLine, Quoted.isBlockChar c = true :=
      List.forall_mem_flatMap.mpr fun item _ => all_isBlockChar_itemLine item
    have h_close : ∀ c ∈ ['\n', ']'], Quoted.isBlockChar c = true := List.all_eq_true.mp rfl
    exact List.forall_mem_cons.mpr ⟨by decide, List.forall_mem_append.mpr ⟨h_items, h_close⟩⟩

theorem dropGaps_write (p : Plain) (rest : List Char) :
    dropGaps (p.write ++ rest) = p.write ++ rest := by
  match p with
  | number n =>
    rw [write]
    cases h_digits : Nat.toDigits 10 n with
    | nil => exact absurd h_digits Nat.toDigits_ne_nil
    | cons d digits =>
      have h_bare : isBareChar d = true :=
        isBareChar_of_mem_toDigits (h_digits ▸ List.mem_cons_self)
      rw [List.cons_append, dropGaps_cons (isGap_of_isBareChar h_bare)]
  | text s =>
    obtain ⟨quote, t, h_quote, h_write⟩ := Quoted.exists_write_eq s.toList
    rw [write, h_write]
    rcases h_quote with rfl | rfl <;> rfl
  | texts [] => rfl
  | texts [s] => rfl
  | texts (s :: t :: items) => rfl

end Plain

theorem statement?_entry {n : Nat} {s r t rest : List Char} {path : KeyPath} {v : Value}
    (h_first : s.head? ≠ some '[') (h_path : keyPath? s = some (path, '=' :: r))
    (h_value : value? n maxDepth (dropGaps r) = some (v, t)) (h_end : endLine? t = some rest) :
    statement? n s = some (.entry path v, rest) := by
  unfold statement?
  split
  · exact absurd rfl h_first
  · exact absurd rfl h_first
  · simp only [h_path, Option.bind_eq_bind, Option.bind_some, h_value, h_end]

theorem line_entry {key : String} (bare : IsBare key) {p : Plain} (h : p.InRange) :
    Line (writeEntry (key, p)) (.entry ⟨[], key⟩ p.value) where
  starts := by
    obtain ⟨c, t, h_key, h_bare⟩ := bare.exists_cons
    exact ⟨c, _, by rw [writeEntry, h_key]; rfl, .inl h_bare⟩
  block := by
    simp only [writeEntry, List.forall_mem_append]
    exact ⟨⟨⟨bare.all_isBlockChar, List.all_eq_true.mp rfl⟩, p.all_isBlockChar_write⟩,
      List.all_eq_true.mp rfl⟩
  reads := by
    intro n h_length rest
    have h_value : value? n maxDepth (p.write ++ '\n' :: rest) = some (p.value, '\n' :: rest) := by
      refine value?_write h ?_ 78 rest
      simp only [writeEntry, List.length_append] at h_length
      omega
    have h_text : writeEntry (key, p) ++ rest =
        key.toList ++ ' ' :: '=' :: ' ' :: (p.write ++ '\n' :: rest) := by
      simp [writeEntry]
    have h_path : keyPath? (writeEntry (key, p) ++ rest) =
        some (⟨[], key⟩, '=' :: ' ' :: (p.write ++ '\n' :: rest)) := by
      rw [h_text]
      exact bare.keyPath? (by decide) rfl (by decide)
    have h_first : (writeEntry (key, p) ++ rest).head? ≠ some '[' := by
      obtain ⟨c, t, h_key, h_bare⟩ := bare.exists_cons
      rw [h_text, h_key]
      simpa using ne_of_isBareChar h_bare (by decide)
    have h_gap : dropGaps (' ' :: (p.write ++ '\n' :: rest)) = p.write ++ '\n' :: rest :=
      p.dropGaps_write _
    rw [← h_gap] at h_value
    exact statement?_entry h_first h_path h_value rfl

theorem line_table {key : String} (bare : IsBare key) :
    Line (Heading.table key).write (.table ⟨[], key⟩) where
  starts := ⟨'[', _, rfl, .inr rfl⟩
  block := by
    simp only [Heading.write, List.forall_mem_append, List.forall_mem_cons]
    exact ⟨⟨by decide, bare.all_isBlockChar⟩, by decide, by decide, List.forall_mem_nil _⟩
  reads := by
    intro n _ rest
    have h_path : keyPath? (key.toList ++ ']' :: '\n' :: rest) =
        some (⟨[], key⟩, ']' :: '\n' :: rest) := bare.keyPath? (by decide) rfl (by decide)
    have h_text : (Heading.table key).write ++ rest =
        '[' :: (key.toList ++ ']' :: '\n' :: rest) := by
      simp [Heading.write]
    obtain ⟨c, t, h_key, h_bare⟩ := bare.exists_cons
    have h_open : c ≠ '[' := ne_of_isBareChar h_bare (by decide)
    rw [h_text]
    rw [h_key, List.cons_append] at h_path ⊢
    rw [statement?]
    · rw [h_path]
      rfl
    · exact fun r h_eq => h_open (List.cons.inj h_eq).1

theorem line_element {key : String} (bare : IsBare key) :
    Line (Heading.element key).write (.element ⟨[], key⟩) where
  starts := ⟨'[', _, rfl, .inr rfl⟩
  block := by
    simp only [Heading.write, List.forall_mem_append, List.forall_mem_cons]
    exact ⟨⟨by decide, by decide, bare.all_isBlockChar⟩, by decide, by decide, by decide,
      List.forall_mem_nil _⟩
  reads := by
    intro n _ rest
    have h_path : keyPath? (key.toList ++ ']' :: ']' :: '\n' :: rest) =
        some (⟨[], key⟩, ']' :: ']' :: '\n' :: rest) := bare.keyPath? (by decide) rfl (by decide)
    have h_text : (Heading.element key).write ++ rest =
        '[' :: '[' :: (key.toList ++ ']' :: ']' :: '\n' :: rest) := by
      simp [Heading.write]
    rw [h_text, statement?, h_path]
    rfl

/-! ## Lines in a row -/

/-- Texts of statements in a row, with blank lines between them. -/
inductive Lines : List Char → List Statement → Prop where
  | nil : Lines [] []
  | blank {t : List Char} {statements : List Statement} (rest : Lines t statements) :
      Lines ('\n' :: t) statements
  | line {t r : List Char} {statement : Statement} {statements : List Statement}
      (first : Line t statement) (rest : Lines r statements) :
      Lines (t ++ r) (statement :: statements)

theorem dropLayout_start {c : Char} (h : isBareChar c = true ∨ c = '[') (r : List Char) :
    dropLayout false (c :: r) = some (c :: r) := by
  rcases h with h | rfl
  · rw [dropLayout, if_neg (ne_of_isBareChar h (by decide)), if_neg Bool.false_ne_true,
      if_neg (ne_of_isBareChar h (by decide)), if_neg]
    rw [isGap_of_isBareChar h]
    exact Bool.false_ne_true
  · rfl

namespace Lines

variable {t r : List Char} {statements later : List Statement}

theorem append (h : Lines t statements) (h_later : Lines r later) :
    Lines (t ++ r) (statements ++ later) := by
  induction h with
  | nil => exact h_later
  | blank _ ih => exact .blank ih
  | line first _ ih =>
    rw [List.append_assoc]
    exact .line first ih

theorem eq_nil (h : Lines t statements) (h_nil : t = []) : statements = [] := by
  cases h with
  | nil => rfl
  | blank rest => cases h_nil
  | line first rest =>
    obtain ⟨c, u, rfl, -⟩ := first.starts
    cases h_nil

theorem block (h : Lines t statements) : ∀ c ∈ t, Quoted.isBlockChar c = true := by
  induction h with
  | nil => simp
  | blank _ ih => simpa using ⟨by decide, ih⟩
  | line first _ ih =>
    intro c h_mem
    exact (List.mem_append.mp h_mem).elim (first.block c) (ih c)

theorem dropMark (h : Lines t statements) : dropMark t = t := by
  cases h with
  | nil => rfl
  | blank rest => rfl
  | line first rest =>
    obtain ⟨c, u, rfl, h_start⟩ := first.starts
    have h_mark : c ≠ '\uFEFF' := by
      rcases h_start with h_bare | rfl
      · exact ne_of_isBareChar h_bare (by decide)
      · decide
    rw [List.cons_append]
    unfold Toml.dropMark
    split
    next h_eq => exact absurd (List.cons.inj h_eq).1 h_mark
    next => rfl

theorem statements? (h : Lines t statements) {n : Nat} (h_lt : t.length < n) :
    statements? n t = some statements := by
  obtain ⟨n, rfl⟩ : ∃ m, n = m + 1 := Nat.exists_eq_add_of_le' (Nat.zero_lt_of_lt h_lt)
  induction h generalizing n with
  | nil => rfl
  | @blank t statements _ ih =>
    have h_blank : Toml.statements? (n + 1) ('\n' :: t) = Toml.statements? (n + 1) t := rfl
    rw [h_blank]
    exact ih n (Nat.lt_of_succ_lt h_lt)
  | @line t r statement statements first _ ih =>
    obtain ⟨c, u, rfl, h_start⟩ := first.starts
    rw [List.length_append, List.length_cons] at h_lt
    have h_reads := first.reads n (by rw [List.length_cons]; omega) r
    obtain ⟨n, rfl⟩ : ∃ m, n = m + 1 := Nat.exists_eq_add_of_le' (by omega)
    rw [List.cons_append] at h_reads ⊢
    rw [Toml.statements?, dropLayout_start h_start]
    simp only [Option.bind_eq_bind, Option.bind_some, h_reads, ih n (by omega), Option.map_some]

end Lines

/-! ## Sections -/

/-- The keys of a section need no quotes, and its numbers can be read. -/
structure Section.Readable (s : Section) : Prop where
  heading : ∀ {key}, s.heading = .table key ∨ s.heading = .element key → IsBare key
  keys : ∀ e ∈ s.entries, IsBare e.1
  values : ∀ e ∈ s.entries, e.2.InRange

theorem lines_entries {entries : List (String × Plain)} (keys : ∀ e ∈ entries, IsBare e.1)
    (values : ∀ e ∈ entries, e.2.InRange) :
    Lines (entries.flatMap writeEntry)
      (entries.map fun (key, v) => .entry ⟨[], key⟩ v.value) := by
  induction entries with
  | nil => exact .nil
  | cons e entries ih =>
    rw [List.flatMap_cons, List.map_cons]
    refine .line (line_entry (keys e List.mem_cons_self) (values e List.mem_cons_self)) (ih ?_ ?_)
    · exact fun e h_mem => keys e (List.mem_cons_of_mem _ h_mem)
    · exact fun e h_mem => values e (List.mem_cons_of_mem _ h_mem)

theorem Line.lines {t : List Char} {statement : Statement} (h : Line t statement) :
    Lines t [statement] := by
  have h_lines := Lines.line h .nil
  rwa [List.append_nil] at h_lines

theorem lines_heading {heading : Heading}
    (bare : ∀ {key}, heading = .table key ∨ heading = .element key → IsBare key) :
    Lines heading.write heading.statements := by
  cases heading with
  | top => exact .nil
  | table key => exact (line_table (bare (.inl rfl))).lines
  | element key => exact (line_element (bare (.inr rfl))).lines

theorem lines_section {s : Section} (h : s.Readable) : Lines s.write s.statements :=
  (lines_heading h.heading).append (lines_entries h.keys h.values)

theorem intercalate_cons_cons (sep t u : List Char) (l : List (List Char)) :
    sep.intercalate (t :: u :: l) = t ++ (sep ++ sep.intercalate (u :: l)) := by
  simp [List.intercalate]

/-- A section without text has no statements, so that it does not matter that no
blank line stands for it. -/
theorem lines_writeSections {sections : List Section} (h : ∀ s ∈ sections, s.Readable) :
    Lines (writeSections sections) (sections.flatMap Section.statements) := by
  induction sections with
  | nil => exact .nil
  | cons s sections ih =>
    have first := lines_section (h s List.mem_cons_self)
    have rest := ih fun s h_mem => h s (List.mem_cons_of_mem _ h_mem)
    unfold writeSections at rest ⊢
    rw [List.flatMap_cons, List.map_cons]
    by_cases h_nil : s.write = []
    · rw [List.filter_cons_of_neg (by simpa using h_nil), first.eq_nil h_nil]
      exact rest
    · rw [List.filter_cons_of_pos (by simpa using h_nil)]
      cases h_texts : (sections.map Section.write).filter (· ≠ []) with
      | nil =>
        rw [h_texts] at rest
        rw [rest.eq_nil rfl, List.append_nil]
        simpa [List.intercalate] using first
      | cons u texts =>
        rw [h_texts] at rest
        rw [intercalate_cons_cons]
        exact first.append (.blank rest)

/-! ## Documents -/

theorem plainBreaks?_of_block {s : List Char} (h : ∀ c ∈ s, Quoted.isBlockChar c = true) :
    plainBreaks? s = some s := by
  induction s with
  | nil => rfl
  | cons c s ih =>
    have h_return : c ≠ '\x0D' := by
      rintro rfl
      exact absurd (h _ List.mem_cons_self) (by decide)
    rw [plainBreaks?, if_neg h_return, ih fun d h_mem => h d (List.mem_cons_of_mem _ h_mem)]
    · rfl
    · exact fun _ h_eq => absurd h_eq h_return

theorem parse?_writeSections {sections : List Section} (h : ∀ s ∈ sections, s.Readable)
    {entries : Entries}
    (h_entries : Entries.ofStatements? (sections.flatMap Section.statements) = some entries)
    (h_dates : (Value.table .header entries).resolveDates? = some (.table .header entries)) :
    parse? (String.ofList (writeSections sections)) = some entries := by
  have lines := lines_writeSections h
  rw [parse?, String.toList_ofList, lines.dropMark, plainBreaks?_of_block lines.block]
  simp only [Option.bind_eq_bind, Option.bind_some, lines.statements? (Nat.lt_succ_self _),
    h_entries, h_dates]

end FlashImage.Toml
