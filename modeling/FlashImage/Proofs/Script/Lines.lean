import FlashImage.Proofs.Text
import FlashImage.Script.Record
import Mathlib.Data.List.Basic

/-!
# The lines of a script

A text is cut at line feeds, the parts are numbered, and each part is cut at
carriage returns.  A CRLF is cut twice that way, and the empty line inside it asks
for nothing; so it is as if the text were cut at each line end of whatever kind.

* `Cut.recordsFrom_eq`: the records of a text are those of its lines.
-/

namespace FlashImage.Script

open Text

inductive LineEnd where
  | lf
  | crlf
  | cr
  deriving DecidableEq

def LineEnd.chars : LineEnd → List Char
  | lf => ['\n']
  | crlf => ['\r', '\n']
  | cr => ['\r']

/-- A piece of text inside one line. -/
def Plain (line : List Char) : Prop :=
  '\n' ∉ line ∧ '\r' ∉ line

/-! ## Cutting at all line ends -/

/-- `Cut before text lines`: the text, which stands behind the text `before`, is
made up of these lines, each but the last followed by a line end.  A carriage
return in front of a line feed belongs to it.  The number of a line is one more
than that of the line feeds in front of it. -/
inductive Cut : List Char → List Char → List (Nat × List Char) → Prop where
  | last {before line : List Char} (plain : Plain line) :
      Cut before line [(1 + before.count '\n', line)]
  | next {before line rest : List Char} {lines : List (Nat × List Char)} {stop : LineEnd}
      (plain : Plain line) (whole : stop = .cr → rest.head? ≠ some '\n')
      (cut : Cut (before ++ line ++ stop.chars) rest lines) :
      Cut before (line ++ stop.chars ++ rest) ((1 + before.count '\n', line) :: lines)

theorem Plain.cons {c : Char} {line : List Char} (plain : Plain line) (h_lf : c ≠ '\n')
    (h_cr : c ≠ '\r') : Plain (c :: line) := by
  simp [Plain, plain.1, plain.2, h_lf.symm, h_cr.symm]

/-- A text has no line end, or a first one. -/
theorem plain_or_next (text : List Char) :
    Plain text ∨ ∃ line stop rest, text = line ++ LineEnd.chars stop ++ rest ∧ Plain line ∧
      (stop = .cr → rest.head? ≠ some '\n') := by
  have h_empty : Plain [] := ⟨List.not_mem_nil, List.not_mem_nil⟩
  induction text with
  | nil => exact .inl h_empty
  | cons c text ih =>
    by_cases h_lf : c = '\n'
    · subst h_lf
      exact .inr ⟨[], .lf, text, rfl, h_empty, nofun⟩
    · by_cases h_cr : c = '\r'
      · subst h_cr
        by_cases h_head : text.head? = some '\n'
        · obtain ⟨rest, rfl⟩ := List.head?_eq_some_iff.mp h_head
          exact .inr ⟨[], .crlf, rest, rfl, h_empty, nofun⟩
        · exact .inr ⟨[], .cr, text, rfl, h_empty, fun _ => h_head⟩
      · rcases ih with plain | ⟨line, stop, rest, rfl, plain, whole⟩
        · exact .inl (plain.cons h_lf h_cr)
        · exact .inr ⟨c :: line, stop, rest, rfl, plain.cons h_lf h_cr, whole⟩

theorem exists_cut (before text : List Char) : ∃ lines, Cut before text lines := by
  -- on the length: a line end takes up at least one character
  induction h_length : text.length using Nat.strongRecOn generalizing before text with
  | _ n ih =>
    rcases plain_or_next text with plain | ⟨line, stop, rest, rfl, plain, whole⟩
    · exact ⟨_, .last plain⟩
    · have h_shorter : rest.length < n := by
        rw [← h_length, List.length_append, List.length_append]
        cases stop <;> simp [LineEnd.chars]
      obtain ⟨lines, cut⟩ := ih _ h_shorter (before ++ line ++ stop.chars) rest rfl
      exact ⟨_, .next plain whole cut⟩

section Unique

variable {line line' rest rest' : List Char} {stop stop' : LineEnd}

theorem not_plain_append (line : List Char) (stop : LineEnd) (rest : List Char) :
    ¬ Plain (line ++ stop.chars ++ rest) := by
  intro plain
  cases stop with
  | lf => exact plain.1 (by simp [LineEnd.chars])
  | crlf => exact plain.1 (by simp [LineEnd.chars])
  | cr => exact plain.2 (by simp [LineEnd.chars])

theorem Plain.tail {c : Char} (plain : Plain (c :: line)) : Plain line :=
  ⟨fun h_mem => plain.1 (List.mem_cons_of_mem c h_mem),
    fun h_mem => plain.2 (List.mem_cons_of_mem c h_mem)⟩

theorem Plain.cons_ne_stop {c : Char} {more : List Char} (plain : Plain (c :: line))
    (stop : LineEnd) (rest : List Char) : c :: more ≠ stop.chars ++ rest := by
  intro h
  cases stop with
  | lf => exact plain.1 (List.head_eq_of_cons_eq h ▸ List.mem_cons_self)
  | crlf => exact plain.2 (List.head_eq_of_cons_eq h ▸ List.mem_cons_self)
  | cr => exact plain.2 (List.head_eq_of_cons_eq h ▸ List.mem_cons_self)

/-- Of the two line ends that begin with a carriage return only one can be meant. -/
theorem stop_unique (whole : stop = .cr → rest.head? ≠ some '\n')
    (whole' : stop' = .cr → rest'.head? ≠ some '\n')
    (h : stop.chars ++ rest = stop'.chars ++ rest') :
    stop = stop' ∧ rest = rest' := by
  cases stop <;> cases stop' <;> simp [LineEnd.chars] at h whole whole' ⊢
  case lf.lf | crlf.crlf | cr.cr => exact h
  case crlf.cr => exact whole' (h ▸ rfl)
  case cr.crlf => exact whole (h ▸ rfl)

theorem next_unique (plain : Plain line) (plain' : Plain line')
    (whole : stop = .cr → rest.head? ≠ some '\n') (whole' : stop' = .cr → rest'.head? ≠ some '\n')
    (h : line ++ (stop.chars ++ rest) = line' ++ (stop'.chars ++ rest')) :
    line = line' ∧ stop = stop' ∧ rest = rest' := by
  induction line generalizing line' with
  | nil =>
    cases line' with
    | nil => exact ⟨rfl, stop_unique whole whole' h⟩
    | cons c line' => exact absurd h.symm (plain'.cons_ne_stop _ _)
  | cons c line ih =>
    cases line' with
    | nil => exact absurd h (plain.cons_ne_stop _ _)
    | cons c' line' =>
      obtain ⟨rfl, h_tail⟩ := List.cons.inj h
      obtain ⟨rfl, h_stop⟩ := ih plain.tail plain'.tail h_tail
      exact ⟨rfl, h_stop⟩

end Unique

theorem Cut.unique {before text text' : List Char} {lines lines' : List (Nat × List Char)}
    (h : Cut before text lines) (h' : Cut before text' lines') (same : text = text') :
    lines = lines' := by
  induction h generalizing text' lines' with
  | last plain =>
    cases h' with
    | last _ => rw [same]
    | next => exact absurd (same ▸ plain) (not_plain_append _ _ _)
  | next plain whole _ ih =>
    cases h' with
    | last plain' => exact absurd (same ▸ plain') (not_plain_append _ _ _)
    | next plain' whole' cut' =>
      rw [List.append_assoc, List.append_assoc] at same
      obtain ⟨rfl, rfl, rfl⟩ := next_unique plain plain' whole whole' same
      rw [ih cut' rfl]

/-! ## The records of a text -/

def segmentsFrom (number : Nat) (text : List Char) : List (Nat × List Char) :=
  ((text.splitOn '\n').zipIdx number).flatMap fun (line, number) =>
    (line.splitOn '\r').map fun part => (number, part)

/-- The records of a text whose first line has the given number. -/
def recordsFrom (number : Nat) (text : List Char) : List Line :=
  (segmentsFrom number text).filterMap lineOf?

theorem parse_eq_recordsFrom (text : String) : parse text = recordsFrom 1 text.toList := rfl

theorem segmentsFrom_of_no_lf (number : Nat) {text : List Char} (h_lf : '\n' ∉ text) :
    segmentsFrom number text = (text.splitOn '\r').map fun part => (number, part) := by
  rw [segmentsFrom, List.splitOn_eq_singleton h_lf]
  simp

theorem segmentsFrom_append_lf (number : Nat) (left right : List Char) :
    segmentsFrom number (left ++ '\n' :: right) =
      segmentsFrom number left ++ segmentsFrom (number + (left.count '\n' + 1)) right := by
  rw [segmentsFrom, List.splitOn_append_cons_self, List.zipIdx_append, List.flatMap_append,
    length_splitOn]
  rfl

theorem segmentsFrom_line_cr (number : Nat) {left right : List Char} (h_left : '\n' ∉ left)
    (h_right : '\n' ∉ right) :
    segmentsFrom number (left ++ '\r' :: right) =
      segmentsFrom number left ++ segmentsFrom number right := by
  have h_both : '\n' ∉ left ++ '\r' :: right := by simp [h_left, h_right]
  rw [segmentsFrom_of_no_lf _ h_both, segmentsFrom_of_no_lf _ h_left,
    segmentsFrom_of_no_lf _ h_right, List.splitOn_append_cons_self, List.map_append]

/-- A carriage return cuts the line that it stands in, and is not counted. -/
theorem segmentsFrom_append_cr (number : Nat) (left right : List Char) :
    segmentsFrom number (left ++ '\r' :: right) =
      segmentsFrom number left ++ segmentsFrom (number + left.count '\n') right := by
  induction left using split_induction '\n' generalizing number with
  | last left h_left =>
    rw [List.count_eq_zero_of_not_mem h_left, Nat.add_zero]
    -- the carriage return shares its part with what stands up to the next line feed
    by_cases h_mem : '\n' ∈ right
    · obtain ⟨line, rest, rfl, h_line⟩ := List.eq_append_cons_of_mem h_mem
      rw [← List.cons_append, ← List.append_assoc, segmentsFrom_append_lf, segmentsFrom_append_lf,
        segmentsFrom_line_cr _ h_left h_line, List.append_assoc]
      simp [List.count_eq_zero_of_not_mem, h_left, h_line]
    · exact segmentsFrom_line_cr _ h_left h_mem
  | next line left _ ih =>
    have h_count : (line ++ '\n' :: left).count '\n' = line.count '\n' + 1 + left.count '\n' := by
      simp only [List.count_append, List.count_cons_self]
      omega
    rw [List.append_assoc, List.cons_append, segmentsFrom_append_lf, segmentsFrom_append_lf, ih,
      List.append_assoc, h_count, Nat.add_assoc number]

theorem recordsFrom_plain (number : Nat) {line : List Char} (plain : Plain line) :
    recordsFrom number line = (lineOf? (number, line)).toList := by
  rw [recordsFrom, segmentsFrom_of_no_lf _ plain.1, List.splitOn_eq_singleton plain.2,
    List.map_singleton, List.filterMap_eq_flatMap_toList, List.flatMap_singleton]

@[simp] theorem recordsFrom_nil (number : Nat) : recordsFrom number [] = [] := by
  rw [recordsFrom_plain number ⟨List.not_mem_nil, List.not_mem_nil⟩]
  rfl

/-- At a line end of any kind the records fall apart. -/
theorem recordsFrom_append (number : Nat) (left : List Char) (stop : LineEnd) (right : List Char) :
    recordsFrom number (left ++ stop.chars ++ right) =
      recordsFrom number left ++ recordsFrom (number + (left ++ stop.chars).count '\n') right := by
  have h_cr : ∀ right, recordsFrom number (left ++ '\r' :: right) =
      recordsFrom number left ++ recordsFrom (number + left.count '\n') right := fun right => by
    simp only [recordsFrom, segmentsFrom_append_cr, List.filterMap_append]
  have h_lf : ∀ left right, recordsFrom number (left ++ '\n' :: right) =
      recordsFrom number left ++ recordsFrom (number + (left.count '\n' + 1)) right :=
    fun left right => by simp only [recordsFrom, segmentsFrom_append_lf, List.filterMap_append]
  rw [List.append_assoc, List.count_append]
  cases stop with
  | lf => exact h_lf left right
  | cr => exact h_cr right
  | crlf =>
    have h_between := h_cr []
    have h_both := h_lf (left ++ ['\r']) right
    have h_count : (left ++ ['\r']).count '\n' = left.count '\n' := by simp
    rw [recordsFrom_nil, List.append_nil] at h_between
    rw [h_between, h_count, List.append_assoc] at h_both
    exact h_both

theorem Cut.recordsFrom_eq {before text : List Char} {lines : List (Nat × List Char)}
    (h : Cut before text lines) :
    recordsFrom (1 + before.count '\n') text = lines.filterMap lineOf? := by
  induction h with
  | last plain =>
    rw [recordsFrom_plain _ plain, List.filterMap_eq_flatMap_toList, List.flatMap_singleton]
  | @next before line rest lines stop plain _ _ ih =>
    have h_count : 1 + (before ++ line ++ stop.chars).count '\n' =
        1 + before.count '\n' + (line ++ stop.chars).count '\n' := by
      simp only [List.count_append]
      omega
    rw [h_count] at ih
    rw [recordsFrom_append, ih, recordsFrom_plain _ plain]
    simp only [List.filterMap_eq_flatMap_toList, List.flatMap_cons]

/-! ## Other numbers -/

def Line.shift (k : Nat) (l : Line) : Line :=
  { l with number := l.number + k }

theorem segmentsFrom_add (number k : Nat) (text : List Char) :
    segmentsFrom (number + k) text =
      (segmentsFrom number text).map fun part => (part.1 + k, part.2) := by
  rw [segmentsFrom, segmentsFrom, Nat.add_comm, ← List.map_snd_add_zipIdx_eq_zipIdx]
  simp [List.flatMap_map, List.map_flatMap, Function.comp_def]

theorem lineOf?_add (part : Nat × List Char) (k : Nat) :
    lineOf? (part.1 + k, part.2) = (lineOf? part).map (Line.shift k) := by
  obtain ⟨number, text⟩ := part
  simp only [lineOf?, Option.map_map, Function.comp_def, Line.shift]

theorem recordsFrom_add (number k : Nat) (text : List Char) :
    recordsFrom (number + k) text = (recordsFrom number text).map (Line.shift k) := by
  rw [recordsFrom, segmentsFrom_add, List.filterMap_map, recordsFrom, List.map_filterMap]
  simp only [Function.comp_def, lineOf?_add]

/-- The records of a text, whatever the numbers of its lines. -/
def recordsOf (text : List Char) : List Record :=
  (recordsFrom 0 text).map Line.record

theorem map_record_recordsFrom (number : Nat) (text : List Char) :
    (recordsFrom number text).map Line.record = recordsOf text := by
  rw [← Nat.zero_add number, recordsFrom_add, List.map_map]
  rfl

theorem map_record_parse (text : String) :
    (parse text).map Line.record = recordsOf text.toList :=
  map_record_recordsFrom 1 text.toList

theorem recordsOf_append (left : List Char) (stop : LineEnd) (right : List Char) :
    recordsOf (left ++ stop.chars ++ right) = recordsOf left ++ recordsOf right := by
  rw [recordsOf, recordsFrom_append, List.map_append]
  simp only [map_record_recordsFrom]

end FlashImage.Script
