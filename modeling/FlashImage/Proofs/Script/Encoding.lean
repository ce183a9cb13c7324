import FlashImage.Proofs.Script.Groups
import FlashImage.Script.Blob
import Mathlib.Algebra.Group.Nat.Defs

/-!
# The blob of a script

The encoder holds rows back until their group is complete, and finds out only
then that they are too long.  What it returns is nevertheless the groups of the
whole script one behind the other, or the first row in the script that is too
long.

* `encode_groups`: the blob of a whole script.
-/

namespace FlashImage.Script

inductive Group.WrittenAs : Group → Bytes → Prop where
  | special (selector : UInt32) (payload : Bytes) :
      WrittenAs (.special selector payload)
        ([0xFF, 0xFF, 0xFF, 0xFF, 0x04] ++ Word.encode selector ++ payload)
  | run {r : RowRun} {count : UInt32} {width : UInt8} (h_count : count.toNat = r.rows.length)
      (h_width : width.toNat = r.width) :
      WrittenAs (.run r) (Word.encode count ++ [width] ++ r.rows.flatten)

def Group.encode : Group → Bytes
  | special selector payload => specialMarker ++ Word.encode selector ++ payload
  | run r =>
      Word.encode (UInt32.ofNat r.rows.length) ++ [UInt8.ofNat r.width] ++ r.rows.flatten

/-! ## Rows that are too long -/

def Line.Fits (l : Line) : Prop :=
  l.rowBytes.length ≤ 255

instance (l : Line) : Decidable l.Fits :=
  inferInstanceAs (Decidable (l.rowBytes.length ≤ 255))

inductive FirstTooLong : List Line → RowTooLong → Prop where
  | intro {before after : List Line} {number : Nat} {row : Bytes}
      (fits : ∀ l ∈ before, l.Fits) (long : 255 < row.length) :
      FirstTooLong (before ++ ⟨number, .row row⟩ :: after) ⟨number, row.length⟩

theorem tooLong?_eq_none_iff {lines : List Line} :
    tooLong? lines = none ↔ ∀ l ∈ lines, l.Fits := by
  simp [tooLong?, Line.Fits, List.findSome?_eq_none_iff]

theorem tooLong?_eq_some_iff {lines : List Line} {number length : Nat} :
    tooLong? lines = some (number, length) ↔ FirstTooLong lines ⟨number, length⟩ := by
  rw [tooLong?, List.findSome?_eq_some_iff]
  constructor
  · rintro ⟨before, ⟨_, record⟩, after, rfl, h_long, h_before⟩
    cases record with
    | special selector payload => simp [Line.rowBytes] at h_long
    | row row =>
      split at h_long
      next long =>
        cases h_long
        refine .intro (fun l h_mem => ?_) long
        have h_none := h_before l h_mem
        simpa [Line.Fits] using h_none
      next => cases h_long
  · rintro ⟨fits, long⟩
    refine ⟨_, _, _, rfl, if_pos long, fun l h_mem => if_neg ?_⟩
    exact Nat.not_lt.mpr (fits l h_mem)

theorem exists_firstTooLong_iff {lines : List Line} :
    (∃ e, FirstTooLong lines e) ↔ ∃ l ∈ lines, ¬ l.Fits := by
  cases h_find : tooLong? lines with
  | none =>
    have h_fits := tooLong?_eq_none_iff.mp h_find
    refine iff_of_false ?_ fun ⟨l, h_mem, h_long⟩ => h_long (h_fits l h_mem)
    rintro ⟨e, h_first⟩
    rw [tooLong?_eq_some_iff.mpr h_first] at h_find
    cases h_find
  | some found =>
    obtain ⟨number, length⟩ := found
    have h_first := tooLong?_eq_some_iff.mp h_find
    refine iff_of_true ⟨_, h_first⟩ ?_
    obtain ⟨-, long⟩ := h_first
    exact ⟨_, List.mem_append_right _ List.mem_cons_self, Nat.not_le.mpr long⟩

/-! ## The encoder -/

def PendingRow.line (row : PendingRow) : Line :=
  ⟨row.number, .row row.bytes⟩

namespace Encoder

/-- What is returned when `out` has been written and the given records are left,
with the rows that are held back in front. -/
def result (out : Bytes) (lines : List Line) : Except RowTooLong Bytes :=
  match tooLong? lines with
  | some (line, length) => .error ⟨line, length⟩
  | none => .ok (out ++ (grouped (lines.map Line.record)).flatMap Group.encode)

section Held

variable {first : PendingRow} {rows : List PendingRow}

def heldRun (level : ∀ row ∈ first :: rows, row.bytes.length = first.bytes.length) : RowRun where
  width := first.bytes.length
  rows := (first :: rows).map (·.bytes)
  nonempty := by simp
  uniform := by simpa using level

theorem resized_eq (row : PendingRow) : row.resized row.bytes.length = row.bytes := by
  simp [PendingRow.resized]

/-- Bringing the rows of a group to one length changes none of them. -/
theorem flush_held (level : ∀ row ∈ first :: rows, row.bytes.length = first.bytes.length)
    (out : Array UInt8) :
    flush ⟨out, ⟨first :: rows⟩⟩ =
      if first.bytes.length ≤ 255 then .ok { out := out ++ (Group.run (heldRun level)).encode }
      else .error ⟨first.number, first.bytes.length⟩ := by
  have h_rows : (first :: rows).flatMap (·.resized first.bytes.length) =
      (heldRun level).rows.flatten := by
    rw [List.flatMap_def]
    refine congrArg List.flatten (List.map_congr_left fun row h_mem => ?_)
    rw [← level row h_mem, resized_eq]
  have h_count : (heldRun level).rows.length = (first :: rows).length := List.length_map _
  rw [Group.encode, h_count, ← h_rows]
  rfl

theorem result_held (level : ∀ row ∈ first :: rows, row.bytes.length = first.bytes.length)
    {lines : List Line}
    (apart : ∀ r gs, grouped (lines.map Line.record) = .run r :: gs → first.bytes.length ≠ r.width)
    (out : Bytes) :
    result out ((first :: rows).map PendingRow.line ++ lines) =
      if first.bytes.length ≤ 255 then result (out ++ (Group.run (heldRun level)).encode) lines
      else .error ⟨first.number, first.bytes.length⟩ := by
  have h_grouped : grouped (((first :: rows).map PendingRow.line ++ lines).map Line.record) =
      .run (heldRun level) :: grouped (lines.map Line.record) := by
    rw [heldRun, ← grouped_rows_append _ _ apart, List.map_append, List.map_map, List.map_map]
    rfl
  split
  next fits =>
    have h_long : tooLong? ((first :: rows).map PendingRow.line ++ lines) = tooLong? lines := by
      have h_none : tooLong? ((first :: rows).map PendingRow.line) = none := by
        rw [tooLong?_eq_none_iff]
        intro l h_mem
        obtain ⟨row, h_row, rfl⟩ := List.mem_map.mp h_mem
        exact (level row h_row).trans_le fits
      rw [tooLong?] at h_none ⊢
      rw [List.findSome?_append, h_none]
      rfl
    simp only [result, h_long, h_grouped, List.flatMap_cons, List.append_assoc]
  next long =>
    have h_long : tooLong? ((first :: rows).map PendingRow.line ++ lines) =
        some (first.number, first.bytes.length) := by
      rw [tooLong?, List.map_cons, List.cons_append, List.findSome?_cons]
      simp only [PendingRow.line, Line.rowBytes, gt_iff_lt, Nat.not_le.mp long, if_true]
    simp only [result, h_long]

end Held

/-- The rows that an encoder holds back have one length. -/
def Level (e : Encoder) : Prop :=
  ∀ first ∈ e.pending.toList.head?, ∀ row ∈ e.pending.toList,
    row.bytes.length = first.bytes.length

theorem Level.push {out : Array UInt8} {first : PendingRow} {rows : List PendingRow}
    (level : Level ⟨out, ⟨first :: rows⟩⟩) (row : PendingRow)
    (same : first.bytes.length = row.bytes.length) :
    Level ⟨out, Array.push ⟨first :: rows⟩ row⟩ := by
  simp only [Level, Array.toList_push]
  rintro _ ⟨⟩ r h_mem
  rcases List.mem_append.mp h_mem with h_mem | h_mem
  · exact level first rfl r h_mem
  · rw [List.mem_singleton.mp h_mem, same]

def held (e : Encoder) : List Line :=
  e.pending.toList.map PendingRow.line

/-- Wherever a group is completed, the result stays the same. -/
theorem flush_bind {e : Encoder} (level : e.Level) {lines : List Line}
    (apart : ∀ first ∈ e.pending.toList.head?, ∀ r gs,
      grouped (lines.map Line.record) = .run r :: gs → first.bytes.length ≠ r.width)
    {next : Encoder → Except RowTooLong Bytes}
    (h_next : ∀ out, next { out } = result out.toList lines) :
    e.flush >>= next = result e.out.toList (e.held ++ lines) := by
  obtain ⟨out, ⟨rows⟩⟩ := e
  cases rows with
  | nil => exact h_next out
  | cons first rows =>
    rw [flush_held (level first rfl), held, result_held (level first rfl) (apart first rfl)]
    split
    · show next _ = _
      rw [h_next, Array.toList_appendList]
    · rfl

/-- The records to come, pushed one by one, and the flush at the end. -/
def complete (lines : List Line) (e : Encoder) : Except RowTooLong Bytes := do
  let e ← lines.foldlM push e
  let e ← e.flush
  .ok e.out.toList

theorem complete_cons (l : Line) (lines : List Line) (e : Encoder) :
    complete (l :: lines) e = e.push l >>= complete lines := by
  simp only [complete, List.foldlM_cons, bind_assoc]
  rfl

theorem complete_eq (lines : List Line) {e : Encoder} (level : e.Level) :
    complete lines e = result e.out.toList (e.held ++ lines) := by
  -- on the records to come, whatever has been written and is held back
  induction lines generalizing e with
  | nil =>
    refine flush_bind level (fun _ _ r gs h_eq => by cases h_eq) fun out => ?_
    simp [result, tooLong?, grouped]
  | cons l lines ih =>
    obtain ⟨number, record⟩ := l
    obtain ⟨out, ⟨rows⟩⟩ := e
    rw [complete_cons]
    cases record with
    | special selector payload =>
      show (flush _ >>= _) >>= _ = _
      rw [bind_assoc]
      refine flush_bind level (fun _ _ r gs h_eq => by cases h_eq) fun out => ?_
      show complete lines _ = _
      rw [ih (by simp [Level])]
      simp [result, held, tooLong?, grouped, Line.rowBytes, Group.encode]
    | row row =>
      show (makeRoom _ _ >>= _) >>= _ = _
      rw [bind_assoc]
      cases rows with
      | nil =>
        show complete lines _ = _
        rw [ih (by simp [Level])]
        rfl
      | cons first rows =>
        by_cases same : first.bytes.length = row.length
        · have h_room : makeRoom ⟨out, ⟨first :: rows⟩⟩ row.length = .ok ⟨out, ⟨first :: rows⟩⟩ :=
            if_pos same
          rw [h_room]
          have h_level := level.push ⟨number, row⟩ same
          refine (ih h_level).trans ?_
          simp [held, PendingRow.line]
        · have h_room : makeRoom ⟨out, ⟨first :: rows⟩⟩ row.length = flush ⟨out, ⟨first :: rows⟩⟩ :=
            if_neg same
          rw [h_room]
          refine flush_bind level (fun first' h_first r gs h_eq => ?_) fun out => ?_
          · cases h_first
            obtain ⟨s, hs, h_grouped, h_width⟩ := exists_run_of_row row (lines.map Line.record)
            rw [List.map_cons, h_grouped] at h_eq
            cases h_eq
            rwa [h_width]
          · show complete lines _ = _
            rw [ih (by simp [Level])]
            rfl

end Encoder

theorem encode_eq_result (lines : List Line) : encode lines = Encoder.result [] lines :=
  Encoder.complete_eq lines (e := {}) (by simp [Encoder.Level])

/-! ## Whole scripts -/

def Record.isRow : Record → Bool
  | .row _ => true
  | .special .. => false

def rowCount (lines : List Line) : Nat :=
  (lines.map Line.record).countP Record.isRow

theorem RowRun.length_le_countP {records : List Record} {gs : List Group}
    (grouping : IsGrouping records gs) {r : RowRun} (h_mem : .run r ∈ gs) :
    r.rows.length ≤ records.countP Record.isRow := by
  have h_rows : (Group.run r).records.countP Record.isRow = r.rows.length := by
    simp [Group.records, Record.isRow, Function.comp_def]
  rw [← h_rows, ← grouping.whole, List.flatMap_def]
  exact (List.sublist_flatten_of_mem (List.mem_map_of_mem h_mem)).countP_le

theorem RowRun.width_le {lines : List Line} (fits : ∀ l ∈ lines, l.Fits) {gs : List Group}
    (grouping : IsGrouping (lines.map Line.record) gs) {r : RowRun} (h_mem : .run r ∈ gs) :
    r.width ≤ 255 := by
  obtain ⟨row, h_row⟩ := List.exists_mem_of_ne_nil r.rows r.nonempty
  have h_record : .row row ∈ lines.map Line.record := by
    rw [← grouping.whole]
    exact List.mem_flatMap.mpr ⟨_, h_mem, List.mem_map_of_mem h_row⟩
  obtain ⟨⟨number, record⟩, h_line, rfl⟩ := List.mem_map.mp h_record
  rw [← r.uniform row h_row]
  exact fits _ h_line

theorem writtenAs_encode {lines : List Line} (fits : ∀ l ∈ lines, l.Fits)
    (few : rowCount lines < 2 ^ 32) {gs : List Group}
    (grouping : IsGrouping (lines.map Line.record) gs) {g : Group} (h_mem : g ∈ gs) :
    g.WrittenAs g.encode := by
  cases g with
  | special selector payload => exact .special selector payload
  | run r =>
    have h_count := (RowRun.length_le_countP grouping h_mem).trans_lt few
    have h_width := RowRun.width_le fits grouping h_mem
    exact .run (UInt32.toNat_ofNat_of_lt h_count)
      (UInt8.toNat_ofNat_of_lt (Nat.lt_succ_of_le h_width))

/-- Encoding fails at the first row that is too long.  Otherwise the blob is made
up of the groups of the script, each written as it is; they are the only groups
that the script falls into. -/
theorem encode_groups (lines : List Line) :
    (∀ e, encode lines = .error e ↔ FirstTooLong lines e) ∧
      ((∃ e, encode lines = .error e) ↔ ∃ l ∈ lines, ¬ l.Fits) ∧
      ((∀ l ∈ lines, l.Fits) → rowCount lines < 2 ^ 32 →
        ∃ gs parts, IsGrouping (lines.map Line.record) gs ∧
          (∀ hs, IsGrouping (lines.map Line.record) hs → hs = gs) ∧
          List.Forall₂ Group.WrittenAs gs parts ∧ encode lines = .ok parts.flatten) := by
  have h_error : ∀ e, encode lines = .error e ↔ FirstTooLong lines e := by
    intro e
    obtain ⟨line, length⟩ := e
    rw [← tooLong?_eq_some_iff, encode_eq_result, Encoder.result]
    split
    next h_long => simp [h_long]
    next h_none => simp [h_none]
  refine ⟨h_error, ?_, fun fits few => ?_⟩
  · simp only [h_error, exists_firstTooLong_iff]
  · have grouping : IsGrouping (lines.map Line.record) (grouped (lines.map Line.record)) :=
      isGrouping_iff.mpr rfl
    refine ⟨_, (grouped (lines.map Line.record)).map Group.encode, grouping,
      fun _ => isGrouping_iff.mp, ?_, ?_⟩
    · rw [List.forall₂_map_right_iff, List.forall₂_same]
      exact fun g h_mem => writtenAs_encode fits few grouping h_mem
    · rw [encode_eq_result, Encoder.result, tooLong?_eq_none_iff.mpr fits, List.flatMap_def]
      rfl

/-- Special records at both ends, two rows of one length, and an empty row between
rows of other lengths. -/
def mixedScript : List Line :=
  [⟨1, .special 5 [1, 2]⟩, ⟨2, .row [0xAA, 0xBB]⟩, ⟨3, .row [0xCC, 0xDD]⟩, ⟨4, .row []⟩,
    ⟨6, .row [0xEE]⟩, ⟨7, .special 0 []⟩]

theorem encode_groups_mixed :
    (∀ l ∈ mixedScript, l.Fits) ∧ rowCount mixedScript < 2 ^ 32 ∧
      ∃ gs parts, IsGrouping (mixedScript.map Line.record) gs ∧ gs.length = 5 ∧
        List.Forall₂ Group.WrittenAs gs parts ∧ encode mixedScript = .ok parts.flatten ∧
        parts.flatten =
          [0xFF, 0xFF, 0xFF, 0xFF, 4, 5, 0, 0, 0, 1, 2, 2, 0, 0, 0, 2, 0xAA, 0xBB, 0xCC, 0xDD,
            1, 0, 0, 0, 0, 1, 0, 0, 0, 1, 0xEE, 0xFF, 0xFF, 0xFF, 0xFF, 4, 0, 0, 0, 0] := by
  have fits : ∀ l ∈ mixedScript, l.Fits := by decide
  have few : rowCount mixedScript < 2 ^ 32 := by decide
  obtain ⟨gs, parts, grouping, unique, written, h_blob⟩ :=
    (encode_groups mixedScript).2.2 fits few
  have h_blob' : encode mixedScript = .ok
      [0xFF, 0xFF, 0xFF, 0xFF, 4, 5, 0, 0, 0, 1, 2, 2, 0, 0, 0, 2, 0xAA, 0xBB, 0xCC, 0xDD,
        1, 0, 0, 0, 0, 1, 0, 0, 0, 1, 0xEE, 0xFF, 0xFF, 0xFF, 0xFF, 4, 0, 0, 0, 0] := by rfl
  refine ⟨fits, few, gs, parts, grouping, ?_, written, h_blob, ?_⟩
  · rw [isGrouping_iff.mp grouping]
    rfl
  · rw [h_blob] at h_blob'
    exact Except.ok.inj h_blob'

end FlashImage.Script
