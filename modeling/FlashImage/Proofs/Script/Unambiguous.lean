import FlashImage.Proofs.Codec
import FlashImage.Proofs.Script.Encoding

/-!
# Blobs of rows

Nothing separates the groups of a blob, but a run of rows opens with the number and the
length of its rows and so tells where it ends.  A blob that has no special records
therefore tells its rows, those without bytes included.

* `encode_rows_eq_iff`: row scripts with one blob have the same rows.
-/

namespace FlashImage.Script

/-- The script is rows alone, and their number and lengths can be written. -/
structure RowScript (lines : List Line) : Prop where
  rows : ∀ l ∈ lines, l.record.isRow
  few : lines.length < 2 ^ 32
  fits : ∀ l ∈ lines, l.Fits

/-! ## One run -/

theorem RowRun.map_length (r : RowRun) :
    r.rows.map List.length = List.replicate r.rows.length r.width := by
  rw [← List.map_const']
  exact List.map_congr_left r.uniform

theorem RowRun.eq_of_rows_eq {r s : RowRun} (h_rows : r.rows = s.rows) : r = s := by
  obtain ⟨row, h_mem⟩ := List.exists_mem_of_ne_nil r.rows r.nonempty
  have h_width : r.width = s.width := by
    rw [← r.uniform row h_mem, ← s.uniform row (h_rows ▸ h_mem)]
  cases r
  cases s
  subst h_rows h_width
  rfl

/-- The number and the length of the rows tell where the run ends, and then the row ends. -/
theorem Group.WrittenAs.run_append_inj {r s : RowRun} {p q x y : Bytes}
    (h_r : WrittenAs (.run r) p) (h_s : WrittenAs (.run s) q) (h_bytes : p ++ x = q ++ y) :
    r = s ∧ x = y := by
  cases h_r with
  | @run _ count width h_count h_width =>
    cases h_s with
    | @run _ count' width' h_count' h_width' =>
      simp only [List.append_assoc] at h_bytes
      have h_read := congrArg Word.read? h_bytes
      simp only [Word.read?_encode_append, Option.some.injEq, Prod.mk.injEq, List.cons_append,
        List.nil_append, List.cons.injEq] at h_read
      obtain ⟨rfl, rfl, h_tail⟩ := h_read
      have h_lengths : r.rows.map List.length = s.rows.map List.length := by
        rw [r.map_length, s.map_length, ← h_count, ← h_count', ← h_width, ← h_width']
      have h_flat : r.rows.flatten.length = s.rows.flatten.length := by
        rw [List.length_flatten, List.length_flatten, h_lengths]
      obtain ⟨h_rows, h_rest⟩ := List.append_inj h_tail h_flat
      exact ⟨RowRun.eq_of_rows_eq (List.eq_iff_flatten_eq.mpr ⟨h_rows, h_lengths⟩), h_rest⟩

/-! ## Runs in a row -/

/-- A run whose bytes tell what it is. -/
inductive Group.Telling : Group → Prop where
  | run {r : RowRun} (written : WrittenAs (.run r) (Group.run r).encode) : Telling (.run r)

theorem Group.Telling.encode_ne_nil {g : Group} (telling : g.Telling) : g.encode ≠ [] := by
  cases telling with
  | run => simp [Group.encode]

theorem groups_eq_of_blob_eq {gs hs : List Group} (h_gs : ∀ g ∈ gs, g.Telling)
    (h_hs : ∀ h ∈ hs, h.Telling) (h_blob : gs.flatMap Group.encode = hs.flatMap Group.encode) :
    gs = hs := by
  -- on the groups of the one blob; the other has its first group where this one has it
  induction gs generalizing hs with
  | nil =>
    cases hs with
    | nil => rfl
    | cons h hs =>
      have h_nil := (List.append_eq_nil_iff.mp h_blob.symm).1
      exact absurd h_nil (h_hs h List.mem_cons_self).encode_ne_nil
  | cons g gs ih =>
    cases hs with
    | nil =>
      have h_nil := (List.append_eq_nil_iff.mp h_blob).1
      exact absurd h_nil (h_gs g List.mem_cons_self).encode_ne_nil
    | cons h hs =>
      rw [List.flatMap_cons, List.flatMap_cons] at h_blob
      obtain ⟨h_first, h_others⟩ := List.forall_mem_cons.mp h_gs
      obtain ⟨h_first', h_others'⟩ := List.forall_mem_cons.mp h_hs
      cases h_first with
      | run written =>
        cases h_first' with
        | run written' =>
          obtain ⟨rfl, h_rest⟩ := written.run_append_inj written' h_blob
          rw [ih h_others h_others' h_rest]

/-! ## Row scripts -/

namespace RowScript

variable {lines : List Line}

theorem telling (script : RowScript lines) :
    ∀ g ∈ grouped (lines.map Line.record), g.Telling := by
  intro g h_mem
  have grouping := isGrouping_grouped (lines.map Line.record)
  have h_few : rowCount lines < 2 ^ 32 := by
    refine Nat.lt_of_le_of_lt List.countP_le_length ?_
    rw [List.length_map]
    exact script.few
  have written := writtenAs_encode script.fits h_few grouping h_mem
  cases g with
  | run r => exact .run written
  | special selector payload =>
    have h_record : Record.special selector payload ∈ lines.map Line.record := by
      rw [← grouping.whole]
      exact List.mem_flatMap.mpr ⟨_, h_mem, List.mem_singleton_self _⟩
    obtain ⟨l, h_line, h_special⟩ := List.mem_map.mp h_record
    have h_row := script.rows l h_line
    rw [h_special] at h_row
    contradiction

theorem encode_eq (script : RowScript lines) :
    encode lines = .ok ((grouped (lines.map Line.record)).flatMap Group.encode) := by
  rw [encode_eq_result, Encoder.result, tooLong?_eq_none_iff.mpr script.fits, List.nil_append]

end RowScript

/-- A row script has a blob, and the scripts of the same rows are the only row scripts that
have this blob. -/
theorem encode_rows_eq_iff {lines lines' : List Line} (script : RowScript lines)
    (script' : RowScript lines') :
    ∃ blob, encode lines = .ok blob ∧
      (encode lines' = .ok blob ↔ lines'.map Line.record = lines.map Line.record) := by
  refine ⟨_, script.encode_eq, ?_⟩
  rw [script'.encode_eq, Except.ok.injEq]
  constructor
  · intro h_blob
    have h_groups := groups_eq_of_blob_eq script'.telling script.telling h_blob
    rw [← (isGrouping_grouped (lines'.map Line.record)).whole, h_groups,
      (isGrouping_grouped (lines.map Line.record)).whole]
  · intro h_records
    rw [h_records]

/-- Two rows without bytes and one of a byte. -/
def shortRows : List Line :=
  [⟨1, .row []⟩, ⟨2, .row []⟩, ⟨5, .row [7]⟩]

theorem encode_rows_eq_iff_shortRows :
    RowScript shortRows ∧ RowScript (shortRows.map fun l => { l with number := 0 }) ∧
      encode shortRows = .ok [2, 0, 0, 0, 0, 1, 0, 0, 0, 1, 7] ∧
      encode (shortRows.map fun l => { l with number := 0 }) =
        .ok [2, 0, 0, 0, 0, 1, 0, 0, 0, 1, 7] := by
  have script : RowScript shortRows := ⟨by decide, by decide, by decide⟩
  have script' : RowScript (shortRows.map fun l => { l with number := 0 }) :=
    ⟨by decide, by decide, by decide⟩
  obtain ⟨blob, h_blob, h_iff⟩ := encode_rows_eq_iff script script'
  have h_bytes : encode shortRows = .ok [2, 0, 0, 0, 0, 1, 0, 0, 0, 1, 7] := by rfl
  obtain rfl := Except.ok.inj (h_blob.symm.trans h_bytes)
  exact ⟨script, script', h_bytes, h_iff.mpr rfl⟩

-- a special record is not told from the rows behind it
example : encode [⟨1, .special 5 [1, 0, 0, 0, 1, 7]⟩] =
    encode [⟨1, .special 5 []⟩, ⟨2, .row [7]⟩] := by
  rfl

end FlashImage.Script
