import FlashImage.Proofs.Script.Encoding
import FlashImage.Proofs.Script.Lines
import FlashImage.Script.File

/-!
# Blobs of records

The numbers of the lines are needed for the message about a row that is too long,
and for nothing else.

* `blobOf_append`: the blob of records one behind the other.
-/

namespace FlashImage.Script

/-! ## Records without numbers -/

/-- A record fits on whatever line it stands. -/
def Record.Fits (r : Record) : Prop :=
  (Line.mk 0 r).Fits

instance (r : Record) : Decidable r.Fits :=
  inferInstanceAs (Decidable (Line.mk 0 r).Fits)

theorem Line.fits_iff {l : Line} : l.Fits ↔ l.record.Fits := Iff.rfl

/-- The blob of records, if all rows fit. -/
def blobOf (records : List Record) : Option Bytes :=
  if ∀ r ∈ records, r.Fits then some ((grouped records).flatMap Group.encode) else none

theorem toOption_encode (lines : List Line) :
    (encode lines).toOption = blobOf (lines.map Line.record) := by
  have h_fits : (∀ r ∈ lines.map Line.record, r.Fits) ↔ tooLong? lines = none := by
    simp only [tooLong?_eq_none_iff, List.forall_mem_map, Line.fits_iff]
  rw [encode_eq_result, Encoder.result, blobOf]
  simp only [h_fits]
  cases tooLong? lines with
  | none => rfl
  | some found => rfl

theorem toOption_transcode (text : String) :
    (transcode text).toOption = blobOf (recordsOf text.toList) := by
  have h_blob : (transcode text).toOption = (encode (parse text)).toOption := by
    rw [transcode, blob]
    cases encode (parse text) <;> rfl
  rw [h_blob, toOption_encode, map_record_parse]

/-! ## Records that follow others -/

/-- Rows of one length meet: one ends the first records, another begins the others. -/
def Meet (left right : List Record) : Prop :=
  ∃ r s, left.getLast? = some (.row r) ∧ right.head? = some (.row s) ∧ r.length = s.length

theorem Group.exists_row_of_mem_getLast? {gs : List Group} {r : RowRun}
    (h_last : .run r ∈ gs.getLast?) :
    ∃ row, (gs.flatMap Group.records).getLast? = some (.row row) ∧ row.length = r.width := by
  obtain ⟨init, rfl⟩ := List.getLast?_eq_some_iff.mp h_last
  obtain ⟨rows, row, h_rows⟩ := List.eq_nil_or_concat r.rows |>.resolve_left r.nonempty
  refine ⟨row, ?_, r.uniform row (by rw [h_rows]; simp)⟩
  simp [Group.records, h_rows]

theorem Group.exists_row_of_mem_head? {gs : List Group} {r : RowRun} (h_head : .run r ∈ gs.head?) :
    ∃ row, (gs.flatMap Group.records).head? = some (.row row) ∧ row.length = r.width := by
  obtain ⟨rest, rfl⟩ := List.head?_eq_some_iff.mp h_head
  obtain ⟨row, rows, h_rows⟩ := List.exists_cons_of_ne_nil r.nonempty
  refine ⟨row, ?_, r.uniform row (by rw [h_rows]; simp)⟩
  simp [Group.records, h_rows]

theorem grouped_append {left right : List Record} (apart : ¬ Meet left right) :
    grouped (left ++ right) = grouped left ++ grouped right := by
  have h_left := isGrouping_grouped left
  have h_right := isGrouping_grouped right
  refine (IsGrouping.eq_grouped ⟨?_, ?_⟩).symm
  · rw [List.flatMap_append, h_left.whole, h_right.whole]
  · refine List.isChain_append.mpr ⟨h_left.maximal, h_right.maximal, fun g h_g h h_h joins => ?_⟩
    cases g with
    | special => exact joins
    | run r =>
      cases h with
      | special => exact joins
      | run s =>
        obtain ⟨row, h_last, h_row⟩ := Group.exists_row_of_mem_getLast? h_g
        obtain ⟨row', h_head, h_row'⟩ := Group.exists_row_of_mem_head? h_h
        rw [h_left.whole] at h_last
        rw [h_right.whole] at h_head
        exact apart ⟨row, row', h_last, h_head, h_row.trans (joins.trans h_row'.symm)⟩

theorem isSome_blobOf_append (left right : List Record) :
    (blobOf (left ++ right)).isSome ↔ (blobOf left).isSome ∧ (blobOf right).isSome := by
  simp [blobOf, or_imp, forall_and]

theorem blobOf_append {left right : List Record} (apart : ¬ Meet left right) {x y : Bytes}
    (h_left : blobOf left = some x) (h_right : blobOf right = some y) :
    blobOf (left ++ right) = some (x ++ y) := by
  rw [blobOf, Option.ite_none_right_eq_some, Option.some.injEq] at h_left h_right ⊢
  obtain ⟨fits_left, rfl⟩ := h_left
  obtain ⟨fits_right, rfl⟩ := h_right
  refine ⟨fun r h_mem => (List.mem_append.mp h_mem).elim (fits_left r) (fits_right r), ?_⟩
  rw [grouped_append apart, List.flatMap_append]

end FlashImage.Script
