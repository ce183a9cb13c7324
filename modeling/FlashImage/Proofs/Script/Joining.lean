import FlashImage.Proofs.Script.Blob

/-!
# Scripts one behind the other

Two scripts with a line feed between them hold the records of the one and then
those of the other, whatever they end and begin with: a carriage return in front
of the line feed, an empty line, an open comment.  Their blobs follow each other
as well, unless rows of one length meet and become one group.

* `transcode_joined`: when joined texts have a blob, and which.
-/

namespace FlashImage.Script

/-- Two texts with a line feed between them. -/
def joined (a b : String) : String :=
  a ++ "\n" ++ b

theorem toList_joined (a b : String) :
    (joined a b).toList = a.toList ++ LineEnd.lf.chars ++ b.toList := by
  rw [joined, String.toList_append, String.toList_append]
  rfl

theorem parse_joined (a b : String) :
    parse (joined a b) = parse a ++ (parse b).map (Line.shift (1 + a.toList.count '\n')) := by
  have h_count : (a.toList ++ LineEnd.lf.chars).count '\n' = 1 + a.toList.count '\n' := by
    rw [List.count_append, Nat.add_comm]
    rfl
  rw [parse_eq_recordsFrom, toList_joined, recordsFrom_append, recordsFrom_add, h_count]
  rfl

theorem recordsOf_joined (a b : String) :
    recordsOf (joined a b).toList = recordsOf a.toList ++ recordsOf b.toList := by
  rw [toList_joined, recordsOf_append]

theorem transcode_eq_ok_iff {text : String} {blob : Bytes} :
    transcode text = .ok blob ↔ blobOf (recordsOf text.toList) = some blob := by
  rw [← toOption_transcode]
  cases transcode text <;> simp [Except.toOption]

theorem exists_transcode_iff {text : String} :
    (∃ blob, transcode text = .ok blob) ↔ (blobOf (recordsOf text.toList)).isSome := by
  simp only [transcode_eq_ok_iff, Option.isSome_iff_exists]

theorem not_meet_of_nil {left right : List Record} (h : left = [] ∨ right = []) :
    ¬ Meet left right := by
  rintro ⟨r, s, h_left, h_right, -⟩
  rcases h with rfl | rfl
  · cases h_left
  · cases h_right

/-- Joined texts have a blob if both texts have one, and the records of the second
text come behind those of the first with later numbers.  Unless rows of one length
meet, which takes a record on either side, so do the blobs. -/
theorem transcode_joined (a b : String) :
    ((∃ blob, transcode (joined a b) = .ok blob) ↔
        (∃ blob, transcode a = .ok blob) ∧ ∃ blob, transcode b = .ok blob) ∧
      parse (joined a b) = parse a ++ (parse b).map (Line.shift (1 + a.toList.count '\n')) ∧
      (¬ Meet ((parse a).map Line.record) ((parse b).map Line.record) →
        ∀ x y, transcode a = .ok x → transcode b = .ok y →
          transcode (joined a b) = .ok (x ++ y)) ∧
      (parse a = [] ∨ parse b = [] →
        ¬ Meet ((parse a).map Line.record) ((parse b).map Line.record)) := by
  refine ⟨?_, parse_joined a b, fun apart x y h_a h_b => ?_, fun h_nil => ?_⟩
  · rw [exists_transcode_iff, exists_transcode_iff, exists_transcode_iff, recordsOf_joined]
    exact isSome_blobOf_append _ _
  · rw [map_record_parse, map_record_parse] at apart
    rw [transcode_eq_ok_iff] at h_a h_b ⊢
    rw [recordsOf_joined]
    exact blobOf_append apart h_a h_b
  · exact not_meet_of_nil
      (h_nil.imp (congrArg (List.map Line.record)) (congrArg (List.map Line.record)))

/-- A carriage return and an empty line at the seam, between rows of other lengths. -/
theorem transcode_joined_seam :
    parse (joined "0x81,7\n1,2 // 3\r" "\n5,6,7\r\n/") =
        [⟨1, .special 1 [7]⟩, ⟨2, .row [2]⟩, ⟨4, .row [6, 7]⟩] ∧
      transcode (joined "0x81,7\n1,2 // 3\r" "\n5,6,7\r\n/") = .ok
        ([0xFF, 0xFF, 0xFF, 0xFF, 4, 1, 0, 0, 0, 7, 1, 0, 0, 0, 1, 2] ++
          [1, 0, 0, 0, 2, 6, 7]) := by
  obtain ⟨-, h_parse, h_blob, -⟩ := transcode_joined "0x81,7\n1,2 // 3\r" "\n5,6,7\r\n/"
  refine ⟨h_parse.trans rfl, h_blob ?_ _ _ rfl rfl⟩
  rintro ⟨r, s, h_left, h_right, h_length⟩
  cases h_left
  cases h_right
  cases h_length

end FlashImage.Script
