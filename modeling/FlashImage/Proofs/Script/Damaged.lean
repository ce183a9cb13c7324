import FlashImage.Proofs.Script.Lines
import FlashImage.Proofs.Utf8.Ascii
import FlashImage.Script.File

/-!
# Damaged script files

What is broken in a file is left out before its lines are read.  Line ends, commas, slashes
and digits are ASCII, so they all stay, and it is as if the bytes of the file were cut into
lines first and each line decoded by itself.

* `damaged_script`: what is read of a file.
-/

namespace FlashImage.Script

open Text Utf8

/-! ## Lines of bytes -/

/-- The bytes that end a line. -/
def IsStop (b : UInt8) : Prop :=
  b = 0x0A ∨ b = 0x0D

/-- The lines of a file with their numbers, cut where its bytes are line ends. -/
def byteSegments (content : Bytes) : List (Nat × Bytes) :=
  ((content.splitOn 0x0A).zipIdx 1).flatMap fun (line, number) =>
    (line.splitOn 0x0D).map fun part => (number, part)

/-- A line stands between two line ends, and its number is one more than that of the line
feeds in front of it. -/
inductive LineAt : Bytes → Nat → Bytes → Prop where
  | intro {before line after : Bytes} (plain : ∀ b ∈ line, ¬ IsStop b)
      (front : ∀ b ∈ before.getLast?, IsStop b) (back : ∀ b ∈ after.head?, IsStop b) :
      LineAt (before ++ line ++ after) (1 + before.count 0x0A) line

/-- A part stands between two marks, and has as many marks in front of it as parts. -/
theorem exists_of_getElem?_splitOn {mark : UInt8} {d part : Bytes} {i : Nat}
    (h : (d.splitOn mark)[i]? = some part) :
    ∃ before after, d = before ++ part ++ after ∧ before.count mark = i ∧ mark ∉ part ∧
      (∀ b ∈ before.getLast?, b = mark) ∧ ∀ b ∈ after.head?, b = mark := by
  induction d using split_induction mark generalizing i with
  | last d h_plain =>
    rw [List.splitOn_eq_singleton h_plain, List.getElem?_singleton] at h
    split at h
    next h_first =>
      obtain rfl := Option.some.inj h
      exact ⟨[], [], by simp, h_first.symm, h_plain, nofun, nofun⟩
    next => cases h
  | next first rest h_plain ih =>
    rw [List.splitOn_append_cons_self, List.splitOn_eq_singleton h_plain] at h
    cases i with
    | zero =>
      obtain rfl : first = part := Option.some.inj h
      exact ⟨[], mark :: rest, rfl, rfl, h_plain, nofun, by simp⟩
    | succ i =>
      obtain ⟨before, after, rfl, h_count, h_part, h_front, h_back⟩ := ih h
      refine ⟨first ++ mark :: before, after, by simp, ?_, h_part, ?_, h_back⟩
      · rw [List.count_append, List.count_cons_self, List.count_eq_zero_of_not_mem h_plain, h_count]
        omega
      · cases h_last : before.getLast? <;> simp_all [List.getLast?_append, List.getLast?_cons]

theorem lineAt_of_mem {content line : Bytes} {number : Nat}
    (h : (number, line) ∈ byteSegments content) : LineAt content number line := by
  simp only [byteSegments, List.mem_flatMap, List.mem_map, Prod.mk.injEq, Prod.exists,
    List.mk_mem_zipIdx_iff_le_and_getElem?_sub] at h
  obtain ⟨part, number, ⟨h_le, h_part⟩, line, h_line, rfl, rfl⟩ := h
  obtain ⟨i, h_line⟩ := List.getElem?_of_mem h_line
  -- the part between two line feeds, and in it the line between two carriage returns
  obtain ⟨before, after, rfl, h_count, h_lf, h_front, h_back⟩ := exists_of_getElem?_splitOn h_part
  obtain ⟨inner, outer, rfl, -, h_cr, h_first, h_last⟩ := exists_of_getElem?_splitOn h_line
  have h_inner : inner.count 0x0A = 0 := List.count_eq_zero_of_not_mem (by simp_all)
  have h_number : number = 1 + (before ++ inner).count 0x0A := by
    rw [List.count_append, h_count, h_inner]
    omega
  have h_content : before ++ (inner ++ line ++ outer) ++ after =
      (before ++ inner) ++ line ++ (outer ++ after) := by simp
  rw [h_content, h_number]
  refine .intro ?_ ?_ ?_
  · rintro b h_mem (rfl | rfl)
    · exact h_lf (by simp [h_mem])
    · exact h_cr h_mem
  · intro b h_mem
    rw [List.getLast?_append] at h_mem
    cases h_inside : inner.getLast? with
    | none => exact .inl (h_front b (by simpa [h_inside] using h_mem))
    | some c => exact .inr (h_first b (by simpa [h_inside] using h_mem))
  · intro b h_mem
    rw [List.head?_append] at h_mem
    cases h_inside : outer.head? with
    | none => exact .inl (h_back b (by simpa [h_inside] using h_mem))
    | some c => exact .inr (h_last b (by simpa [h_inside] using h_mem))

theorem segments_decodeValid (content : Bytes) :
    segments (decodeValid content).toList =
      (byteSegments content).map fun s => (s.1, (decodeValid s.2).toList) := by
  have h_lf := splitOn_decodeValid (b := 0x0A) (by decide) content
  have h_cr := splitOn_decodeValid (b := 0x0D) (by decide)
  have h_newline : Char.ofNat (0x0A : UInt8).toNat = '\n' := rfl
  have h_return : Char.ofNat (0x0D : UInt8).toNat = '\r' := rfl
  rw [h_newline] at h_lf
  rw [h_return] at h_cr
  simp only [segments, byteSegments, h_lf, h_cr, List.zipIdx_map, List.flatMap_map,
    List.map_flatMap, List.map_map, Function.comp_def, Prod.map]
  rfl

/-- The records of a file are those of its lines, each decoded by itself. -/
theorem ofBytes_eq (content : Bytes) :
    ofBytes content =
      (byteSegments content).filterMap fun s => lineOf? (s.1, (decodeValid s.2).toList) := by
  rw [ofBytes, parse, segments_decodeValid, List.filterMap_map]
  simp only [Function.comp_def]

/-- Whatever is broken in a file, its ASCII bytes stay as they are and where they are: each
of them parts what is read in front of it from what is read behind it.  So the lines and
their numbers are those of the file, and a file that is not broken is read as its text. -/
theorem damaged_script (files : FileTree) (path : String) (content : Bytes)
    (h_read : files.read path = .ok content) :
    ofFile files path = .ok (parse (decodeValid content)) ∧
    (asciiChars (decodeValid content).toList).map Char.toNat =
      (asciiBytes content).map UInt8.toNat ∧
    (∀ text, content = Utf8.encode text →
      decodeValid content = text ∧ ofFile files path = .ok (parse text)) ∧
    (∀ before b after, content = before ++ b :: after → b.toNat < 0x80 →
      (decodeValid content).toList =
        (decodeValid before).toList ++ Char.ofNat b.toNat :: (decodeValid after).toList) ∧
    parse (decodeValid content) =
      ((byteSegments content).filterMap fun s => lineOf? (s.1, (decodeValid s.2).toList)) ∧
    ∀ number line, (number, line) ∈ byteSegments content → LineAt content number line := by
  have h_file : ofFile files path = .ok (parse (decodeValid content)) := by
    rw [ofFile, h_read]
    rfl
  refine ⟨h_file, asciiChars_decodeValid content, ?_, ?_, ofBytes_eq content,
    fun _ _ => lineAt_of_mem⟩
  · rintro text rfl
    rw [decodeValid_encode] at h_file ⊢
    exact ⟨rfl, h_file⟩
  · rintro before b after rfl h_ascii
    exact toList_decodeValid_append h_ascii before after

/-- A sequence that lacks its last byte in front of a line feed, one in front of a comma, one
in front of two line feeds, and a stray byte in front of a carriage return. -/
def brokenContent : Bytes :=
  [0x31, 0xE2, 0x82, 0x0A, 0x31, 0xC3, 0x2C, 0x32, 0xF0, 0x9F, 0x0A, 0x0A, 0x38, 0x35, 0xBF, 0x0D,
    0x32, 0x2C, 0x33]

theorem damaged_script_broken :
    let files : FileTree :=
      { entries := [("broken.txt", .file (Image.ofBytes brokenContent) 0o644),
          ("whole.txt", .file (Image.ofBytes (Utf8.encode "1,2 // ß")) 0o644)] }
    (files.read "broken.txt" = .ok brokenContent ∧
      ofFile files "broken.txt" =
        .ok [⟨1, .row []⟩, ⟨2, .row [2]⟩, ⟨4, .special 5 []⟩, ⟨4, .row [3]⟩] ∧
      (decodeValid brokenContent).toList =
        ['1'] ++ '\n' :: (decodeValid (brokenContent.drop 4)).toList ∧
      LineAt brokenContent 4 [0x32, 0x2C, 0x33]) ∧
    files.read "whole.txt" = .ok (Utf8.encode "1,2 // ß") ∧
      ofFile files "whole.txt" = .ok (parse "1,2 // ß") := by
  intro files
  have h_broken : files.read "broken.txt" = .ok brokenContent := by decide +kernel
  have h_whole : files.read "whole.txt" = .ok (Utf8.encode "1,2 // ß") := by decide +kernel
  obtain ⟨h_file, -, -, h_parted, -, h_lines⟩ := damaged_script files _ _ h_broken
  obtain ⟨-, -, h_text, -⟩ := damaged_script files _ _ h_whole
  have h_records : parse (decodeValid brokenContent) =
      [⟨1, .row []⟩, ⟨2, .row [2]⟩, ⟨4, .special 5 []⟩, ⟨4, .row [3]⟩] := by decide +kernel
  have h_front : (decodeValid (brokenContent.take 3)).toList = ['1'] := by decide +kernel
  refine ⟨⟨h_broken, h_records ▸ h_file, ?_, h_lines _ _ (by decide)⟩, h_whole, (h_text _ rfl).2⟩
  rw [h_parted (brokenContent.take 3) 0x0A (brokenContent.drop 4) rfl (by decide), h_front]
  rfl

end FlashImage.Script
