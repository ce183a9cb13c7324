import FlashImage.Proofs.Codec
import Mathlib.Data.List.TakeWhile

/-!
# Names cut to their fields

A name is stored up to its first zero character and in at most fifteen bytes.  If the
last of them fall inside a character, U+FFFD is read in its place, which takes up three
bytes; so what is read may be longer than its field, but it is cut as before.

* `names_kept`: which names come back as they were written.
-/

namespace FlashImage

namespace NameField

open Utf8

def beforeZero (text : List Char) : List Char :=
  text.takeWhile (· ≠ '\x00')

/-- The longest run of whole characters at the front of a text that takes up at most `n`
bytes. -/
structure LongestFit (n : Nat) (text front : List Char) : Prop where
  isFront : front <+: text
  fits : size front ≤ n
  longest : ∀ other, other <+: text → size other ≤ n → other.length ≤ front.length

/-- What is read back of a text without zero characters: the text itself, or as many of its
characters as fit, with a replacement if there is room for a part of the next one. -/
inductive Kept (text : List Char) : List Char → Prop where
  | whole (fits : size text ≤ 15) : Kept text text
  | full {front : List Char} (exceeds : 15 < size text) (longest : LongestFit 15 text front)
      (full : size front = 15) : Kept text front
  | cut {front : List Char} (exceeds : 15 < size text) (longest : LongestFit 15 text front)
      (room : size front < 15) : Kept text (front ++ ['\uFFFD'])

variable {text front other : List Char} {n : Nat}

/-! ## One result -/

theorem LongestFit.unique (h : LongestFit n text front) (h' : LongestFit n text other) :
    front = other := by
  have h_le := h'.longest front h.isFront h.fits
  have h_ge := h.longest other h'.isFront h'.fits
  exact (List.prefix_of_prefix_length_le h.isFront h'.isFront h_le).eq_of_length_le h_ge

theorem Kept.unique (h : Kept text front) (h' : Kept text other) : front = other := by
  cases h with
  | whole fits =>
    cases h' with
    | whole => rfl
    | full exceeds => omega
    | cut exceeds => omega
  | full exceeds longest full =>
    cases h' with
    | whole fits => omega
    | full _ longest' => exact longest.unique longest'
    | cut _ longest' room =>
      obtain rfl := longest.unique longest'
      omega
  | cut exceeds longest room =>
    cases h' with
    | whole fits => omega
    | full _ longest' full =>
      obtain rfl := longest.unique longest'
      omega
    | cut _ longest' =>
      obtain rfl := longest.unique longest'
      rfl

/-! ## What is read back -/

/-- A run of characters that ends where the next one does not fit is the longest one. -/
theorem longestFit_of_next {rest : List Char} (h_fits : size front ≤ n)
    (h_next : ∀ c ∈ rest.head?, n < size front + c.utf8Size) :
    LongestFit n (front ++ rest) front := by
  refine ⟨List.prefix_append front rest, h_fits, fun other h_other h_size => ?_⟩
  by_contra h_longer
  obtain ⟨more, rfl⟩ := List.prefix_of_prefix_length_le (List.prefix_append front rest) h_other
    (by omega)
  cases more with
  | nil => simp at h_longer
  | cons c more =>
    obtain ⟨behind, h_rest⟩ := (List.prefix_append_right_inj front).mp h_other
    have h_over := h_next c (by simp [← h_rest])
    simp only [size_append, size_cons] at h_size
    omega

theorem decode_encode_eq (name : String) :
    decode (encode name) =
      decodeLossy (((beforeZero name.toList).flatMap String.utf8EncodeChar).take 15) := by
  have h_zeros : ∀ (kept : Bytes) (k : Nat),
      (kept ++ List.replicate k 0).takeWhile (· != 0) = kept.takeWhile (· != 0) := by
    intro kept k
    have h_none : (List.replicate k (0 : UInt8)).takeWhile (· != 0) = [] := by
      simp
    rw [List.takeWhile_append, h_none, List.append_nil]
    split
    next h_length => exact ((List.takeWhile_prefix _).eq_of_length h_length).symm
    next => rfl
  rw [decode, encode, h_zeros, ← List.take_takeWhile, Utf8.encode,
    takeWhile_flatMap_utf8EncodeChar]
  rfl

theorem kept_decode_encode (name : String) :
    Kept (beforeZero name.toList) (decode (encode name)).toList := by
  obtain ⟨front, rest, h_text, h_fits, h_next, h_pieces⟩ :=
    exists_pieces_take 15 (beforeZero name.toList)
  have longest : LongestFit 15 (front ++ rest) front := longestFit_of_next h_fits h_next
  have h_chars : (front.map Piece.char).map Piece.charOrReplacement = front := by
    simp [Function.comp_def, Piece.charOrReplacement]
  rw [decode_encode_eq, decodeLossy, h_pieces, h_text, String.toList_ofList, List.map_append,
    h_chars]
  cases rest with
  | nil => simpa using Kept.whole h_fits
  | cons c rest =>
    have h_over : 15 < size (front ++ c :: rest) := by
      have h_over := h_next c rfl
      simp only [size_append, size_cons]
      omega
    by_cases h_full : size front = 15
    · simpa [h_full] using Kept.full h_over longest h_full
    · simpa [h_full, Piece.charOrReplacement] using Kept.cut h_over longest (by omega)

/-! ## Written again -/

/-- What is read back of a text is read back of itself. -/
theorem Kept.again (h : Kept text front) : Kept front front := by
  cases h with
  | whole fits => exact .whole fits
  | full exceeds longest full => exact .whole (Nat.le_of_eq full)
  | @cut front exceeds longest room =>
    by_cases h_fits : size (front ++ ['\uFFFD']) ≤ 15
    · exact .whole h_fits
    · -- the replacement does not fit, so it is cut and replaced by itself
      refine .cut (Nat.lt_of_not_le h_fits) ⟨List.prefix_append _ _, Nat.le_of_lt room, ?_⟩ room
      intro other h_other h_size
      rcases List.prefix_concat_iff.mp h_other with rfl | h_front
      · exact absurd h_size h_fits
      · exact h_front.length_le

theorem Kept.zero_notMem (h : Kept text front) (h_text : '\x00' ∉ text) : '\x00' ∉ front := by
  cases h with
  | whole => exact h_text
  | full _ longest => exact fun h_mem => h_text (longest.isFront.subset h_mem)
  | cut _ longest =>
    rw [List.mem_append]
    rintro (h_mem | h_mem)
    · exact h_text (longest.isFront.subset h_mem)
    · simp at h_mem

theorem zero_notMem_beforeZero (text : List Char) : '\x00' ∉ beforeZero text := by
  intro h_mem
  simpa using List.mem_takeWhile_imp h_mem

theorem beforeZero_eq_self (h : '\x00' ∉ text) : beforeZero text = text := by
  rw [beforeZero, List.takeWhile_eq_self_iff]
  intro c h_mem
  simp [ne_of_mem_of_not_mem h_mem h]

theorem decode_encode_eq_iff {name kept : String} :
    decode (encode name) = kept ↔ Kept (beforeZero name.toList) kept.toList := by
  constructor
  · rintro rfl
    exact kept_decode_encode name
  · intro h
    exact String.toList_inj.mp ((kept_decode_encode name).unique h)

theorem decode_encode_decode_encode (name : String) :
    decode (encode (decode (encode name))) = decode (encode name) := by
  have kept := kept_decode_encode name
  rw [decode_encode_eq_iff, beforeZero_eq_self (kept.zero_notMem (zero_notMem_beforeZero _))]
  exact kept.again

theorem getLast?_encode (name : String) : (encode name).getLast? = some 0 := by
  have h_room : width - ((Utf8.encode name).take (width - 1)).length ≠ 0 := by
    have h_kept := List.length_take_le (width - 1) (Utf8.encode name)
    rw [width] at h_kept ⊢
    omega
  rw [encode, List.getLast?_append, List.getLast?_replicate, if_neg h_room, Option.some_or]

end NameField

theorem CameraInfo.stored_stored (i : CameraInfo) : i.stored.stored = i.stored := by
  simp only [stored, NameField.decode_encode_decode_encode]

/-- A name is read back up to its first zero character and as far as it fits; what has been
read back once is read back unchanged, in a record of the camera as well. -/
theorem names_kept :
    (∀ name kept : String, NameField.decode (NameField.encode name) = kept ↔
        NameField.Kept (NameField.beforeZero name.toList) kept.toList) ∧
      (∀ name : String, (NameField.encode name).length = 16 ∧
        (NameField.encode name).getLast? = some 0) ∧
      (∀ name : String,
        NameField.decode (NameField.encode (NameField.decode (NameField.encode name))) =
          NameField.decode (NameField.encode name)) ∧
      ∀ i : CameraInfo, ∃ stored, CameraInfo.decode? i.encode = some stored ∧
        CameraInfo.decode? stored.encode = some stored := by
  refine ⟨fun _ _ => NameField.decode_encode_eq_iff, fun name => ?_,
    NameField.decode_encode_decode_encode, fun i => ⟨i.stored, ?_, ?_⟩⟩
  · exact ⟨NameField.length_encode name, NameField.getLast?_encode name⟩
  · simpa using i.decode?_encode_append []
  · simpa [i.stored_stored] using i.stored.decode?_encode_append []

end FlashImage
