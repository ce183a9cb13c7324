import FlashImage.Inspect
import FlashImage.Proofs.Codec
import FlashImage.Proofs.Except
import FlashImage.Proofs.Image

/-!
# Decoding an image made up of segments

What is read of an image whose segments are known: a range that is a segment,
a record at the front of one, a directory, the payload of an entry.

One equation for each reader: `Inspect.record_eq`, `Inspect.readDirectory_eq`,
`Inspect.isRoot_eq` and `Inspect.digestEntry_eq`.
-/

namespace FlashImage

namespace Inspect

variable {digest : Bytes → String} {img : Image} {segments : List Segment} {offset : Nat}

theorem slice_eq (consists : img.Consists segments) {bytes : Bytes}
    (h_mem : Segment.ofBytes offset bytes ∈ segments) :
    slice img offset bytes.length =
      if offset ≤ img.size then .ok bytes
      else .error (.truncated offset bytes.length img.size) := by
  rw [slice, consists.read?_eq h_mem]
  by_cases h_inside : offset ≤ img.size
  · rw [if_pos h_inside, if_pos h_inside]
  · rw [if_neg h_inside, if_neg h_inside]

theorem record_eq {α : Type} {decode? : Bytes → Option α} {r : α} (consists : img.Consists segments)
    {front rest : Bytes} (h_mem : Segment.ofBytes offset (front ++ rest) ∈ segments)
    (h_inside : offset ≤ img.size) (h_decode : decode? front = some r) :
    record decode? img offset front.length = .ok r := by
  rw [record, slice, consists.read?_front h_mem h_inside]
  simp only [bind, Except.bind, h_decode]

theorem readDirectory_eq (consists : img.Consists segments) {directory : List DirectoryEntry}
    (h_mem : Segment.ofBytes offset (directory.flatMap DirectoryEntry.encode) ∈ segments)
    {size : UInt32} (h_size : size.toNat = 12 * directory.length) :
    readDirectory img offset size =
      if offset ≤ img.size then .ok directory
      else .error (.truncated offset (12 * directory.length) img.size) := by
  have h_slice := slice_eq consists h_mem
  rw [DirectoryEntry.length_flatMap_encode] at h_slice
  unfold readDirectory DirectoryEntry.width
  rw [h_size, h_slice, Nat.mul_mod_right, if_neg (fun h => h rfl),
    Nat.mul_div_cancel_left _ (by decide)]
  by_cases h_inside : offset ≤ img.size
  · rw [if_pos h_inside, if_pos h_inside]
    exact congrArg Except.ok (DirectoryEntry.decodeMany_flatMap_encode directory)
  · rw [if_neg h_inside, if_neg h_inside]
    rfl

/-- The kind of a file is told by the word that it begins with. -/
theorem isRoot_eq (consists : img.Consists segments) {word : UInt32} {rest : Bytes}
    (h_mem : Segment.ofBytes 0 (Word.encode word ++ rest) ∈ segments) :
    isRoot img = (Word.encode word == Word.encode RootHeader.magic) := by
  have h_read := consists.read?_front h_mem (Nat.zero_le _)
  rw [isRoot]
  exact congrArg (· == some (Word.encode RootHeader.magic)) h_read

theorem digestEntry_eq (consists : img.Consists segments) {base : Nat} {e : DirectoryEntry}
    {bytes : Bytes} (h_mem : Segment.ofBytes (base + e.offset.toNat) bytes ∈ segments)
    (h_size : e.size.toNat = bytes.length) (kind : UInt32 → Option String) :
    digestEntry digest img base kind e =
      if base + e.offset.toNat ≤ img.size then
        .ok { identifier := e.identifier, kind := kind e.identifier, offset := e.offset,
              absoluteOffset := base + e.offset.toNat, size := e.size,
              sha256 := digest bytes }
      else .error (.entryOutOfBounds e.identifier (base + e.offset.toNat) e.size img.size) := by
  unfold digestEntry
  dsimp only
  rw [h_size, consists.read?_eq h_mem]
  by_cases h_inside : base + e.offset.toNat ≤ img.size
  · rw [if_pos h_inside, if_pos h_inside]
  · rw [if_neg h_inside, if_neg h_inside]

end Inspect

end FlashImage
