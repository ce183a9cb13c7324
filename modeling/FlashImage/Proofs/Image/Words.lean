import FlashImage.Proofs.Decoding.Fields
import FlashImage.Proofs.Image.Prefixes

/-!
# Words of an image

What an image holds, told without the encoders that it was written by: every word is put
together from the four bytes at its offset.

* `WordsAt`: words that stand at an offset.
-/

namespace FlashImage

/-- The given words stand one behind the other from an offset. -/
def WordsAt (d : Bytes) (o : Nat) : List Nat → Prop
  | [] => True
  | w :: words => (word? d o).map UInt32.toNat = some w ∧ WordsAt d (o + 4) words

variable {d : Bytes} {o : Nat}

theorem wordsAt_drop {n : Nat} {words : List Nat} :
    WordsAt (d.drop n) o words ↔ WordsAt d (n + o) words := by
  induction words generalizing o with
  | nil => exact Iff.rfl
  | cons w words ih => simp only [WordsAt, word?_drop, ih, Nat.add_assoc]

theorem word?_encode (w : UInt32) (rest : Bytes) : word? (Word.encode w ++ rest) 0 = some w :=
  congrArg some (Word.ofNat_bytes w)

theorem wordsAt_flatMap_encode (words : List UInt32) (rest : Bytes) :
    WordsAt (words.flatMap Word.encode ++ rest) 0 (words.map UInt32.toNat) := by
  induction words with
  | nil => trivial
  | cons w words ih =>
    rw [List.flatMap_cons, List.append_assoc]
    refine ⟨by rw [word?_encode]; rfl, ?_⟩
    have h_drop : (Word.encode w ++ (words.flatMap Word.encode ++ rest)).drop 4 =
        words.flatMap Word.encode ++ rest := rfl
    rwa [← h_drop, wordsAt_drop] at ih

theorem wordsAt_of_isPrefix (words : List UInt32)
    (h : words.flatMap Word.encode <+: d.drop o) : WordsAt d o (words.map UInt32.toNat) := by
  obtain ⟨rest, h⟩ := h
  have h_words := wordsAt_flatMap_encode words rest
  rwa [h, wordsAt_drop] at h_words

/-- The entries of a directory stand in it, one in every twelve bytes. -/
theorem wordsAt_directory {entries : List DirectoryEntry}
    (h : entries.flatMap DirectoryEntry.encode <+: d.drop o) {k : Nat} {e : DirectoryEntry}
    (h_entry : entries[k]? = some e) :
    WordsAt d (o + 12 * k) [e.identifier.toNat, e.offset.toNat, e.size.toNat] := by
  induction entries generalizing o k with
  | nil => cases h_entry
  | cons first entries ih =>
    obtain ⟨rest, h⟩ := h
    rw [List.flatMap_cons, List.append_assoc] at h
    cases k with
    | zero =>
      cases h_entry
      have h_encode : e.encode = [e.identifier, e.offset, e.size].flatMap Word.encode := rfl
      exact wordsAt_of_isPrefix _ ⟨_, h_encode ▸ h⟩
    | succ k =>
      have h_next : entries.flatMap DirectoryEntry.encode <+: d.drop (o + 12) := by
        rw [← List.drop_drop, ← h]
        exact ⟨rest, rfl⟩
      have h_words := ih h_next h_entry
      rwa [Nat.add_assoc, Nat.add_comm 12, ← Nat.mul_succ] at h_words

/-! ## Images -/

namespace Image

variable {img : Image}

/-- The bytes of a segment stand in the file at its offset. -/
theorem Consists.isPrefix {segments : List Segment} (h : img.Consists segments) {bytes : Bytes}
    (h_mem : Segment.ofBytes o bytes ∈ segments) : bytes <+: img.toBytes.drop o := by
  cases bytes with
  | nil => exact List.nil_prefix
  | cons b bytes =>
    have h_stop : o + (b :: bytes).length ≤ img.size := h.stop_le_size h_mem rfl
    have h_read := h.read?_eq h_mem
    rw [if_pos (Nat.le_trans (Nat.le_add_right _ _) h_stop)] at h_read
    rw [(read?_eq_some_iff.mp h_read).2]
    exact List.take_prefix _ _

theorem getD_toBytes (img : Image) (i : Nat) :
    img.toBytes.getD i 0 = if i < img.size then img.byteAt i else 0 := by
  rw [toBytes, read_eq_map, List.getD_eq_getElem?_getD, List.getElem?_map]
  split
  next h_lt =>
    rw [List.getElem?_range h_lt, Option.map_some, Nat.zero_add]
    rfl
  next h_le =>
    rw [List.getElem?_eq_none (by simpa using h_le)]
    rfl

end Image

end FlashImage
