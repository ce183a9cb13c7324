import FlashImage.Proofs.Image.Contiguous

/-!
# Images that begin alike

An image that has been cut short begins another one, and whatever can be read of
it can be read of the other.

* `Image.Begins.read?`: what is read of the shorter one is read of the longer one.
-/

namespace FlashImage.Image

@[simp] theorem length_read (img : Image) (offset n : Nat) : (img.read offset n).length = n := by
  simp [read_eq_map]

@[simp] theorem length_toBytes (img : Image) : img.toBytes.length = img.size :=
  length_read img 0 img.size

theorem toBytes_ofBytes (d : Bytes) : (ofBytes d).toBytes = d := by
  have apart : [Segment.ofBytes 0 d].Pairwise Segment.Apart := List.pairwise_singleton _ _
  have consists : (ofBytes d).Consists (Segment.layOut 0 [d]) := consists_writeAll apart
  simpa using consists.toBytes_layOut

@[simp] theorem size_ofBytes (d : Bytes) : (ofBytes d).size = d.length := by
  rw [← length_toBytes, toBytes_ofBytes]

/-- A range inside an image is that range of its bytes. -/
theorem read_eq_toBytes {img : Image} {offset n : Nat} (h_inside : offset + n ≤ img.size) :
    img.read offset n = (img.toBytes.drop offset).take n := by
  obtain ⟨rest, h_size⟩ := Nat.exists_eq_add_of_le h_inside
  have h_front : (img.read 0 offset).length = offset := length_read img 0 offset
  rw [toBytes, h_size, read_append, read_append, List.append_assoc, Nat.zero_add,
    List.drop_left' h_front, List.take_left' (length_read img offset n)]

theorem read?_eq_some_iff {img : Image} {offset n : Nat} {bytes : Bytes} :
    img.read? offset n = some bytes ↔
      offset + n ≤ img.size ∧ bytes = (img.toBytes.drop offset).take n := by
  unfold read?
  split
  next h_inside =>
    rw [read_eq_toBytes h_inside, Option.some.injEq, eq_comm]
    exact (and_iff_right h_inside).symm
  next h_outside => exact iff_of_false (by simp) fun h => h_outside h.1

/-! ## Beginnings -/

def Begins (cut img : Image) : Prop :=
  cut.toBytes <+: img.toBytes

theorem begins_ofBytes_take (img : Image) (n : Nat) :
    (ofBytes (img.toBytes.take n)).Begins img := by
  rw [Begins, toBytes_ofBytes]
  exact List.take_prefix n _

@[simp] theorem size_ofBytes_take {img : Image} {n : Nat} (h_le : n ≤ img.size) :
    (ofBytes (img.toBytes.take n)).size = n := by
  rw [size_ofBytes, List.length_take, length_toBytes, Nat.min_eq_left h_le]

namespace Begins

variable {cut img : Image}

theorem size_le (h : cut.Begins img) : cut.size ≤ img.size := by
  rw [← length_toBytes, ← length_toBytes]
  exact List.IsPrefix.length_le h

theorem read? (h : cut.Begins img) {offset n : Nat} {bytes : Bytes}
    (h_read : cut.read? offset n = some bytes) : img.read? offset n = some bytes := by
  obtain ⟨h_inside, rfl⟩ := read?_eq_some_iff.mp h_read
  refine read?_eq_some_iff.mpr ⟨Nat.le_trans h_inside h.size_le, ?_⟩
  obtain ⟨rest, h_bytes⟩ := h
  rw [← h_bytes, List.drop_append_of_le_length (by rw [length_toBytes]; omega),
    List.take_append_of_le_length (by rw [List.length_drop, length_toBytes]; omega)]

end Begins

end FlashImage.Image
