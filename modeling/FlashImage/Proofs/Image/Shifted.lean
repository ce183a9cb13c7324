import FlashImage.Proofs.Image

/-!
# Images that are alike from an offset on

The same segments may stand behind fronts of different length.  From the end of
its front on, each of the images then holds the same bytes.

* `Image.Consists.drop_toBytes_eq`: the bytes behind the front do not depend on it.
-/

namespace FlashImage

namespace Segment

def shift (d : Nat) (s : Segment) : Segment :=
  { s with offset := d + s.offset }

@[simp] theorem stop_shift (d : Nat) (s : Segment) : (s.shift d).stop = d + s.stop :=
  Nat.add_assoc d s.offset s.bytes.size

@[simp] theorem covers_shift (d i : Nat) (s : Segment) :
    (s.shift d).covers (d + i) = s.covers i := by
  rw [Bool.eq_iff_iff, covers_iff, covers_iff, stop_shift]
  simp only [shift, Nat.add_le_add_iff_left, Nat.add_lt_add_iff_left]

end Segment

namespace Image

theorem drop_toBytes (img : Image) (d : Nat) :
    img.toBytes.drop d = (List.range (img.size - d)).map fun i => img.byteAt (d + i) := by
  rw [toBytes, read_eq_map]
  apply List.ext_getElem (by simp)
  intro i h_left h_right
  simp only [List.getElem_drop, List.getElem_map, List.getElem_range, Nat.zero_add]

namespace Consists

theorem byteAt_of_covers {img : Image} {segments : List Segment} (h : img.Consists segments)
    {s : Segment} (h_mem : s ∈ segments) {i : Nat} (covers : s.covers i = true) :
    img.byteAt i = s.bytes.getD (i - s.offset) 0 := by
  obtain ⟨h_le, h_lt⟩ := Segment.covers_iff.mp covers
  obtain ⟨k, rfl⟩ := Nat.exists_eq_add_of_le h_le
  have h_k : k < s.bytes.size := by
    rw [Segment.stop] at h_lt
    omega
  have h_byte := congrArg (·[k]?) (h.read_eq s h_mem)
  simp only [read_eq_map, List.getElem?_map, List.getElem?_range h_k, Option.map_some,
    Array.getElem?_toList, Array.getElem?_eq_getElem h_k, Option.some.injEq] at h_byte
  rw [h_byte, Nat.add_sub_cancel_left, Array.getD, dif_pos h_k]
  rfl

variable {img other : Image} {front back : Segment} {segments : List Segment} {d e : Nat}

theorem byteAt_shifted (h : img.Consists (front :: segments.map (.shift d)))
    {s : Segment} (h_mem : s ∈ segments) {i : Nat} (covers : s.covers i = true) :
    img.byteAt (d + i) = s.bytes.getD (i - s.offset) 0 := by
  have h_shifted : s.shift d ∈ front :: segments.map (.shift d) :=
    List.mem_cons_of_mem _ (List.mem_map_of_mem h_mem)
  rw [h.byteAt_of_covers h_shifted (by rwa [Segment.covers_shift])]
  simp only [Segment.shift, Nat.add_sub_add_left]

theorem byteAt_between (h : img.Consists (front :: segments.map (.shift d)))
    (h_front : front.stop ≤ d) {i : Nat} (uncovered : ∀ s ∈ segments, s.covers i = false) :
    img.byteAt (d + i) = 0 := by
  refine h.zero_elsewhere _
    (List.forall_mem_cons.mpr ⟨?_, List.forall_mem_map.mpr fun s h_mem => ?_⟩)
  · rw [Bool.eq_false_iff, ne_eq, Segment.covers_iff]
    omega
  · rw [Segment.covers_shift, uncovered s h_mem]

theorem size_sub_eq (h : img.Consists (front :: segments.map (.shift d)))
    (h_front : front.stop ≤ d) :
    img.size - d = extent segments := by
  rw [h.size_eq]
  apply Nat.le_antisymm
  · rw [Nat.sub_le_iff_le_add']
    refine extent_le (List.forall_mem_cons.mpr
      ⟨fun _ => Nat.le_add_right_of_le h_front, List.forall_mem_map.mpr fun s h_mem full => ?_⟩)
    rw [Segment.stop_shift]
    exact Nat.add_le_add_left (stop_le_extent h_mem full) d
  · refine extent_le fun s h_mem full => ?_
    have h_shifted : s.shift d ∈ front :: segments.map (.shift d) :=
      List.mem_cons_of_mem _ (List.mem_map_of_mem h_mem)
    have h_stop := stop_le_extent h_shifted full
    rw [Segment.stop_shift] at h_stop
    omega

/-- Behind their fronts, images with the same segments hold the same bytes. -/
theorem drop_toBytes_eq (h : img.Consists (front :: segments.map (.shift d)))
    (h_other : other.Consists (back :: segments.map (.shift e)))
    (h_front : front.stop ≤ d) (h_back : back.stop ≤ e) :
    img.toBytes.drop d = other.toBytes.drop e := by
  rw [drop_toBytes, drop_toBytes, h.size_sub_eq h_front, h_other.size_sub_eq h_back]
  apply List.map_congr_left
  intro i _
  by_cases h_covered : ∃ s ∈ segments, s.covers i = true
  · obtain ⟨s, h_mem, covers⟩ := h_covered
    rw [h.byteAt_shifted h_mem covers, h_other.byteAt_shifted h_mem covers]
  · have uncovered : ∀ s ∈ segments, s.covers i = false := by simpa using h_covered
    rw [h.byteAt_between h_front uncovered, h_other.byteAt_between h_back uncovered]

end Consists

end Image

end FlashImage
