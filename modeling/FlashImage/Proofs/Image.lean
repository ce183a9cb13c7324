import FlashImage.Medium
import Mathlib.Data.List.Basic

/-!
# What an image holds

An image has two views, its size and the byte at each offset.  This module says
what a write does to each of them, and then what a whole run of writes leaves
when no two of them share an offset:

* `byteAt_write`, `size_write`: one write in the two views;
* `Segment.Apart`: two segments share no offset;
* `Image.Consists`: an image is made up of segments, with zeros between them;
* `consists_writeAll`: it is so after segments have been written that lie apart,
  in whatever order they come;
* `Medium.Unlimited`: a medium that refuses nothing.
-/

namespace FlashImage

/-! ## Segments -/

namespace Segment

def ofBytes (offset : Nat) (bytes : Bytes) : Segment :=
  ⟨offset, bytes.toArray⟩

@[simp] theorem offset_ofBytes (offset : Nat) (bytes : Bytes) :
    (ofBytes offset bytes).offset = offset := rfl

@[simp] theorem stop_ofBytes (offset : Nat) (bytes : Bytes) :
    (ofBytes offset bytes).stop = offset + bytes.length := rfl

@[simp] theorem isEmpty_ofBytes (offset : Nat) (bytes : Bytes) :
    (ofBytes offset bytes).bytes.isEmpty = bytes.isEmpty := by
  simp [ofBytes]

theorem covers_iff {s : Segment} {i : Nat} :
    s.covers i = true ↔ s.offset ≤ i ∧ i < s.stop := by
  simp [covers]

/-- Two segments share no offset; one that is empty shares none with any. -/
def Apart (s t : Segment) : Prop :=
  ∀ i, s.covers i = true → t.covers i = false

theorem apart_of_le {s t : Segment} (h : s.stop ≤ t.offset ∨ t.stop ≤ s.offset) : s.Apart t := by
  intro i hs
  rw [covers_iff] at hs
  rw [Bool.eq_false_iff, ne_eq, covers_iff]
  omega

end Segment

namespace Image

/-! ## One write in the two views -/

theorem byteAt_cons (s : Segment) (segments : List Segment) (i : Nat) :
    (⟨s :: segments⟩ : Image).byteAt i =
      if s.covers i then s.bytes.getD (i - s.offset) 0 else (⟨segments⟩ : Image).byteAt i := by
  simp only [byteAt, List.find?_cons]
  cases s.covers i <;> rfl

theorem byteAt_write (img : Image) (s : Segment) (i : Nat) :
    (img.write s.offset s.bytes.toList).byteAt i =
      if s.covers i then s.bytes.getD (i - s.offset) 0 else img.byteAt i := by
  unfold write
  split
  next h_empty =>
    have h_size : s.bytes.size = 0 := by simpa using h_empty
    have uncovered : ¬ s.covers i = true := by
      rw [Segment.covers_iff, Segment.stop]
      omega
    rw [if_neg uncovered]
  next => exact byteAt_cons s img.segments i

theorem size_write (img : Image) (s : Segment) :
    (img.write s.offset s.bytes.toList).size =
      if s.bytes.isEmpty then img.size else max s.stop img.size := by
  unfold write
  rw [Array.isEmpty_toList]
  split <;> simp [size]

/-! ## Reading -/

theorem byteAt_near {img : Image} {offset n i : Nat} (h_le : offset ≤ i) (h_lt : i < offset + n) :
    (img.near offset n).byteAt i = img.byteAt i := by
  have meets_of_covers : ∀ s : Segment,
      decide (s.meets offset n = true ∧ s.covers i = true) = s.covers i := by
    intro s
    cases h_covers : s.covers i with
    | false => simp
    | true =>
      rw [Segment.covers_iff] at h_covers
      simp only [Segment.meets, Bool.and_eq_true, decide_eq_true_eq, and_true]
      omega
  simp only [byteAt, near, List.find?_filter, meets_of_covers]

theorem read_eq_map (img : Image) (offset n : Nat) :
    img.read offset n = (List.range n).map fun i => img.byteAt (offset + i) := by
  apply List.map_congr_left
  intro i h_mem
  exact byteAt_near (Nat.le_add_right offset i) (by simpa using h_mem)

theorem take_read (img : Image) (offset : Nat) {k n : Nat} (h_le : k ≤ n) :
    (img.read offset n).take k = img.read offset k := by
  rw [read_eq_map, read_eq_map, ← List.map_take, List.take_range, Nat.min_eq_left h_le]

theorem read?_eq_some (img : Image) {offset n : Nat} (h : offset + n ≤ img.size) :
    img.read? offset n = some (img.read offset n) :=
  if_pos h

/-! ## Runs of writes -/

def writeAll (img : Image) (segments : List Segment) : Image :=
  segments.foldl (fun img s => img.write s.offset s.bytes.toList) img

theorem writeAll_cons (img : Image) (s : Segment) (segments : List Segment) :
    img.writeAll (s :: segments) = (img.write s.offset s.bytes.toList).writeAll segments := rfl

theorem writeAll_append (img : Image) (left right : List Segment) :
    img.writeAll (left ++ right) = (img.writeAll left).writeAll right :=
  List.foldl_append

/-- The end of the furthest of the segments that are not empty. -/
def extent (segments : List Segment) : Nat :=
  segments.foldr (fun s n => if s.bytes.isEmpty then n else max s.stop n) 0

theorem stop_le_extent {segments : List Segment} {s : Segment} (h_mem : s ∈ segments)
    (h_nonempty : s.bytes.isEmpty = false) : s.stop ≤ extent segments := by
  induction segments with
  | nil => cases h_mem
  | cons t segments ih =>
    simp only [extent, List.foldr_cons]
    rcases List.mem_cons.mp h_mem with rfl | h_mem
    · rw [h_nonempty]
      exact Nat.le_max_left _ _
    · have h_tail := ih h_mem
      unfold extent at h_tail
      split
      · exact h_tail
      · exact Nat.le_trans h_tail (Nat.le_max_right _ _)

/-- The end of the furthest of the segments, whether it is empty or not. -/
def reach (segments : List Segment) : Nat :=
  segments.foldr (fun s n => max s.stop n) 0

theorem stop_le_reach {segments : List Segment} {s : Segment} (h_mem : s ∈ segments) :
    s.stop ≤ reach segments := by
  induction segments with
  | nil => cases h_mem
  | cons t segments ih =>
    simp only [reach, List.foldr_cons] at ih ⊢
    rcases List.mem_cons.mp h_mem with rfl | h_mem
    · exact Nat.le_max_left _ _
    · exact Nat.le_trans (ih h_mem) (Nat.le_max_right _ _)

theorem reach_le {segments : List Segment} {bound : Nat} (h : ∀ s ∈ segments, s.stop ≤ bound) :
    reach segments ≤ bound := by
  induction segments with
  | nil => exact Nat.zero_le _
  | cons s segments ih =>
    simp only [List.forall_mem_cons] at h
    exact Nat.max_le.mpr ⟨h.1, ih h.2⟩

theorem extent_le {segments : List Segment} {bound : Nat}
    (h : ∀ s ∈ segments, s.bytes.isEmpty = false → s.stop ≤ bound) : extent segments ≤ bound := by
  induction segments with
  | nil => exact Nat.zero_le _
  | cons s segments ih =>
    simp only [List.forall_mem_cons] at h
    simp only [extent, List.foldr_cons]
    split
    · exact ih h.2
    next h_nonempty => exact Nat.max_le.mpr ⟨h.1 (by simpa using h_nonempty), ih h.2⟩

theorem extent_le_reach (segments : List Segment) : extent segments ≤ reach segments :=
  extent_le fun _ h_mem _ => stop_le_reach h_mem

theorem exists_stop_eq_extent {segments : List Segment} (h_pos : 0 < extent segments) :
    ∃ s ∈ segments, s.bytes.isEmpty = false ∧ s.stop = extent segments := by
  induction segments with
  | nil => cases h_pos
  | cons s segments ih =>
    simp only [extent, List.foldr_cons] at ih h_pos ⊢
    split at h_pos
    next h_empty =>
      obtain ⟨t, h_mem, h_nonempty, h_stop⟩ := ih h_pos
      rw [if_pos h_empty]
      exact ⟨t, List.mem_cons_of_mem _ h_mem, h_nonempty, h_stop⟩
    next h_nonempty =>
      rw [if_neg h_nonempty]
      rcases Nat.le_total (extent segments) s.stop with h_le | h_le
      · exact ⟨s, List.mem_cons_self, by simpa using h_nonempty, (Nat.max_eq_left h_le).symm⟩
      · have h_front : 0 < s.stop := by
          have h_size : s.bytes.size ≠ 0 := by simpa using h_nonempty
          rw [Segment.stop]
          omega
        obtain ⟨t, h_mem, h_full, h_stop⟩ := ih (Nat.lt_of_lt_of_le h_front h_le)
        refine ⟨t, List.mem_cons_of_mem _ h_mem, h_full, h_stop.trans ?_⟩
        exact (Nat.max_eq_right h_le).symm

theorem reach_append (left right : List Segment) :
    reach (left ++ right) = max (reach left) (reach right) := by
  induction left with
  | nil => exact (Nat.zero_max _).symm
  | cons s left ih =>
    simp only [reach, List.cons_append, List.foldr_cons] at ih ⊢
    rw [ih, Nat.max_assoc]

theorem size_writeAll (img : Image) (segments : List Segment) :
    (img.writeAll segments).size = max img.size (extent segments) := by
  induction segments generalizing img with
  | nil => exact (Nat.max_zero _).symm
  | cons s segments ih =>
    rw [writeAll_cons, ih, size_write]
    simp only [extent, List.foldr_cons]
    split
    · rfl
    · rw [Nat.max_comm s.stop, Nat.max_assoc]

theorem byteAt_writeAll_of_uncovered {segments : List Segment} {i : Nat} (img : Image)
    (h : ∀ s ∈ segments, s.covers i = false) :
    (img.writeAll segments).byteAt i = img.byteAt i := by
  induction segments generalizing img with
  | nil => rfl
  | cons s segments ih =>
    rw [writeAll_cons, ih _ (fun t h_mem => h t (List.mem_cons_of_mem s h_mem)), byteAt_write,
      h s List.mem_cons_self, if_neg Bool.false_ne_true]

theorem byteAt_writeAll_of_mem {segments : List Segment} (apart : segments.Pairwise Segment.Apart)
    {s : Segment} (h_mem : s ∈ segments) {i : Nat} (covers : s.covers i = true) (img : Image) :
    (img.writeAll segments).byteAt i = s.bytes.getD (i - s.offset) 0 := by
  induction segments generalizing img with
  | nil => cases h_mem
  | cons t segments ih =>
    obtain ⟨h_head, h_tail⟩ := List.pairwise_cons.mp apart
    rw [writeAll_cons]
    rcases List.mem_cons.mp h_mem with rfl | h_mem
    -- nothing that is written after the segment touches the offset again
    · rw [byteAt_writeAll_of_uncovered _ (fun u h_later => h_head u h_later i covers),
        byteAt_write, if_pos covers]
    · exact ih h_tail h_mem _

/-! ## Images made up of segments -/

/-- An image is made up of segments: it holds the bytes of each, it is zero
between them, and it ends where the furthest of them ends that is not empty. -/
structure Consists (img : Image) (segments : List Segment) : Prop where
  read_eq : ∀ s ∈ segments, img.read s.offset s.bytes.size = s.bytes.toList
  zero_elsewhere : ∀ i, (∀ s ∈ segments, s.covers i = false) → img.byteAt i = 0
  size_eq : img.size = extent segments

theorem consists_writeAll {segments : List Segment} (apart : segments.Pairwise Segment.Apart) :
    (empty.writeAll segments).Consists segments where
  read_eq s h_mem := by
    rw [read_eq_map]
    apply List.ext_getElem (by simp)
    intro k h_left h_right
    have covers : s.covers (s.offset + k) = true := by
      simp only [List.length_map, List.length_range] at h_left
      rw [Segment.covers_iff, Segment.stop]
      omega
    rw [List.getElem_map, List.getElem_range, byteAt_writeAll_of_mem apart h_mem covers,
      Nat.add_sub_cancel_left]
    simp only [Array.length_toList] at h_right
    simp [h_right]
  zero_elsewhere i h := by rw [byteAt_writeAll_of_uncovered _ h]; rfl
  size_eq := by rw [size_writeAll]; exact Nat.zero_max _

namespace Consists

variable {img : Image} {segments : List Segment}

theorem stop_le_size (h : img.Consists segments) {s : Segment} (h_mem : s ∈ segments)
    (h_nonempty : s.bytes.isEmpty = false) : s.stop ≤ img.size :=
  h.size_eq ▸ stop_le_extent h_mem h_nonempty

/-- The bytes of a segment can be read back as soon as its offset lies inside
the image; only an empty segment may lie outside. -/
theorem read?_eq (h : img.Consists segments) {offset : Nat} {bytes : Bytes}
    (h_mem : Segment.ofBytes offset bytes ∈ segments) :
    img.read? offset bytes.length = if offset ≤ img.size then some bytes else none := by
  have h_read : img.read offset bytes.length = bytes := h.read_eq _ h_mem
  cases bytes with
  | nil =>
    unfold read?
    rw [h_read]
    rfl
  | cons b bytes =>
    have h_stop : offset + (b :: bytes).length ≤ img.size := h.stop_le_size h_mem rfl
    rw [read?_eq_some img h_stop, h_read, if_pos (by omega)]

/-- So can the bytes at the front of a segment. -/
theorem read?_front (h : img.Consists segments) {offset : Nat} {front rest : Bytes}
    (h_mem : Segment.ofBytes offset (front ++ rest) ∈ segments) (h_inside : offset ≤ img.size) :
    img.read? offset front.length = some front := by
  have h_read : img.read offset (front ++ rest).length = front ++ rest := h.read_eq _ h_mem
  have h_le : front.length ≤ (front ++ rest).length := by
    rw [List.length_append]
    exact Nat.le_add_right _ _
  have h_whole := h.read?_eq h_mem
  rw [if_pos h_inside, read?, Option.ite_none_right_eq_some] at h_whole
  rw [read?_eq_some img (Nat.le_trans (Nat.add_le_add_left h_le _) h_whole.1),
    ← img.take_read offset h_le, h_read, List.take_left]

end Consists

end Image

/-! ## Media -/

namespace Medium

@[simp] theorem image_next (m : Medium) (image : Image) : (m.next image).image = image := rfl

/-- A medium refuses nothing, wherever it is written to and however often. -/
structure Unlimited (m : Medium) : Prop where
  endless : m.limit = none
  willing : ∀ verdict ∈ m.verdicts, verdict = none

theorem unlimited_empty : ({} : Medium).Unlimited :=
  ⟨rfl, nofun⟩

variable {m after : Medium} {offset : Nat} {bytes : Bytes}

theorem Unlimited.next (h : m.Unlimited) (image : Image) : (m.next image).Unlimited where
  endless := h.endless
  willing := fun verdict h_mem => h.willing verdict (List.mem_of_mem_tail h_mem)

theorem Unlimited.fault?_eq (h : m.Unlimited) : m.fault? = none := by
  unfold fault?
  cases h_verdicts : m.verdicts with
  | nil => rfl
  | cons verdict verdicts => exact h.willing verdict (h_verdicts ▸ List.mem_cons_self)

theorem write_of_unlimited (h : m.Unlimited) (offset : Nat) (bytes : Bytes) :
    m.write offset bytes = .ok (m.next (m.image.write offset bytes)) := by
  have h_reaches : m.reaches offset bytes.length = true := by rw [reaches, h.endless]
  rw [write, h.fault?_eq]
  exact if_pos h_reaches

theorem flush_of_unlimited (h : m.Unlimited) : m.flush = .ok (m.next m.image) := by
  rw [flush, h.fault?_eq]

/-- A write that succeeds changes the image alone. -/
theorem write_eq_ok (h : m.write offset bytes = .ok after) :
    after = m.next (m.image.write offset bytes) := by
  unfold write at h
  split at h
  · cases h
  · split at h
    · exact (Except.ok.inj h).symm
    · cases h

theorem flush_eq_ok (h : m.flush = .ok after) : after = m.next m.image := by
  unfold flush at h
  split at h
  · cases h
  · exact (Except.ok.inj h).symm

end Medium

end FlashImage
