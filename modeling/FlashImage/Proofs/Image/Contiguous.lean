import FlashImage.Proofs.Image

/-!
# Parts laid end to end

* `Segment.layOut`: the segments of parts that lie end to end, each where the one
  before it stops; an empty part takes no room;
* `Segment.layOut_apart`: they lie apart;
* `Image.drop_toBytes_layOut`: what such segments leave on a blank image from their start on;
* `Image.Consists.perm`: the order in which segments are listed does not matter;
* `Image.Consists.toBytes_layOut`: an image that is made up of such segments is
  the concatenation of the parts.
-/

namespace FlashImage

namespace Segment

def layOut (start : Nat) : List Bytes → List Segment
  | [] => []
  | part :: parts => .ofBytes start part :: layOut (start + part.length) parts

theorem start_le_of_mem_layOut {start : Nat} {parts : List Bytes} {s : Segment}
    (h_mem : s ∈ layOut start parts) : start ≤ s.offset := by
  induction parts generalizing start with
  | nil => cases h_mem
  | cons part parts ih =>
    rcases List.mem_cons.mp h_mem with rfl | h_mem
    · exact Nat.le_refl _
    · exact Nat.le_trans (Nat.le_add_right _ _) (ih h_mem)

theorem layOut_apart (start : Nat) (parts : List Bytes) :
    (layOut start parts).Pairwise Apart := by
  induction parts generalizing start with
  | nil => exact .nil
  | cons part parts ih =>
    refine .cons (fun s h_mem => apart_of_le (.inl ?_)) (ih _)
    rw [stop_ofBytes]
    exact start_le_of_mem_layOut h_mem

end Segment

namespace Image

open Segment

theorem read_append (img : Image) (offset m n : Nat) :
    img.read offset (m + n) = img.read offset m ++ img.read (offset + m) n := by
  simp only [read_eq_map, List.range_add, List.map_append, List.map_map, Function.comp_def,
    Nat.add_assoc]

theorem read_layOut {img : Image} {start : Nat} {parts : List Bytes}
    (h : ∀ s ∈ layOut start parts, img.read s.offset s.bytes.size = s.bytes.toList) :
    img.read start parts.flatten.length = parts.flatten := by
  induction parts generalizing start with
  | nil => rfl
  | cons part parts ih =>
    have h_head : img.read start part.length = part := h _ List.mem_cons_self
    rw [List.flatten_cons, List.length_append, read_append, h_head,
      ih fun s h_mem => h s (List.mem_cons_of_mem _ h_mem)]

/-- Trailing empty parts do not extend an image, but neither do they take room. -/
theorem extent_layOut (start : Nat) (parts : List Bytes) :
    extent (layOut start parts) =
      if parts.flatten.isEmpty then 0 else start + parts.flatten.length := by
  induction parts generalizing start with
  | nil => rfl
  | cons part parts ih =>
    have h_extent : extent (layOut start (part :: parts)) =
        if part.isEmpty then extent (layOut (start + part.length) parts)
        else max (start + part.length) (extent (layOut (start + part.length) parts)) := by
      cases part <;> rfl
    rw [h_extent, ih, List.flatten_cons, List.length_append]
    cases part with
    | nil => simp
    | cons b part =>
      by_cases h_rest : parts.flatten.isEmpty
      · rw [List.isEmpty_iff] at h_rest
        simp [h_rest]
      · rw [if_neg h_rest]
        simp only [List.isEmpty_cons, List.cons_append, Bool.false_eq_true, if_false]
        omega

theorem byteAt_writeAll_layOut {start i : Nat} (h_lt : i < start) (img : Image)
    (parts : List Bytes) :
    (img.writeAll (layOut start parts)).byteAt i = img.byteAt i := by
  refine byteAt_writeAll_of_uncovered img fun s h_mem => ?_
  have h_start := start_le_of_mem_layOut h_mem
  rw [Bool.eq_false_iff, ne_eq, covers_iff]
  omega

/-- Parts that lie end to end from an offset are all that an image holds from there on. -/
theorem drop_toBytes_layOut (start : Nat) (parts : List Bytes) :
    (empty.writeAll (layOut start parts)).toBytes.drop start = parts.flatten := by
  have consists := consists_writeAll (layOut_apart start parts)
  generalize empty.writeAll (layOut start parts) = img at consists
  rw [toBytes, consists.size_eq, extent_layOut]
  split
  next h_empty =>
    rw [List.isEmpty_iff.mp h_empty]
    exact List.drop_nil
  next =>
    have h_front : (img.read 0 start).length = start := by simp [read]
    rw [read_append, Nat.zero_add, read_layOut consists.read_eq, List.drop_left' h_front]

namespace Consists

variable {img : Image} {segments : List Segment}

theorem perm {listed : List Segment} (h : img.Consists segments) (h_perm : segments.Perm listed) :
    img.Consists listed where
  read_eq s h_mem := h.read_eq s (h_perm.mem_iff.mpr h_mem)
  zero_elsewhere i uncovered := h.zero_elsewhere i fun s h_mem =>
    uncovered s (h_perm.mem_iff.mp h_mem)
  size_eq := by
    rw [h.size_eq]
    refine h_perm.foldr_eq' (fun s _ t _ n => ?_) 0
    split <;> split <;> first | rfl | exact Nat.max_left_comm _ _ _

theorem size_layOut {parts : List Bytes} (h : img.Consists (layOut 0 parts)) :
    img.size = parts.flatten.length := by
  rw [h.size_eq, extent_layOut, Nat.zero_add]
  split
  next h_empty => rw [List.isEmpty_iff.mp h_empty, List.length_nil]
  next => rfl

theorem toBytes_layOut {parts : List Bytes} (h : img.Consists (layOut 0 parts)) :
    img.toBytes = parts.flatten := by
  rw [toBytes, h.size_layOut]
  exact read_layOut h.read_eq

end Consists

end Image

end FlashImage
