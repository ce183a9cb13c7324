import FlashImage.Proofs.Camera.Inspection
import FlashImage.Proofs.Layout.Interrupted

/-!
# Images whose end is missing

Neither kind of image says how long it is.  But whatever a shorter file is
decoded to, the whole file is decoded to as well, and then one of the entries
stops where the whole file ends: past the end of the shorter one.

* `truncation_detected`: no image and no container is decoded from a part of it.
-/

namespace FlashImage

namespace Inspect

variable {digest : Bytes → String} {cut img : Image}

section Cut

variable (h : cut.Begins img)
include h

theorem inspectRoot_of_cut (h_lt : cut.size < img.size)
    (h_end : ∀ r, inspectRoot digest img = .ok r →
      ∃ x ∈ r.entries, x.absoluteOffset + x.size.toNat = img.size) :
    ∃ e, inspectRoot digest cut = .error e := by
  apply exists_eq_error
  intro r h_cut
  obtain ⟨x, h_mem, h_stop⟩ := h_end r (inspectRoot_mono h h_cut)
  have h_within := inspectRoot_within h_cut x h_mem
  omega

theorem inspectCamera_of_cut (h_lt : cut.size < img.size)
    (h_end : ∀ i, inspectCamera digest img = .ok i →
      ∃ x ∈ i.entries, x.absoluteOffset + x.size.toNat = img.size) :
    ∃ e, inspectCamera digest cut = .error e := by
  apply exists_eq_error
  intro i h_cut
  obtain ⟨x, h_mem, h_stop⟩ := h_end i (inspectCamera_mono h h_cut)
  have h_within := inspectCamera_within h_cut x h_mem
  omega

/-- A cut that is too short for the magic word is taken for a container, but it is
also too short for a first entry. -/
theorem inspect_of_cut_root (h_kind : isRoot img = true)
    (failed : ∃ e, inspectRoot digest cut = .error e) : ∃ e, inspect digest cut = .error e := by
  apply exists_eq_error
  intro x h_cut
  cases x with
  | root r =>
    obtain ⟨e, failed⟩ := failed
    rw [(inspect_eq_root_iff.mp h_cut).2] at failed
    cases failed
  | camera i =>
    have h_whole := (inspect_eq_camera_iff.mp (inspect_mono h h_cut)).1
    rw [h_kind] at h_whole
    cases h_whole

theorem inspect_of_cut_camera (h_kind : isRoot img = false)
    (failed : ∃ e, inspectCamera digest cut = .error e) : ∃ e, inspect digest cut = .error e := by
  apply exists_eq_error
  intro x h_cut
  cases x with
  | root r =>
    have h_whole := (inspect_eq_root_iff.mp (inspect_mono h h_cut)).1
    rw [h_kind] at h_whole
    cases h_whole
  | camera i =>
    obtain ⟨e, failed⟩ := failed
    rw [(inspect_eq_camera_iff.mp h_cut).2] at failed
    cases failed

end Cut

end Inspect

/-- A root image that holds a payload, whatever calls it came from, is not decoded
when bytes are missing at its end, and neither is a container. -/
theorem truncation_detected (digest : Bytes → String) :
    (∀ (s : LayoutSettings) (b : RootBuilder) report after, Grown s b →
      b.finish = (.ok report, after) → (∃ p ∈ report.modules, p.size ≠ 0) →
      ∀ cut : Image, cut.Begins after.image → cut.size < after.image.size →
        (∃ e, Inspect.inspectRoot digest cut = .error e) ∧
        ∃ e, Inspect.inspect digest cut = .error e) ∧
    ∀ (b : CameraBuilder) files report after, b.medium.image = .empty →
      b.finish files = (.ok report, after) →
      ∀ cut : Image, cut.Begins after.image → cut.size < after.image.size →
        (∃ e, Inspect.inspectCamera digest cut = .error e) ∧
        ∃ e, Inspect.inspect digest cut = .error e := by
  constructor
  -- an entry of the whole image stops at its end, and decoding a cut would find it
  · intro s b report after grown finished h_payload cut h h_lt
    have failed : ∃ e, Inspect.inspectRoot digest cut = .error e :=
      Inspect.inspectRoot_of_cut h h_lt fun r decoded =>
        grown.exists_entry_end finished h_payload decoded
    exact ⟨failed, Inspect.inspect_of_cut_root h (grown.isRoot_finish finished) failed⟩
  · intro b files report after blank finished cut h h_lt
    obtain ⟨h_kind, i, h_whole, h_entry⟩ := Inspect.inspectCamera_finish digest blank finished
    have failed : ∃ e, Inspect.inspectCamera digest cut = .error e :=
      Inspect.inspectCamera_of_cut h h_lt fun found decoded => by
        rw [h_whole] at decoded
        cases decoded
        exact h_entry
    exact ⟨failed, Inspect.inspect_of_cut_camera h h_kind failed⟩

open Sha256 (hexDigest)

/-- A module that does not fit and two that do, the last one on a larger medium. -/
def lossyBuilder (b : RootBuilder) : RootBuilder :=
  let lost := (b.call (sizedCall 16)).2
  let placed := (lost.call ⟨.firmware, 0x1001, .memory [2, 3]⟩).2
  ((placed.taking none []).call ⟨.appProfile, 0x4001, .memory [4]⟩).2

theorem Grown.lossyBuilder {s : LayoutSettings} {b : RootBuilder} (h : Grown s b) :
    Grown s (lossyBuilder b) :=
  (((h.call _).call _).change _ _).call _

/-- The entry of the lost module points into the file, so that the whole image is
decoded, as the container is; of both no cut is. -/
theorem truncation_detected_lossy :
    (∃ b report after, RootBuilder.start shortMedium blockLayout = .ok b ∧
      (lossyBuilder b).finish = (.ok report, after) ∧
      report.header.sizeOfDirectory = 36 ∧ report.modules.map (·.size) = [2, 1] ∧
      (Inspect.inspect hexDigest after.image).isOk = true ∧
      ∀ n < after.image.size,
        ∃ e, Inspect.inspect hexDigest (.ofBytes (after.image.toBytes.take n)) = .error e) ∧
    ∃ report after,
      (CameraBuilder.addAll {} mixedRequests).finish gainFiles = (.ok report, after) ∧
      (Inspect.inspect hexDigest after.image).isOk = true ∧
      ∀ n < after.image.size,
        ∃ e, Inspect.inspect hexDigest (.ofBytes (after.image.toBytes.take n)) = .error e := by
  constructor
  · refine ⟨_, _, _, by rfl, by rfl, by decide, by decide, by rfl, fun n h_lt => ?_⟩
    have grown := (Grown.start (rfl : shortMedium.image = .empty)
      (rfl : RootBuilder.start shortMedium blockLayout = .ok _)).lossyBuilder
    exact ((truncation_detected hexDigest).1 _ _ _ _ grown rfl (by decide) _
      (Image.begins_ofBytes_take _ n)
      (by simpa [Nat.le_of_lt h_lt] using h_lt)).2
  · have unlimited : ({} : Medium).Unlimited := Medium.unlimited_empty
    obtain ⟨after, h_finish, -⟩ :=
      finish_addAll unlimited rfl {} mixedRequests loaded_mixedRequests (by decide)
    have blank : (CameraBuilder.addAll {} mixedRequests).medium.image = .empty := by
      rw [CameraBuilder.medium_addAll]
      rfl
    obtain ⟨h_kind, i, h_whole, -⟩ := Inspect.inspectCamera_finish hexDigest blank h_finish
    refine ⟨_, after, h_finish, ?_, fun n h_lt => ?_⟩
    · rw [Inspect.inspect_eq_camera_iff.mpr ⟨h_kind, h_whole⟩]
      rfl
    · exact ((truncation_detected hexDigest).2 _ _ _ _ blank h_finish _
        (Image.begins_ofBytes_take _ n)
        (by simpa [Nat.le_of_lt h_lt] using h_lt)).2

end FlashImage
