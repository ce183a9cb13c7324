import FlashImage.Proofs.Image.Words
import FlashImage.Proofs.Layout.Finish

/-!
# The file of a root image

What a finished build leaves, byte for byte, in words at fixed offsets and in the payloads
as they were added.

* `finish_image`: when `RootBuilder.finish` succeeds, and the file that it leaves.
-/

namespace FlashImage

/-- The bytes of a root image: ten words in front, the directory in all its copies, the
payloads where they were placed, and zeros between them. -/
structure RootFile (s : LayoutSettings) (modules : List PlacedModule) (d : Bytes) : Prop where
  header : WordsAt d 0
    [0x4343534C, s.layoutVersion.toNat, s.updateCount.toNat, 0, s.controlField.toNat, s.base,
      12 * modules.length, s.copies, 12, (s.bootIdentifier.getD 0x1001).toNat]
  directory : ∀ copy < s.copies, ∀ (k : Nat) m,
    (pinnedFirst (·.placement.identifier) s.bootIdentifier modules)[k]? = some m →
      WordsAt d (s.base + s.alignment * copy + 12 * k)
        [m.placement.identifier.toNat, m.placement.offset.toNat - s.base, m.attempt.bytes.length]
  payload : ∀ m ∈ modules, m.attempt.bytes <+: d.drop m.placement.offset.toNat
  zero_elsewhere : ∀ i, 40 ≤ i →
    (∀ copy < s.copies, i < s.base + s.alignment * copy ∨
      s.base + s.alignment * copy + 12 * modules.length ≤ i) →
    (∀ m ∈ modules, i < m.placement.offset.toNat ∨
      m.placement.offset.toNat + m.attempt.bytes.length ≤ i) →
    d.getD i 0 = 0
  /-- It ends with the last part that is not empty. -/
  length : IsLeast {n | 40 ≤ n ∧
    (modules ≠ [] → ∀ copy < s.copies, s.base + s.alignment * copy + 12 * modules.length ≤ n) ∧
    ∀ m ∈ modules, m.attempt.bytes ≠ [] →
      m.placement.offset.toNat + m.attempt.bytes.length ≤ n} d.length

namespace Built

variable {s : LayoutSettings} {modules : List PlacedModule} {report : RootReport} {img : Image}

theorem header_words (built : Built s modules report img) :
    WordsAt img.toBytes 0
      [0x4343534C, s.layoutVersion.toNat, s.updateCount.toNat, 0, s.controlField.toNat, s.base,
        12 * modules.length, s.copies, 12, (s.bootIdentifier.getD 0x1001).toNat] := by
  have h_size : (UInt32.ofNat (12 * modules.length)).toNat = 12 * modules.length :=
    UInt32.toNat_ofNat_of_lt (Nat.lt_of_le_of_lt built.fits s.alignment_lt)
  have h_words := wordsAt_of_isPrefix _ (built.consists.isPrefix LayoutSettings.header_mem)
  rw [← h_size]
  exact h_words

theorem directory_words (built : Built s modules report img) {copy k : Nat}
    (h_copy : copy < s.copies) {m : PlacedModule}
    (h_entry : (pinnedFirst (·.placement.identifier) s.bootIdentifier modules)[k]? = some m) :
    WordsAt img.toBytes (s.base + s.alignment * copy + 12 * k)
      [m.placement.identifier.toNat, m.placement.offset.toNat - s.base,
        m.attempt.bytes.length] := by
  have sound := built.sound m (mem_pinnedFirst.mp (List.mem_of_getElem? h_entry))
  have h_listed : (s.directory modules)[k]? = some m.placement.entry := by
    rw [LayoutSettings.directory, List.getElem?_map, h_entry, sound.entry_eq]
    rfl
  have h_words :=
    wordsAt_directory (built.consists.isPrefix (LayoutSettings.copy_mem h_copy)) h_listed
  rw [sound.offset_eq, Nat.add_sub_cancel_left, ← sound.size_eq]
  exact h_words

theorem zero_elsewhere (built : Built s modules report img) {i : Nat} (h_header : 40 ≤ i)
    (h_copies : ∀ copy < s.copies, i < s.base + s.alignment * copy ∨
      s.base + s.alignment * copy + 12 * modules.length ≤ i)
    (h_modules : ∀ m ∈ modules, i < m.placement.offset.toNat ∨
      m.placement.offset.toNat + m.attempt.bytes.length ≤ i) :
    img.toBytes.getD i 0 = 0 := by
  have uncovered : ∀ t ∈ s.rootSegments modules, t.covers i = false := by
    intro t h_mem
    rw [Bool.eq_false_iff, ne_eq, Segment.covers_iff]
    rcases LayoutSettings.mem_imageSegments h_mem with ⟨m, h_m, rfl⟩ | rfl | ⟨copy, h_lt, rfl⟩
    · have h_outside := h_modules m h_m
      rw [PlacedModule.segment, Segment.offset_ofBytes, Segment.stop_ofBytes]
      omega
    · rw [Segment.stop_ofBytes, RootHeader.length_encode]
      omega
    · have h_outside := h_copies copy h_lt
      rw [Segment.offset_ofBytes, Segment.stop_ofBytes, LayoutSettings.length_directoryBytes]
      omega
  rw [Image.getD_toBytes, built.consists.zero_elsewhere i uncovered, ite_self]

theorem isLeast_length (built : Built s modules report img) :
    IsLeast {n | 40 ≤ n ∧
      (modules ≠ [] → ∀ copy < s.copies, s.base + s.alignment * copy + 12 * modules.length ≤ n) ∧
      ∀ m ∈ modules, m.attempt.bytes ≠ [] →
        m.placement.offset.toNat + m.attempt.bytes.length ≤ n} img.toBytes.length := by
  rw [Image.length_toBytes]
  refine ⟨⟨?_, fun h_some copy h_lt => ?_, fun m h_m h_bytes => ?_⟩, ?_⟩
  · exact built.consists.stop_le_size LayoutSettings.header_mem rfl
  · have h_pos := List.length_pos_iff.mpr h_some
    have h_nonempty : s.directoryBytes modules ≠ [] := by
      rw [← List.length_pos_iff, LayoutSettings.length_directoryBytes]
      omega
    have h_stop := built.consists.stop_le_size (LayoutSettings.copy_mem h_lt) (by simpa)
    rwa [Segment.stop_ofBytes, LayoutSettings.length_directoryBytes] at h_stop
  · have h_nonempty : m.segment.bytes.isEmpty = false := by simpa [PlacedModule.segment]
    exact built.consists.stop_le_size (LayoutSettings.segment_mem h_m) h_nonempty
  · rintro n ⟨h_header, h_copies, h_modules⟩
    rw [built.consists.size_eq]
    refine Image.extent_le fun t h_mem h_nonempty => ?_
    rcases LayoutSettings.mem_imageSegments h_mem with ⟨m, h_m, rfl⟩ | rfl | ⟨copy, h_lt, rfl⟩
    · exact h_modules m h_m (by simpa [PlacedModule.segment] using h_nonempty)
    · exact h_header
    · have h_some : modules ≠ [] := by
        rintro rfl
        have h_none : s.directoryBytes [] = [] := List.length_eq_zero_iff.mp (by simp)
        simp [h_none] at h_nonempty
      rw [Segment.stop_ofBytes, LayoutSettings.length_directoryBytes]
      exact h_copies h_some copy h_lt

theorem rootFile (built : Built s modules report img) : RootFile s modules img.toBytes where
  header := built.header_words
  directory _ h_copy _ _ h_entry := built.directory_words h_copy h_entry
  payload _ h_m := built.consists.isPrefix (LayoutSettings.segment_mem h_m)
  zero_elsewhere _ := built.zero_elsewhere
  length := built.isLeast_length

end Built

/-- Finishing fails exactly when the directory does not fit between two of its copies.
Otherwise it leaves the file of the modules that were accepted. -/
theorem finish_image {medium : Medium} {s : LayoutSettings} {b : RootBuilder}
    (unlimited : medium.Unlimited) (blank : medium.image = .empty)
    (h_start : RootBuilder.start medium s = .ok b) (attempts : List Attempt) :
    let modules := b.accepted attempts
    let done := b.addAll attempts
    (done.finish.1 = .error (.directoryTooLarge (12 * modules.length) s.eraseBlockAlignment) ↔
        s.alignment < 12 * modules.length) ∧
      (12 * modules.length ≤ s.alignment →
        ∃ report after, done.finish = (.ok report, after) ∧
          report.header = s.rootHeader modules.length ∧
          report.modules = modules.map (·.placement) ∧
          RootFile s modules after.image.toBytes) := by
  intro modules done
  refine ⟨⟨fun failed => ?_, ?_⟩, fun h_fits => ?_⟩
  · by_contra h_fits
    obtain ⟨report, after, h_finish, -⟩ :=
      finish_eq_ok unlimited blank h_start attempts (Nat.le_of_not_lt h_fits)
    rw [h_finish] at failed
    cases failed
  · exact (allocated_addAll unlimited h_start attempts).finish_overflow
  · obtain ⟨report, after, h_finish, built⟩ :=
      finish_eq_ok unlimited blank h_start attempts h_fits
    exact ⟨report, after, h_finish, built.header_eq, built.modules_eq, built.rootFile⟩

/-- The boot module comes first in the directory, although it was added last. -/
theorem finish_image_mixed :
    ∃ b, RootBuilder.start {} mixedLayout = .ok b ∧
      ∃ report after, (b.addAll mixedAttempts).finish = (.ok report, after) ∧
        WordsAt after.image.toBytes 0
          [0x4343534C, 1, 1, 0, 0xFFFFFFFE, 0x40, 36, 2, 12, 0x1001] ∧
        (∀ base ∈ [0x40, 0x80],
          WordsAt after.image.toBytes base [0x1001, 0x100, 2] ∧
          WordsAt after.image.toBytes (base + 12) [0x2001, 0x80, 0x41] ∧
          WordsAt after.image.toBytes (base + 24) [0x5001, 0x100, 0]) ∧
        [2, 3] <+: after.image.toBytes.drop 0x140 ∧ after.image.toBytes.length = 0x142 := by
  refine ⟨_, by rfl, ?_⟩
  obtain ⟨report, after, h_finish, -, -, file⟩ :=
    (@finish_image {} mixedLayout _ Medium.unlimited_empty rfl rfl mixedAttempts).2 (by decide)
  refine ⟨report, after, h_finish, file.header, ?_,
    file.payload _ (.tail _ (.tail _ (.head _))), ?_⟩
  · rw [List.forall_mem_cons, List.forall_mem_singleton]
    exact ⟨⟨file.directory 0 (by decide) 0 _ rfl, file.directory 0 (by decide) 1 _ rfl,
        file.directory 0 (by decide) 2 _ rfl⟩,
      file.directory 1 (by decide) 0 _ rfl, file.directory 1 (by decide) 1 _ rfl,
      file.directory 1 (by decide) 2 _ rfl⟩
  · refine Nat.le_antisymm (file.length.2 ⟨by decide, fun _ => by decide, by decide⟩) ?_
    exact file.length.1.2.2 _ (.tail _ (.tail _ (.head _))) (by decide)

end FlashImage
