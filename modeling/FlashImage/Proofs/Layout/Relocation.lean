import FlashImage.Proofs.Image.Contiguous
import FlashImage.Proofs.Image.Shifted
import FlashImage.Proofs.Layout.Finish
import Mathlib.Data.List.Forall2

/-!
# Images with their directory elsewhere

Offsets are rounded up from the start of the image, but a directory lies on a
multiple of the alignment, so that they might as well be rounded up from there.
Where a module goes, counted from the directory, depends on the sizes of the
modules in front of it only.  Moving the directory moves everything behind it.

* `position_independent`: two builds that differ in the place of the directory only.
-/

namespace FlashImage

/-! ## Offsets that count from the directory -/

def roundUp (alignment value : Nat) : Nat :=
  (value + alignment - 1) / alignment * alignment

/-- The offsets of modules with the given sizes, each at the least multiple of the
alignment that is not below the end of the one before it. -/
def relativeOffsets (alignment : Nat) : Nat → List Nat → List Nat
  | _, [] => []
  | start, size :: sizes =>
      start :: relativeOffsets alignment (roundUp alignment (start + size)) sizes

theorem Packed.offsets_eq {alignment base start next : Nat} {ps : List ModulePlacement}
    (h : Packed alignment (base + start) ps next) (pos : 0 < alignment) (h_dvd : alignment ∣ base) :
    ps.map (·.offset.toNat) =
      (relativeOffsets alignment start (ps.map (·.size.toNat))).map (base + ·) := by
  generalize h_from : base + start = absolute at h
  induction h generalizing start with
  | nil => rfl
  | @cons _ behind _ p ps at_start least rest ih =>
    have h_stop : p.stop = base + (start + p.size.toNat) := by
      rw [ModulePlacement.stop, at_start, ← h_from, Nat.add_assoc]
    rw [h_stop] at least
    have h_behind : base + roundUp alignment (start + p.size.toNat) = behind :=
      (isLeast_add_alignedFrom h_dvd (isLeast_roundUp pos _)).unique least
    rw [List.map_cons, List.map_cons, relativeOffsets, List.map_cons, at_start, h_from, ih h_behind]

namespace PlacedModule

/-- The segment of a module, counted from the first copy of the directory. -/
def relativeSegment (m : PlacedModule) : Segment :=
  .ofBytes m.placement.directoryOffset.toNat m.attempt.bytes

/-- The directory entry of a module, which does not tell where the directory lies. -/
def relativeEntry (m : PlacedModule) : DirectoryEntry :=
  ⟨m.attempt.identifier, m.placement.directoryOffset, UInt32.ofNat m.attempt.bytes.length⟩

theorem Sound.segment_eq {s : LayoutSettings} {m : PlacedModule} (h : m.Sound s) :
    m.segment = m.relativeSegment.shift s.base := by
  rw [segment, h.offset_eq]
  rfl

theorem Sound.entryIn_eq {s : LayoutSettings} {m : PlacedModule} (h : m.Sound s) :
    m.entryIn s = m.relativeEntry := by
  rw [entryIn, h.offset_eq, Nat.add_sub_cancel_left, UInt32.ofNat_toNat]
  rfl

end PlacedModule

theorem Allocated.directoryOffsets_eq {s : LayoutSettings} {b : RootBuilder}
    {modules : List PlacedModule} (h : Allocated s b modules) (accepted : s.Accepted) :
    modules.map (·.placement.directoryOffset.toNat) =
      relativeOffsets s.alignment (s.alignment * s.copies)
        (modules.map (·.attempt.bytes.length)) := by
  have h_offsets :=
    h.packed.offsets_eq (Nat.pos_of_isPowerOfTwo accepted.power) accepted.base_aligned
  have h_sizes : modules.map (·.placement.size.toNat) = modules.map (·.attempt.bytes.length) :=
    List.map_congr_left fun m h_mem => (h.sound m h_mem).size_eq
  have h_absolute : modules.map (·.placement.offset.toNat) =
      (modules.map (·.placement.directoryOffset.toNat)).map (s.base + ·) := by
    rw [List.map_map]
    exact List.map_congr_left fun m h_mem => (h.sound m h_mem).offset_eq
  simp only [h.placements_eq, List.map_map, Function.comp_def] at h_offsets
  rw [h_sizes, h_absolute] at h_offsets
  exact List.map_injective_iff.mpr (fun _ _ => Nat.add_left_cancel) h_offsets

namespace LayoutSettings

def relativeSegments (s : LayoutSettings) (modules : List PlacedModule) : List Segment :=
  modules.map (·.relativeSegment) ++
    (List.range' 0 s.copies).map fun i => .ofBytes (s.alignment * i) (s.directoryBytes modules)

theorem rootSegments_perm {s : LayoutSettings} {modules : List PlacedModule}
    (sound : ∀ m ∈ modules, m.Sound s) :
    (s.rootSegments modules).Perm (.ofBytes 0 (s.rootHeader modules.length).encode ::
      (s.relativeSegments modules).map (.shift s.base)) := by
  have h_modules : modules.map (·.segment) = modules.map fun m => m.relativeSegment.shift s.base :=
    List.map_congr_left fun m h_mem => (sound m h_mem).segment_eq
  rw [rootSegments, imageSegments, relativeSegments, List.map_append, List.map_map, List.map_map,
    h_modules]
  exact List.perm_middle

theorem directoryBytes_eq {s : LayoutSettings} {modules : List PlacedModule}
    (sound : ∀ m ∈ modules, m.Sound s) :
    s.directoryBytes modules = (pinnedFirst (·.identifier) s.bootIdentifier
      (modules.map (·.relativeEntry))).flatMap DirectoryEntry.encode := by
  have h_keys : ∀ m ∈ modules, m.placement.identifier = m.relativeEntry.identifier :=
    fun m h_mem => (sound m h_mem).identifier_eq
  rw [directoryBytes, directory, pinnedFirst_congr h_keys, ← map_pinnedFirst]
  congr 1
  exact List.map_congr_left fun m h_mem =>
    (sound m (mem_pinnedFirst.mp h_mem)).entryIn_eq

end LayoutSettings

/-! ## Directories in two places -/

namespace PlacedModule

/-- Two builds have put the same module at the same place, counted from the first
copy of the directory. -/
structure SamePlace (m n : PlacedModule) : Prop where
  attempt_eq : m.attempt = n.attempt
  directoryOffset_eq : m.placement.directoryOffset = n.placement.directoryOffset

theorem forall₂_samePlace {modules others : List PlacedModule}
    (attempts : modules.map (·.attempt) = others.map (·.attempt))
    (offsets : modules.map (·.placement.directoryOffset.toNat) =
      others.map (·.placement.directoryOffset.toNat)) :
    List.Forall₂ SamePlace modules others := by
  induction modules generalizing others with
  | nil =>
    cases others with
    | nil => exact .nil
    | cons n others => cases attempts
  | cons m modules ih =>
    cases others with
    | nil => cases attempts
    | cons n others =>
      obtain ⟨h_attempt, attempts⟩ := List.cons.inj attempts
      obtain ⟨h_offset, offsets⟩ := List.cons.inj offsets
      exact .cons ⟨h_attempt, UInt32.toNat_inj.mp h_offset⟩ (ih attempts offsets)

theorem map_eq_of_samePlace {α : Type} {f : PlacedModule → α} {modules others : List PlacedModule}
    (h : List.Forall₂ SamePlace modules others) (respects : ∀ m n, m.SamePlace n → f m = f n) :
    modules.map f = others.map f := by
  induction h with
  | nil => rfl
  | cons same _ ih => rw [List.map_cons, List.map_cons, respects _ _ same, ih]

namespace SamePlace

variable {m n : PlacedModule}

theorem relativeSegment_eq (h : m.SamePlace n) : m.relativeSegment = n.relativeSegment := by
  rw [relativeSegment, relativeSegment, h.attempt_eq, h.directoryOffset_eq]

theorem relativeEntry_eq (h : m.SamePlace n) : m.relativeEntry = n.relativeEntry := by
  rw [relativeEntry, relativeEntry, h.attempt_eq, h.directoryOffset_eq]

theorem placement_eq (h : m.SamePlace n) {s t : LayoutSettings} (sound : m.Sound s)
    (sound' : n.Sound t) :
    n.placement = { m.placement with offset := n.placement.offset } ∧
      n.placement.offset.toNat + s.base = m.placement.offset.toNat + t.base := by
  have h_category : n.placement.category = m.placement.category := by
    rw [sound.category_eq, sound'.category_eq, h.attempt_eq]
  have h_identifier : n.placement.identifier = m.placement.identifier := by
    rw [sound.identifier_eq, sound'.identifier_eq, h.attempt_eq]
  have h_size : n.placement.size = m.placement.size := by
    rw [← UInt32.toNat_inj, sound.size_eq, sound'.size_eq, h.attempt_eq]
  refine ⟨?_, ?_⟩
  · calc n.placement
        = ⟨n.placement.category, n.placement.identifier, n.placement.offset,
            n.placement.directoryOffset, n.placement.size⟩ := rfl
      _ = { m.placement with offset := n.placement.offset } := by
          rw [h_category, h_identifier, h_size, ← h.directoryOffset_eq]
  · rw [sound.offset_eq, sound'.offset_eq, h.directoryOffset_eq]
    omega

end SamePlace

end PlacedModule

/-! ## The image of one build -/

namespace Built

variable {s : LayoutSettings} {modules : List PlacedModule} {report : RootReport} {image : Image}

theorem consists_relative (h : Built s modules report image) :
    image.Consists (.ofBytes 0 (s.rootHeader modules.length).encode ::
      (s.relativeSegments modules).map (.shift s.base)) :=
  h.consists.perm (LayoutSettings.rootSegments_perm h.sound)

theorem read_header (h : Built s modules report image) :
    image.read 0 RootHeader.width = (s.rootHeader modules.length).encode :=
  h.consists_relative.read_eq _ List.mem_cons_self

theorem byteAt_gap (h : Built s modules report image) {i : Nat} (h_header : RootHeader.width ≤ i)
    (h_base : i < s.base) : image.byteAt i = 0 := by
  refine h.consists_relative.zero_elsewhere i
    (List.forall_mem_cons.mpr ⟨?_, List.forall_mem_map.mpr fun t _ => ?_⟩)
  all_goals rw [Bool.eq_false_iff, ne_eq, Segment.covers_iff]
  · rintro ⟨-, h_lt⟩
    exact Nat.not_lt.mpr h_header h_lt
  · rintro ⟨h_le, -⟩
    exact Nat.not_lt.mpr (Nat.le_trans (Nat.le_add_right _ _) h_le) h_base

end Built

/-- The bytes of a header in front of and behind the place of the directory. -/
theorem RootHeader.encode_split (h : RootHeader) (word : UInt32) :
    ∃ front back, front.length = 20 ∧
      h.encode = front ++ Word.encode h.startOfDirectory ++ back ∧
      { h with startOfDirectory := word }.encode = front ++ Word.encode word ++ back := by
  refine ⟨[h.signature, h.layoutVersion, h.updateCount, 0, h.controlField].flatMap Word.encode,
    [h.sizeOfDirectory, h.directoryCopyCount, h.directoryEntrySize, h.bootIdentifier].flatMap
      Word.encode, rfl, rfl, rfl⟩

/-! ## Two builds -/

section Builds

variable {s : LayoutSettings} {start : Option UInt32} {modules others : List PlacedModule}

theorem relativeSegments_eq (h : List.Forall₂ PlacedModule.SamePlace modules others)
    (sound : ∀ m ∈ modules, m.Sound s)
    (sound' : ∀ m ∈ others, m.Sound { s with startOfDirectory := start }) :
    s.relativeSegments modules =
      LayoutSettings.relativeSegments { s with startOfDirectory := start } others := by
  have h_directory : s.directoryBytes modules =
      LayoutSettings.directoryBytes { s with startOfDirectory := start } others := by
    rw [LayoutSettings.directoryBytes_eq sound, LayoutSettings.directoryBytes_eq sound',
      PlacedModule.map_eq_of_samePlace h fun _ _ same => same.relativeEntry_eq]
  rw [LayoutSettings.relativeSegments, LayoutSettings.relativeSegments, h_directory,
    PlacedModule.map_eq_of_samePlace h fun _ _ same => same.relativeSegment_eq]
  rfl

theorem samePlace_accepted {medium medium' : Medium} {b b' : RootBuilder}
    (unlimited : medium.Unlimited) (unlimited' : medium'.Unlimited)
    (h_start : RootBuilder.start medium s = .ok b)
    (h_start' : RootBuilder.start medium' { s with startOfDirectory := start } = .ok b')
    {attempts : List Attempt}
    (same : (b.accepted attempts).map (·.attempt) = (b'.accepted attempts).map (·.attempt)) :
    List.Forall₂ PlacedModule.SamePlace (b.accepted attempts) (b'.accepted attempts) := by
  have allocated := allocated_addAll unlimited h_start attempts
  have allocated' := allocated_addAll unlimited' h_start' attempts
  refine PlacedModule.forall₂_samePlace same ?_
  rw [allocated.directoryOffsets_eq (RootBuilder.start_eq_ok h_start).1,
    allocated'.directoryOffsets_eq (RootBuilder.start_eq_ok h_start').1]
  have h_sizes := congrArg (List.map (·.bytes.length)) same
  simp only [List.map_map, Function.comp_def] at h_sizes
  rw [h_sizes]
  rfl

/-- Two builds that differ in the place of the directory only put the same modules
at the same places behind it, and their images are the same from there on.  In
front of the directory there is the header, which tells the place, and nothing else. -/
theorem position_independent {medium medium' after after' : Medium} {b b' : RootBuilder}
    {report report' : RootReport} (unlimited : medium.Unlimited) (unlimited' : medium'.Unlimited)
    (blank : medium.image = .empty) (blank' : medium'.image = .empty)
    (h_start : RootBuilder.start medium s = .ok b)
    (h_start' : RootBuilder.start medium' { s with startOfDirectory := start } = .ok b')
    {attempts : List Attempt}
    (same : (b.accepted attempts).map (·.attempt) = (b'.accepted attempts).map (·.attempt))
    (h_finish : (b.addAll attempts).finish = (.ok report, after))
    (h_finish' : (b'.addAll attempts).finish = (.ok report', after')) :
    let t := { s with startOfDirectory := start }
    List.Forall₂ (fun p q => q = { p with offset := q.offset } ∧
      q.offset.toNat + s.base = p.offset.toNat + t.base) report.modules report'.modules ∧
    after.image.toBytes.drop s.base = after'.image.toBytes.drop t.base ∧
    report'.header = { report.header with startOfDirectory := t.baseWord } ∧
    (∃ front back, front.length = 20 ∧
      after.image.read 0 40 = front ++ Word.encode s.baseWord ++ back ∧
      after'.image.read 0 40 = front ++ Word.encode t.baseWord ++ back) ∧
    (∀ i, 40 ≤ i → i < s.base → after.image.byteAt i = 0) ∧
    ∀ i, 40 ≤ i → i < t.base → after'.image.byteAt i = 0 := by
  intro t
  have built := built_of_finish unlimited blank h_start attempts h_finish
  have built' := built_of_finish unlimited' blank' h_start' attempts h_finish'
  have places : List.Forall₂ PlacedModule.SamePlace (b.accepted attempts) (b'.accepted attempts) :=
    samePlace_accepted unlimited unlimited' h_start h_start' same
  have h_length : (b.accepted attempts).length = (b'.accepted attempts).length := places.length_eq
  refine ⟨?_, ?_, ?_, ?_, fun _ => built.byteAt_gap, fun _ => built'.byteAt_gap⟩
  · rw [built.modules_eq, built'.modules_eq, List.forall₂_map_left_iff, List.forall₂_map_right_iff]
    refine List.forall₂_iff_zip.mpr ⟨h_length, fun h_zip => ?_⟩
    obtain ⟨h_mem, h_mem'⟩ := List.of_mem_zip h_zip
    exact ((List.forall₂_iff_zip.mp places).2 h_zip).placement_eq (built.sound _ h_mem)
      (built'.sound _ h_mem')
  · have consists := built.consists_relative
    rw [relativeSegments_eq places built.sound built'.sound] at consists
    exact consists.drop_toBytes_eq built'.consists_relative built.accepted.header_le_base
      built'.accepted.header_le_base
  · rw [built.header_eq, built'.header_eq, h_length]
    rfl
  · obtain ⟨front, back, h_front, h_header, h_header'⟩ :=
      (s.rootHeader (b.accepted attempts).length).encode_split t.baseWord
    refine ⟨front, back, h_front, built.read_header.trans h_header, ?_⟩
    rw [← h_header', h_length]
    exact built'.read_header

end Builds

/-- Both builds refuse the attempt outside the range of its category. -/
theorem position_independent_mixed :
    ∃ b b' report report' after after', RootBuilder.start {} mixedLayout = .ok b ∧
      RootBuilder.start {} { mixedLayout with startOfDirectory := some 0x400 } = .ok b' ∧
      (b.accepted mixedAttempts).map (·.attempt) = mixedAttempts.eraseIdx 2 ∧
      (b'.accepted mixedAttempts).map (·.attempt) = mixedAttempts.eraseIdx 2 ∧
      (b.addAll mixedAttempts).finish = (.ok report, after) ∧
      (b'.addAll mixedAttempts).finish = (.ok report', after') ∧
      List.Forall₂ (fun p q => q = { p with offset := q.offset } ∧
        q.offset.toNat + 0x40 = p.offset.toNat + 0x400) report.modules report'.modules ∧
      after.image.toBytes.drop 0x40 = after'.image.toBytes.drop 0x400 := by
  have h_build : ∃ b report after, RootBuilder.start {} mixedLayout = .ok b ∧
      (b.accepted mixedAttempts).map (·.attempt) = mixedAttempts.eraseIdx 2 ∧
      (b.addAll mixedAttempts).finish = (.ok report, after) := ⟨_, _, _, rfl, rfl, rfl⟩
  have h_build' : ∃ b report after,
      RootBuilder.start {} { mixedLayout with startOfDirectory := some 0x400 } = .ok b ∧
      (b.accepted mixedAttempts).map (·.attempt) = mixedAttempts.eraseIdx 2 ∧
      (b.addAll mixedAttempts).finish = (.ok report, after) := ⟨_, _, _, rfl, rfl, rfl⟩
  obtain ⟨b, report, after, h_start, same, h_finish⟩ := h_build
  obtain ⟨b', report', after', h_start', same', h_finish'⟩ := h_build'
  obtain ⟨places, h_back, -⟩ :=
    position_independent Medium.unlimited_empty Medium.unlimited_empty rfl rfl
    h_start h_start' (same.trans same'.symm) h_finish h_finish'
  exact ⟨b, b', report, report', after, after', h_start, h_start', same, same', h_finish, h_finish',
    places, h_back⟩

end FlashImage
