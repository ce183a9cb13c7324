import FlashImage.Proofs.Layout.Allocation

/-!
# The finished image

The modules are written first, then the header, then the copies of the
directory.  None of these segments touches another one, so the image is made up
of all of them, whatever the order of the writes.

* `Built`: a finished build, with its report and its image.
-/

namespace FlashImage

/-! ## The segments of an image -/

namespace PlacedModule

def segment (m : PlacedModule) : Segment :=
  .ofBytes m.placement.offset.toNat m.attempt.bytes

/-- The directory entry of a module, whose offset counts from the first copy of
the directory. -/
def entryIn (s : LayoutSettings) (m : PlacedModule) : DirectoryEntry where
  identifier := m.attempt.identifier
  offset := UInt32.ofNat (m.placement.offset.toNat - s.base)
  size := UInt32.ofNat m.attempt.bytes.length

theorem Sound.entry_eq {s : LayoutSettings} {m : PlacedModule} (h : m.Sound s) :
    m.placement.entry = m.entryIn s := by
  have h_offset : m.placement.offset.toNat - s.base = m.placement.directoryOffset.toNat := by
    rw [h.offset_eq, Nat.add_sub_cancel_left]
  rw [entryIn, h_offset, ← h.size_eq, ← h.identifier_eq, UInt32.ofNat_toNat, UInt32.ofNat_toNat]
  rfl

end PlacedModule

namespace LayoutSettings

/-- The directory of the given modules, the boot module first. -/
def directory (s : LayoutSettings) (modules : List PlacedModule) : List DirectoryEntry :=
  (pinnedFirst (·.placement.identifier) s.bootIdentifier modules).map (·.entryIn s)

def directoryBytes (s : LayoutSettings) (modules : List PlacedModule) : Bytes :=
  (s.directory modules).flatMap DirectoryEntry.encode

def rootHeader (s : LayoutSettings) (n : Nat) : RootHeader where
  layoutVersion := s.layoutVersion
  updateCount := s.updateCount
  controlField := s.controlField
  startOfDirectory := s.baseWord
  sizeOfDirectory := UInt32.ofNat (12 * n)
  directoryCopyCount := s.directoryCopies
  bootIdentifier := s.bootIdentifier.getD 0x1001

def copySegments (s : LayoutSettings) (directory : Bytes) (start n : Nat) : List Segment :=
  (List.range' start n).map fun i => .ofBytes (s.base + s.alignment * i) directory

/-- The segments of an image with the given modules, header and directory, in the order
in which they are written. -/
def imageSegments (s : LayoutSettings) (modules : List PlacedModule) (header directory : Bytes) :
    List Segment :=
  modules.map (·.segment) ++ .ofBytes 0 header :: s.copySegments directory 0 s.copies

/-- The segments of the image that holds the given modules, with a header and a directory
of its own. -/
def rootSegments (s : LayoutSettings) (modules : List PlacedModule) : List Segment :=
  s.imageSegments modules (s.rootHeader modules.length).encode (s.directoryBytes modules)

theorem not_three_dvd_two_pow (k : Nat) : ¬ 3 ∣ 2 ^ k := by
  induction k with
  | zero => decide
  | succ k ih =>
    rw [Nat.pow_succ]
    omega

/-- A directory never fills its region, since twelve does not divide a power of two. -/
theorem Accepted.directory_lt {s : LayoutSettings} (accepted : s.Accepted) {n : Nat}
    (h_le : 12 * n ≤ s.alignment) : 12 * n < s.alignment := by
  refine Nat.lt_of_le_of_ne h_le fun h_eq => ?_
  obtain ⟨k, h_pow⟩ := accepted.power
  refine not_three_dvd_two_pow k ?_
  rw [← h_pow, ← h_eq]
  exact Nat.dvd_mul_right_of_dvd (by decide) n

@[simp] theorem length_directoryBytes (s : LayoutSettings) (modules : List PlacedModule) :
    (s.directoryBytes modules).length = 12 * modules.length := by
  rw [directoryBytes, DirectoryEntry.length_flatMap_encode, directory, List.length_map,
    length_pinnedFirst]

theorem mem_copySegments {s : LayoutSettings} {directory : Bytes} {start n : Nat} {t : Segment} :
    t ∈ s.copySegments directory start n ↔
      ∃ i, (start ≤ i ∧ i < start + n) ∧ .ofBytes (s.base + s.alignment * i) directory = t := by
  simp only [copySegments, List.mem_map, List.mem_range'_1]

section Members

variable {s : LayoutSettings} {modules : List PlacedModule} {header directory : Bytes}

theorem segment_mem {m : PlacedModule} (h_mem : m ∈ modules) :
    m.segment ∈ s.imageSegments modules header directory :=
  List.mem_append_left _ (List.mem_map_of_mem h_mem)

theorem header_mem : .ofBytes 0 header ∈ s.imageSegments modules header directory :=
  List.mem_append_right _ List.mem_cons_self

theorem copy_mem {i : Nat} (h_lt : i < s.copies) :
    .ofBytes (s.base + s.alignment * i) directory ∈ s.imageSegments modules header directory :=
  List.mem_append_right _ <| List.mem_cons_of_mem _ <|
    mem_copySegments.mpr ⟨i, ⟨Nat.zero_le _, by rwa [Nat.zero_add]⟩, rfl⟩

/-- A segment is that of a module, of the header or of a copy of the directory. -/
theorem mem_imageSegments {t : Segment} (h_mem : t ∈ s.imageSegments modules header directory) :
    (∃ m ∈ modules, m.segment = t) ∨ .ofBytes 0 header = t ∨
      ∃ i < s.copies, .ofBytes (s.base + s.alignment * i) directory = t := by
  rcases List.mem_append.mp h_mem with h_mem | h_mem
  · exact .inl (List.mem_map.mp h_mem)
  · rcases List.mem_cons.mp h_mem with rfl | h_mem
    · exact .inr (.inl rfl)
    · obtain ⟨i, ⟨-, h_lt⟩, rfl⟩ := mem_copySegments.mp h_mem
      exact .inr (.inr ⟨i, Nat.lt_of_lt_of_eq h_lt (Nat.zero_add _), rfl⟩)

end Members

theorem copySegments_apart {s : LayoutSettings} {directory : Bytes}
    (h_fits : directory.length ≤ s.alignment) (start n : Nat) :
    (s.copySegments directory start n).Pairwise Segment.Apart := by
  rw [copySegments, List.pairwise_map]
  refine (List.pairwise_lt_range' (s := start) (n := n)).imp fun {i j} h_lt => ?_
  refine Segment.apart_of_le (.inl ?_)
  have h_mul : s.alignment * (i + 1) ≤ s.alignment * j := Nat.mul_le_mul_left _ h_lt
  rw [Nat.mul_succ] at h_mul
  rw [Segment.stop_ofBytes, Segment.offset_ofBytes]
  omega

end LayoutSettings

/-- Nothing but modules reaches behind the last region of the directory. -/
theorem stop_lt_firstOffset {s : LayoutSettings} (accepted : s.Accepted) {header directory : Bytes}
    (h_header : header.length = 40) (h_fits : directory.length < s.alignment) {t : Segment}
    (h_mem : t ∈ .ofBytes 0 header :: s.copySegments directory 0 s.copies) :
    t.stop < s.firstOffset := by
  have h_base := accepted.header_le_base
  rw [LayoutSettings.firstOffset]
  rcases List.mem_cons.mp h_mem with rfl | h_mem
  · have h_copies : 0 < s.alignment * s.copies :=
      Nat.mul_pos (Nat.pos_of_isPowerOfTwo accepted.power) accepted.copies_pos
    rw [Segment.stop_ofBytes, h_header]
    omega
  · obtain ⟨i, ⟨-, h_lt⟩, rfl⟩ := LayoutSettings.mem_copySegments.mp h_mem
    have h_mul : s.alignment * (i + 1) ≤ s.alignment * s.copies := Nat.mul_le_mul_left _ (by omega)
    rw [Nat.mul_succ] at h_mul
    rw [Segment.stop_ofBytes]
    omega

namespace Packed

variable {s : LayoutSettings} {modules : List PlacedModule} {next : Nat}

theorem segments_apart
    (packed : Packed s.alignment s.firstOffset (modules.map (·.placement)) next)
    (sound : ∀ m ∈ modules, m.Sound s) : (modules.map (·.segment)).Pairwise Segment.Apart := by
  have h_packed := packed.pairwise
  rw [List.pairwise_map] at h_packed ⊢
  refine h_packed.imp_of_mem fun {m n} h_mem _ h_le => Segment.apart_of_le (.inl ?_)
  rw [ModulePlacement.stop, (sound m h_mem).size_eq] at h_le
  exact h_le

/-- Modules, a header and copies of a directory lie apart, whatever bytes they hold. -/
theorem imageSegments_apart
    (packed : Packed s.alignment s.firstOffset (modules.map (·.placement)) next)
    (sound : ∀ m ∈ modules, m.Sound s) (accepted : s.Accepted) {header directory : Bytes}
    (h_header : header.length = 40) (h_fits : directory.length < s.alignment) :
    (s.imageSegments modules header directory).Pairwise Segment.Apart := by
  have h_base := accepted.header_le_base
  -- from the front to the back: the header, the copies, the modules
  rw [LayoutSettings.imageSegments, List.pairwise_append, List.pairwise_cons]
  refine ⟨packed.segments_apart sound, ⟨?_, ?_⟩, ?_⟩
  · intro t h_mem
    obtain ⟨i, -, rfl⟩ := LayoutSettings.mem_copySegments.mp h_mem
    refine Segment.apart_of_le (.inl ?_)
    rw [Segment.stop_ofBytes, Segment.offset_ofBytes, h_header]
    omega
  · exact LayoutSettings.copySegments_apart (Nat.le_of_lt h_fits) _ _
  · intro t h_t u h_mem
    obtain ⟨m, h_module, rfl⟩ := List.mem_map.mp h_t
    have h_first : s.firstOffset ≤ m.placement.offset.toNat :=
      packed.start_le_offset _ (List.mem_map_of_mem h_module)
    have h_stop := stop_lt_firstOffset accepted h_header h_fits h_mem
    exact Segment.apart_of_le (.inr (Nat.le_trans (Nat.le_of_lt h_stop) h_first))

end Packed

theorem Allocated.rootSegments_apart {s : LayoutSettings} {b : RootBuilder}
    {modules : List PlacedModule} (h : Allocated s b modules) (accepted : s.Accepted)
    (h_fits : 12 * modules.length ≤ s.alignment) :
    (s.rootSegments modules).Pairwise Segment.Apart := by
  have packed := h.packed
  rw [h.placements_eq] at packed
  refine packed.imageSegments_apart h.sound accepted rfl ?_
  rw [LayoutSettings.length_directoryBytes]
  exact accepted.directory_lt h_fits

/-! ## What has been written -/

/-- What the writes of a builder have put on its medium, which was blank. -/
structure Written (b : RootBuilder) (segments : List Segment) : Prop where
  image_eq : b.medium.image = Image.empty.writeAll segments
  end_eq : b.imageEnd.toNat = Image.reach segments

theorem toNat_max_add (a offset size : UInt64) (h : offset.toNat + size.toNat < 2 ^ 64) :
    (max a (offset + size)).toNat = max a.toNat (offset.toNat + size.toNat) := by
  have sum : (offset + size).toNat = offset.toNat + size.toNat := by
    rw [UInt64.toNat_add, Nat.mod_eq_of_lt h]
  rw [UInt64.max_def]
  split
  next h_le =>
    rw [UInt64.le_iff_toNat_le, sum] at h_le
    rw [sum, Nat.max_eq_right h_le]
  next h_gt =>
    rw [UInt64.le_iff_toNat_le, sum] at h_gt
    rw [Nat.max_eq_left (Nat.le_of_not_le h_gt)]

namespace Written

variable {b after : RootBuilder} {segments : List Segment}

theorem snoc (h : Written b segments) {offset size : UInt64} {bytes : Bytes}
    (h_size : size.toNat = bytes.length) (h_stop : offset.toNat + bytes.length < 2 ^ 64)
    (h_image : after.medium.image = b.medium.image.write offset.toNat bytes)
    (h_end : after.imageEnd = max b.imageEnd (offset + size)) :
    Written after (segments ++ [.ofBytes offset.toNat bytes]) where
  image_eq := by
    rw [h_image, h.image_eq, Image.writeAll_append]
    rfl
  end_eq := by
    rw [h_end, toNat_max_add _ _ _ (by rwa [h_size]), h_size, h.end_eq, Image.reach_append]
    exact congrArg _ (Nat.max_zero _).symm

end Written

theorem written_addAll {medium : Medium} {s : LayoutSettings} {b : RootBuilder}
    (unlimited : medium.Unlimited) (blank : medium.image = .empty)
    (h_start : RootBuilder.start medium s = .ok b) (attempts : List Attempt) :
    Allocated s (b.addAll attempts) (b.accepted attempts) ∧
      Written (b.addAll attempts) ((b.accepted attempts).map (·.segment)) := by
  obtain ⟨accepted, h_b⟩ := RootBuilder.start_eq_ok h_start
  refine RootBuilder.addAll_induction
    (P := fun b modules => Allocated s b modules ∧ Written b (modules.map (·.segment)))
    (fun b modules a h => ⟨h.1.step accepted a, ?_⟩)
    ⟨.init unlimited h_start, by subst h_b; exact ⟨blank, rfl⟩⟩ attempts
  obtain ⟨h_allocated, h_written⟩ := h
  unfold RootBuilder.acceptedBy
  rcases b.attempt_unlimited h_allocated.unlimited a with
    ⟨e, h_attempt, -⟩ | ⟨p, h_attempt, fit⟩
  · rw [h_attempt]
    simpa using h_written
  · rw [h_attempt, List.map_append]
    have h_size : p.size.toUInt64.toNat = a.bytes.length := fit.size_eq
    have h_stop : p.offset.toNat + a.bytes.length < 2 ^ 64 :=
      Nat.lt_of_le_of_lt fit.stop_le (by decide)
    exact h_written.snoc h_size h_stop rfl rfl

/-! ## Writes that succeed -/

namespace RootBuilder

variable {s : LayoutSettings} {b after : RootBuilder}

theorem write_eq_ok {offset : UInt64} {bytes : Bytes}
    (h_stop : offset.toNat + bytes.length < 2 ^ 64) (h : b.write offset bytes = .ok after) :
    after.medium.image = b.medium.image.write offset.toNat bytes ∧
      after.imageEnd.toNat = max b.imageEnd.toNat (offset.toNat + bytes.length) ∧
      after.cursor = b.cursor := by
  unfold write at h
  split at h
  · cases h
  next medium h_medium =>
    cases h
    have h_size : (UInt64.ofNat bytes.length).toNat = bytes.length :=
      UInt64.toNat_ofNat_of_lt' (Nat.lt_of_le_of_lt (Nat.le_add_left _ _) h_stop)
    refine ⟨?_, ?_, rfl⟩
    · exact congrArg Medium.image (Medium.write_eq_ok h_medium)
    · rw [toNat_max_add _ _ _ (by rwa [h_size]), h_size]

theorem writeCopies_eq_ok {directory : Bytes} (h_fits : directory.length ≤ s.alignment) (n : Nat)
    {index : UInt32} (follows : b.cursor.Follows s) (h_le : index.toNat + n ≤ s.copies)
    (h : writeCopies directory b index n = (.ok (), after)) :
    after.medium.image = b.medium.image.writeAll (s.copySegments directory index.toNat n) ∧
      after.imageEnd.toNat =
        max b.imageEnd.toNat (Image.reach (s.copySegments directory index.toNat n)) := by
  -- on the number of copies that are left
  induction n generalizing b index with
  | zero =>
    cases h
    exact ⟨rfl, (Nat.max_zero _).symm⟩
  | succ n ih =>
    have h_offset : (b.cursor.copyOffset index).toNat = s.base + s.alignment * index.toNat :=
      follows.toNat_copyOffset (by omega)
    have h_end := s.copyEnd_lt (n := index.toNat + 1) (by omega)
    rw [Nat.mul_succ] at h_end
    rw [writeCopies] at h
    split at h
    · cases h
    next next h_write =>
      obtain ⟨h_image, h_next, h_cursor⟩ := write_eq_ok (by omega) h_write
      have h_index : (index + 1).toNat = index.toNat + 1 := s.toNat_index_succ (by omega)
      obtain ⟨h_images, h_ends⟩ := ih (by rwa [h_cursor]) (by omega) h
      rw [h_images, h_ends, h_image, h_next, h_index, h_offset, LayoutSettings.copySegments,
        LayoutSettings.copySegments, List.range'_succ, List.map_cons]
      exact ⟨rfl, Nat.max_assoc _ _ _⟩

theorem exists_write (unlimited : b.medium.Unlimited) (offset : UInt64) (bytes : Bytes) :
    ∃ after, b.write offset bytes = .ok after ∧ after.medium.Unlimited := by
  unfold write
  rw [Medium.write_of_unlimited unlimited]
  exact ⟨_, rfl, unlimited.next _⟩

theorem exists_writeCopies (unlimited : b.medium.Unlimited) (directory : Bytes) (index : UInt32)
    (n : Nat) :
    ∃ after, writeCopies directory b index n = (.ok (), after) ∧ after.medium.Unlimited := by
  induction n generalizing b index with
  | zero => exact ⟨b, rfl, unlimited⟩
  | succ n ih =>
    obtain ⟨next, h_write, unlimited⟩ :=
      exists_write unlimited (b.cursor.copyOffset index) directory
    rw [writeCopies, h_write]
    exact ih unlimited (index + 1)

/-! ## Finishing -/

/-- A finish that succeeds has found room for the directory and written everything. -/
theorem finish_writes {report : RootReport} {medium : Medium}
    (h : b.finish = (.ok report, medium)) :
    (report.header = b.header ∧ report.modules = b.placements) ∧
      b.directoryBytes.length ≤ b.cursor.alignment.toNat ∧
      ∃ headed done, b.write 0 b.header.encode = .ok headed ∧
        writeCopies b.directoryBytes headed 0 b.cursor.directoryCopies.toNat = (.ok (), done) ∧
        done.medium.flush = .ok medium ∧ done.imageEnd = report.imageSize := by
  -- of the ways through the function only the last one ends in a report
  unfold finish at h
  dsimp only at h
  split at h
  · cases h
  next h_fits =>
    split at h
    · cases h
    · split at h
      · cases h
      next headed h_write =>
        split at h
        · cases h
        next done h_copies =>
          split at h
          · cases h
          next flushed h_flush =>
            cases h
            exact ⟨⟨rfl, rfl⟩, Nat.le_of_not_lt h_fits, headed, done, h_write, h_copies, h_flush,
              rfl⟩

theorem finish_report {b : RootBuilder} {report : RootReport} (h : b.finish.1 = .ok report) :
    report.header = b.header ∧ report.modules = b.placements ∧
      b.directoryBytes.length ≤ b.cursor.alignment.toNat := by
  obtain ⟨⟨h_header, h_modules⟩, h_fits, -⟩ := finish_writes (Prod.ext h rfl)
  exact ⟨h_header, h_modules, h_fits⟩

/-- The header goes on top of what is there, and the copies on top of both. -/
theorem finish_segments (follows : b.cursor.Follows s) {report : RootReport} {medium : Medium}
    (h : b.finish = (.ok report, medium)) :
    let front := .ofBytes 0 b.header.encode :: s.copySegments b.directoryBytes 0 s.copies
    medium.image = b.medium.image.writeAll front ∧
      report.imageSize.toNat = max b.imageEnd.toNat (Image.reach front) := by
  obtain ⟨-, h_fits, headed, done, h_header, h_copies, h_flush, h_end⟩ := finish_writes h
  rw [follows.alignment_eq] at h_fits
  rw [follows.copies_eq] at h_copies
  have h_width : (0 : UInt64).toNat + b.header.encode.length < 2 ^ 64 :=
    show 0 + 40 < 2 ^ 64 by decide
  obtain ⟨h_image, h_reach, h_cursor⟩ := write_eq_ok h_width h_header
  obtain ⟨h_images, h_reaches⟩ := writeCopies_eq_ok h_fits s.copies (by rwa [h_cursor])
    (Nat.le_of_eq (Nat.zero_add _)) h_copies
  rw [Medium.flush_eq_ok h_flush, Medium.image_next, h_images, ← h_end, h_reaches, h_image, h_reach]
  exact ⟨rfl, Nat.max_assoc _ _ _⟩

theorem exists_finish (unlimited : b.medium.Unlimited)
    (h_fits : b.directoryBytes.length ≤ b.cursor.alignment.toNat)
    (h_base : b.cursor.directoryBase.toNat < 1 <<< 32) :
    ∃ report medium, b.finish = (.ok report, medium) := by
  obtain ⟨headed, h_write, unlimited⟩ := exists_write unlimited 0 b.header.encode
  obtain ⟨done, h_copies, unlimited⟩ :=
    exists_writeCopies unlimited b.directoryBytes 0 b.cursor.directoryCopies.toNat
  unfold finish
  dsimp only
  rw [if_neg (Nat.not_lt.mpr h_fits), if_neg (Nat.not_le.mpr h_base), h_write]
  dsimp only
  rw [h_copies]
  dsimp only
  rw [Medium.flush_of_unlimited unlimited]
  exact ⟨_, _, rfl⟩

end RootBuilder

namespace Allocated

variable {s : LayoutSettings} {b : RootBuilder} {modules : List PlacedModule}

theorem directoryBytes_eq (h : Allocated s b modules) :
    b.directoryBytes = s.directoryBytes modules := by
  have h_entries : b.directory.entries = modules.map fun m => m.placement.entry := by
    rw [h.entries_eq, h.placements_eq, List.map_map]
    rfl
  have distinct : ((b.directory.pin s.bootIdentifier).entries.map (·.identifier)).Nodup := by
    show (b.directory.entries.map (·.identifier)).Nodup
    rw [h.entries_eq, List.map_map]
    exact h.distinct
  have h_ordered : (b.directory.pin s.bootIdentifier).ordered = s.directory modules := by
    rw [DirectoryTable.ordered_eq_pinnedFirst distinct, LayoutSettings.directory]
    show pinnedFirst _ s.bootIdentifier b.directory.entries = _
    rw [h_entries, ← map_pinnedFirst]
    apply List.map_congr_left
    intro m h_mem
    exact (h.sound m (mem_pinnedFirst.mp h_mem)).entry_eq
  rw [RootBuilder.directoryBytes, h.settings_eq, DirectoryTable.encode, h_ordered]
  rfl

theorem header_eq (h : Allocated s b modules) : b.header = s.rootHeader modules.length := by
  rw [RootBuilder.header, h.directoryBytes_eq, LayoutSettings.length_directoryBytes,
    h.settings_eq, h.follows.copies_eq, h.follows.base_eq, UInt32.toUInt32_toUInt64]
  rfl

theorem finish_overflow (h : Allocated s b modules) (h_long : s.alignment < 12 * modules.length) :
    b.finish.1 = .error (.directoryTooLarge (12 * modules.length) s.eraseBlockAlignment) := by
  unfold RootBuilder.finish
  dsimp only
  rw [h.directoryBytes_eq, LayoutSettings.length_directoryBytes, h.follows.alignment_eq,
    if_pos h_long, h.settings_eq]

end Allocated

/-- A finished build: its report, and the image that it leaves. -/
structure Built (s : LayoutSettings) (modules : List PlacedModule) (report : RootReport)
    (image : Image) : Prop where
  accepted : s.Accepted
  sound : ∀ m ∈ modules, m.Sound s
  fits : 12 * modules.length ≤ s.alignment
  header_eq : report.header = s.rootHeader modules.length
  modules_eq : report.modules = modules.map (·.placement)
  imageSize_eq : report.imageSize.toNat = Image.reach (s.rootSegments modules)
  consists : image.Consists (s.rootSegments modules)

theorem Allocated.built {s : LayoutSettings} {b : RootBuilder} {modules : List PlacedModule}
    (h : Allocated s b modules) (accepted : s.Accepted)
    (written : Written b (modules.map (·.segment))) {report : RootReport} {after : Medium}
    (finished : b.finish = (.ok report, after)) : Built s modules report after.image := by
  obtain ⟨h_header, h_modules, h_fits⟩ :=
    RootBuilder.finish_report (congrArg Prod.fst finished)
  obtain ⟨h_image, h_size⟩ := RootBuilder.finish_segments h.follows finished
  rw [h.directoryBytes_eq, h.header_eq] at h_image h_size
  rw [h.directoryBytes_eq, LayoutSettings.length_directoryBytes, h.follows.alignment_eq] at h_fits
  exact {
    accepted
    sound := h.sound
    fits := h_fits
    header_eq := h_header.trans h.header_eq
    modules_eq := h_modules.trans h.placements_eq
    imageSize_eq := by
      rw [h_size, written.end_eq, LayoutSettings.rootSegments, LayoutSettings.imageSegments,
        Image.reach_append]
    consists := by
      rw [h_image, written.image_eq, ← Image.writeAll_append]
      exact Image.consists_writeAll (h.rootSegments_apart accepted h_fits) }

section Builds

variable {medium : Medium} {s : LayoutSettings} {b : RootBuilder}

theorem built_of_finish (unlimited : medium.Unlimited) (blank : medium.image = .empty)
    (h_start : RootBuilder.start medium s = .ok b) (attempts : List Attempt)
    {report : RootReport} {after : Medium}
    (h_finish : (b.addAll attempts).finish = (.ok report, after)) :
    Built s (b.accepted attempts) report after.image := by
  obtain ⟨h, written⟩ := written_addAll unlimited blank h_start attempts
  exact h.built (RootBuilder.start_eq_ok h_start).1 written h_finish

theorem finish_eq_ok (unlimited : medium.Unlimited) (blank : medium.image = .empty)
    (h_start : RootBuilder.start medium s = .ok b) (attempts : List Attempt)
    (h_fits : 12 * (b.accepted attempts).length ≤ s.alignment) :
    ∃ report after, (b.addAll attempts).finish = (.ok report, after) ∧
      Built s (b.accepted attempts) report after.image := by
  have h := allocated_addAll unlimited h_start attempts
  have h_room : (b.addAll attempts).directoryBytes.length ≤
      (b.addAll attempts).cursor.alignment.toNat := by
    rwa [h.directoryBytes_eq, LayoutSettings.length_directoryBytes, h.follows.alignment_eq]
  have h_base : (b.addAll attempts).cursor.directoryBase.toNat < 1 <<< 32 := by
    rw [h.follows.toNat_base]
    exact s.base_lt
  obtain ⟨report, after, h_finish⟩ := RootBuilder.exists_finish h.unlimited h_room h_base
  exact ⟨report, after, h_finish, built_of_finish unlimited blank h_start attempts h_finish⟩

end Builds

end FlashImage
