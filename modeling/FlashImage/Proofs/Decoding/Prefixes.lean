import FlashImage.Proofs.Codec
import FlashImage.Proofs.Except
import FlashImage.Proofs.Image.Prefixes
import FlashImage.Inspect

/-!
# Decoding a file that may be cut short

A decoder looks at ranges of a file, and each of them has to lie inside.  So what
it makes of a file it also makes of every longer one that begins with it, and no
entry that it reports ends past the end of the file.

* `Inspect.inspectRoot_within`, `Inspect.inspectCamera_within`: entries end inside
  the file.
-/

namespace FlashImage.Inspect

variable {digest : Bytes → String} {cut img : Image} {offset : Nat}

/-! ## Readers that succeed -/

theorem slice_eq_ok_iff {n : Nat} {bytes : Bytes} :
    slice img offset n = .ok bytes ↔ img.read? offset n = some bytes := by
  unfold slice
  cases img.read? offset n <;> simp

theorem record_eq_ok_iff {α : Type} {decode? : Bytes → Option α} {width : Nat} {r : α} :
    record decode? img offset width = .ok r ↔
      ∃ bytes, img.read? offset width = some bytes ∧ decode? bytes = some r := by
  rw [record, bind_eq_ok]
  refine exists_congr fun bytes => ?_
  rw [slice_eq_ok_iff]
  refine and_congr_right fun _ => ?_
  cases decode? bytes <;> simp

theorem readDirectory_eq_ok_iff {size : UInt32} {directory : List DirectoryEntry} :
    readDirectory img offset size = .ok directory ↔
      size.toNat % 12 = 0 ∧ ∃ bytes, img.read? offset size.toNat = some bytes ∧
        DirectoryEntry.decodeMany (size.toNat / 12) bytes = directory := by
  unfold readDirectory DirectoryEntry.width
  split
  next h_ragged => exact iff_of_false (by simp) fun h => h_ragged h.1
  next h_whole =>
    simp only [bind_eq_ok, slice_eq_ok_iff, Except.ok.injEq]
    exact (and_iff_right (not_not.mp h_whole)).symm

theorem digestEntry_eq_ok_iff {base : Nat} {kind : UInt32 → Option String} {e : DirectoryEntry}
    {x : InspectedEntry} :
    digestEntry digest img base kind e = .ok x ↔
      ∃ payload, img.read? (base + e.offset.toNat) e.size.toNat = some payload ∧
        x = { identifier := e.identifier, kind := kind e.identifier, offset := e.offset,
              absoluteOffset := base + e.offset.toNat, size := e.size,
              sha256 := digest payload } := by
  unfold digestEntry
  dsimp only
  cases img.read? (base + e.offset.toNat) e.size.toNat <;> simp [eq_comm]

theorem inspectRoot_eq_ok_iff_reads {r : RootInspection} :
    inspectRoot digest img = .ok r ↔
      record RootHeader.decode? img 0 RootHeader.width = .ok r.header ∧
      r.header.signature = RootHeader.magic ∧
      r.header.directoryEntrySize.toNat = DirectoryEntry.width ∧
      ∃ directory,
        readDirectory img r.header.startOfDirectory.toNat r.header.sizeOfDirectory =
          .ok directory ∧
        List.Forall₂ (fun e x =>
          digestEntry digest img r.header.startOfDirectory.toNat moduleKind e = .ok x)
          directory r.entries := by
  obtain ⟨header, entries⟩ := r
  simp only [← mapM_eq_ok_iff_forall₂]
  unfold inspectRoot
  rw [bind_eq_ok]
  constructor
  · rintro ⟨found, h_record, h⟩
    split at h
    · cases h
    split at h
    · cases h
    rename_i h_signature h_width
    obtain ⟨directory, h_directory, h⟩ := bind_eq_ok.mp h
    obtain ⟨found_entries, h_entries, h⟩ := bind_eq_ok.mp h
    cases h
    exact ⟨h_record, not_not.mp h_signature, not_not.mp h_width, directory, h_directory, h_entries⟩
  · rintro ⟨h_record, h_signature, h_width, directory, h_directory, h_entries⟩
    refine ⟨header, h_record, ?_⟩
    rw [if_neg (not_not.mpr h_signature), if_neg (not_not.mpr h_width)]
    exact bind_eq_ok.mpr ⟨directory, h_directory, bind_eq_ok.mpr ⟨entries, h_entries, rfl⟩⟩

theorem inspectCamera_eq_ok_iff_reads {i : CameraInspection} :
    inspectCamera digest img = .ok i ↔
      ∃ first directory,
        record DirectoryEntry.decode? img 0 DirectoryEntry.width = .ok first ∧
        readDirectory img 0 first.offset = .ok directory ∧
        record CameraInfo.decode? img first.offset.toNat CameraInfo.width = .ok i.info ∧
        List.Forall₂ (fun e x => digestEntry digest img 0 Command.name? e = .ok x) directory
          i.entries := by
  obtain ⟨info, entries⟩ := i
  simp only [← mapM_eq_ok_iff_forall₂]
  unfold inspectCamera
  simp only [bind_eq_ok, Except.ok.injEq, CameraInspection.mk.injEq]
  constructor
  · rintro ⟨first, h_first, directory, h_directory, _, h_info, _, h_entries, rfl, rfl⟩
    exact ⟨first, directory, h_first, h_directory, h_info, h_entries⟩
  · rintro ⟨first, directory, h_first, h_directory, h_info, h_entries⟩
    exact ⟨first, h_first, directory, h_directory, _, h_info, _, h_entries, rfl, rfl⟩

theorem inspect_eq_root_iff {r : RootInspection} :
    inspect digest img = .ok (.root r) ↔ isRoot img = true ∧ inspectRoot digest img = .ok r := by
  unfold inspect
  split
  next h_root => simp [map_eq_ok, h_root]
  next h_root => simp [map_eq_ok, h_root]

theorem inspect_eq_camera_iff {i : CameraInspection} :
    inspect digest img = .ok (.camera i) ↔
      isRoot img = false ∧ inspectCamera digest img = .ok i := by
  unfold inspect
  split
  next h_root => simp [map_eq_ok, h_root]
  next h_root => simp [map_eq_ok, h_root]

/-! ## Longer files -/

section Longer

variable (h : cut.Begins img)
include h

theorem record_mono {α : Type} {decode? : Bytes → Option α} {width : Nat} {r : α}
    (h_record : record decode? cut offset width = .ok r) :
    record decode? img offset width = .ok r := by
  obtain ⟨bytes, h_read, h_decode⟩ := record_eq_ok_iff.mp h_record
  exact record_eq_ok_iff.mpr ⟨bytes, h.read? h_read, h_decode⟩

theorem readDirectory_mono {size : UInt32} {directory : List DirectoryEntry}
    (h_directory : readDirectory cut offset size = .ok directory) :
    readDirectory img offset size = .ok directory := by
  obtain ⟨h_whole, bytes, h_read, h_decode⟩ := readDirectory_eq_ok_iff.mp h_directory
  exact readDirectory_eq_ok_iff.mpr ⟨h_whole, bytes, h.read? h_read, h_decode⟩

theorem digestEntry_mono {base : Nat} {kind : UInt32 → Option String} {e : DirectoryEntry}
    {x : InspectedEntry} (h_digest : digestEntry digest cut base kind e = .ok x) :
    digestEntry digest img base kind e = .ok x := by
  obtain ⟨payload, h_read, h_entry⟩ := digestEntry_eq_ok_iff.mp h_digest
  exact digestEntry_eq_ok_iff.mpr ⟨payload, h.read? h_read, h_entry⟩

theorem inspectRoot_mono {r : RootInspection} (h_root : inspectRoot digest cut = .ok r) :
    inspectRoot digest img = .ok r := by
  obtain ⟨h_header, h_signature, h_width, directory, h_directory, h_entries⟩ :=
    inspectRoot_eq_ok_iff_reads.mp h_root
  exact inspectRoot_eq_ok_iff_reads.mpr ⟨record_mono h h_header, h_signature, h_width, directory,
    readDirectory_mono h h_directory, h_entries.imp fun _ _ => digestEntry_mono h⟩

theorem inspectCamera_mono {i : CameraInspection} (h_camera : inspectCamera digest cut = .ok i) :
    inspectCamera digest img = .ok i := by
  obtain ⟨first, directory, h_first, h_directory, h_info, h_entries⟩ :=
    inspectCamera_eq_ok_iff_reads.mp h_camera
  exact inspectCamera_eq_ok_iff_reads.mpr ⟨first, directory, record_mono h h_first,
    readDirectory_mono h h_directory, record_mono h h_info,
    h_entries.imp fun _ _ => digestEntry_mono h⟩

theorem isRoot_mono (h_root : isRoot cut = true) : isRoot img = true := by
  simp only [isRoot, beq_iff_eq] at h_root ⊢
  exact h.read? h_root

/-- A file that is long enough for a first entry is long enough to tell its kind. -/
theorem isRoot_eq_of_inspectCamera {i : CameraInspection}
    (h_camera : inspectCamera digest cut = .ok i) :
    isRoot img = isRoot cut := by
  obtain ⟨first, directory, h_first, -⟩ := inspectCamera_eq_ok_iff_reads.mp h_camera
  obtain ⟨bytes, h_read, -⟩ := record_eq_ok_iff.mp h_first
  have h_long := (Image.read?_eq_some_iff.mp h_read).1
  have h_short : 0 + Word.width ≤ cut.size := Nat.le_trans (by decide) h_long
  have h_word := Image.read?_eq_some cut h_short
  rw [isRoot, isRoot, h_word, h.read? h_word]

theorem inspect_mono {x : Inspection} (h_inspect : inspect digest cut = .ok x) :
    inspect digest img = .ok x := by
  cases x with
  | root r =>
    obtain ⟨h_kind, h_root⟩ := inspect_eq_root_iff.mp h_inspect
    exact inspect_eq_root_iff.mpr ⟨isRoot_mono h h_kind, inspectRoot_mono h h_root⟩
  | camera i =>
    obtain ⟨h_kind, h_camera⟩ := inspect_eq_camera_iff.mp h_inspect
    have h_same := isRoot_eq_of_inspectCamera h h_camera
    exact inspect_eq_camera_iff.mpr ⟨h_same.trans h_kind, inspectCamera_mono h h_camera⟩

end Longer

/-! ## Entries inside the file -/

theorem digestEntry_within {base : Nat} {kind : UInt32 → Option String} {e : DirectoryEntry}
    {x : InspectedEntry} (h : digestEntry digest img base kind e = .ok x) :
    x.absoluteOffset + x.size.toNat ≤ img.size := by
  obtain ⟨payload, h_read, rfl⟩ := digestEntry_eq_ok_iff.mp h
  exact (Image.read?_eq_some_iff.mp h_read).1

theorem inspectRoot_within {r : RootInspection} (h_root : inspectRoot digest img = .ok r) :
    ∀ x ∈ r.entries, x.absoluteOffset + x.size.toNat ≤ img.size := by
  obtain ⟨-, -, -, directory, -, h_entries⟩ := inspectRoot_eq_ok_iff_reads.mp h_root
  intro x h_mem
  obtain ⟨e, -, h_digest⟩ := exists_of_mem_forall₂ h_entries.flip h_mem
  exact digestEntry_within h_digest

theorem inspectCamera_within {i : CameraInspection} (h_camera : inspectCamera digest img = .ok i) :
    ∀ x ∈ i.entries, x.absoluteOffset + x.size.toNat ≤ img.size := by
  obtain ⟨first, directory, -, -, -, h_entries⟩ := inspectCamera_eq_ok_iff_reads.mp h_camera
  intro x h_mem
  obtain ⟨e, -, h_digest⟩ := exists_of_mem_forall₂ h_entries.flip h_mem
  exact digestEntry_within h_digest

end FlashImage.Inspect
