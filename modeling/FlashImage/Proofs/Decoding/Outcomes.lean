import FlashImage.Proofs.Decoding.Fields
import FlashImage.Proofs.Decoding.Prefixes
import FlashImage.Proofs.Exact

/-!
# What becomes of any file

A file is any byte string, and its offsets and sizes may be whatever they like.
The relations below say what decoding makes of it: one rule for each way in which
it ends, in the order in which the checks are made, each about fields that lie
inside the file.

* `inspect_outcome`: decoding ends as the rules say, for every file of either kind.
-/

namespace FlashImage.Inspect

/-! ## Entries -/

/-- An entry and its report: the range that it points to lies inside the file. -/
def Reported (digest : Bytes → String) (d : Bytes) (base : Nat) (kind : UInt32 → Option String)
    (e : DirectoryEntry) (x : InspectedEntry) : Prop :=
  ∃ payload, range? d (base + e.offset.toNat) e.size.toNat = some payload ∧
    x = { identifier := e.identifier, kind := kind e.identifier, offset := e.offset,
          absoluteOffset := base + e.offset.toNat, size := e.size,
          sha256 := digest payload }

/-- All entries are reported, or the first one that points outside the file is blamed. -/
inductive Digested (digest : Bytes → String) (d : Bytes) (base : Nat)
    (kind : UInt32 → Option String) (directory : List DirectoryEntry) :
    Except InspectError (List InspectedEntry) → Prop where
  | all {entries : List InspectedEntry}
      (h : List.Forall₂ (Reported digest d base kind) directory entries) :
      Digested digest d base kind directory (.ok entries)
  | outside {before after : List DirectoryEntry} {e : DirectoryEntry}
      (h_split : directory = before ++ e :: after)
      (h_before : ∀ x ∈ before, base + x.offset.toNat + x.size.toNat ≤ d.length)
      (h : d.length < base + e.offset.toNat + e.size.toNat) :
      Digested digest d base kind directory
        (.error (.entryOutOfBounds e.identifier (base + e.offset.toNat) e.size d.length))

/-! ## Root images -/

/-- A file begins with a header that is fit to lead to a directory. -/
structure Headed (d : Bytes) (header : RootHeader) : Prop where
  header_eq : RootHeader.at? d 0 = some header
  signature_eq : header.signature = RootHeader.magic
  entrySize_eq : header.directoryEntrySize = 12

inductive RootOutcome (digest : Bytes → String) (d : Bytes) :
    Except InspectError RootInspection → Prop where
  | noHeader (h : d.length < 40) : RootOutcome digest d (.error (.truncated 0 40 d.length))
  | badSignature {header : RootHeader} (h_header : RootHeader.at? d 0 = some header)
      (h : header.signature ≠ RootHeader.magic) :
      RootOutcome digest d (.error (.badSignature header.signature))
  | badEntrySize {header : RootHeader} (h_header : RootHeader.at? d 0 = some header)
      (h_signature : header.signature = RootHeader.magic) (h : header.directoryEntrySize ≠ 12) :
      RootOutcome digest d
        (.error (.raggedDirectory header.sizeOfDirectory header.directoryEntrySize))
  | ragged {header : RootHeader} (headed : Headed d header)
      (h : ¬ 12 ∣ header.sizeOfDirectory.toNat) :
      RootOutcome digest d (.error (.raggedDirectory header.sizeOfDirectory 12))
  | noDirectory {header : RootHeader} (headed : Headed d header)
      (h_whole : 12 ∣ header.sizeOfDirectory.toNat)
      (h : d.length < header.startOfDirectory.toNat + header.sizeOfDirectory.toNat) :
      RootOutcome digest d (.error (.truncated header.startOfDirectory.toNat
        header.sizeOfDirectory.toNat d.length))
  | digested {header : RootHeader} {directory : List DirectoryEntry}
      {result : Except InspectError (List InspectedEntry)} (headed : Headed d header)
      (h_inside : header.startOfDirectory.toNat + header.sizeOfDirectory.toNat ≤ d.length)
      (listed : DirectoryEntry.Listed d header.startOfDirectory.toNat header.sizeOfDirectory.toNat
        directory)
      (h : Digested digest d header.startOfDirectory.toNat moduleKind directory result) :
      RootOutcome digest d (result.map fun entries => { header, entries })

/-! ## Camera configurations -/

inductive CameraOutcome (digest : Bytes → String) (d : Bytes) :
    Except InspectError CameraInspection → Prop where
  | noEntry (h : d.length < 12) : CameraOutcome digest d (.error (.truncated 0 12 d.length))
  | ragged {first : DirectoryEntry} (h_first : DirectoryEntry.at? d 0 = some first)
      (h : ¬ 12 ∣ first.offset.toNat) :
      CameraOutcome digest d (.error (.raggedDirectory first.offset 12))
  | noDirectory {first : DirectoryEntry} (h_first : DirectoryEntry.at? d 0 = some first)
      (h_whole : 12 ∣ first.offset.toNat) (h : d.length < first.offset.toNat) :
      CameraOutcome digest d (.error (.truncated 0 first.offset.toNat d.length))
  | noInfo {first : DirectoryEntry} (h_first : DirectoryEntry.at? d 0 = some first)
      (h_whole : 12 ∣ first.offset.toNat) (h_inside : first.offset.toNat ≤ d.length)
      (h : d.length < first.offset.toNat + 60) :
      CameraOutcome digest d (.error (.truncated first.offset.toNat 60 d.length))
  | digested {first : DirectoryEntry} {info : CameraInfo} {directory : List DirectoryEntry}
      {result : Except InspectError (List InspectedEntry)}
      (h_first : DirectoryEntry.at? d 0 = some first)
      (listed : DirectoryEntry.Listed d 0 first.offset.toNat directory)
      (h_info : CameraInfo.at? d first.offset.toNat = some info)
      (h : Digested digest d 0 Command.name? directory result) :
      CameraOutcome digest d (result.map fun entries => { info, entries })

/-- A file that begins with the magic word is decoded as a root image, and any other
as a camera configuration. -/
inductive Outcome (digest : Bytes → String) (d : Bytes) :
    Except InspectError Inspection → Prop where
  | root {result : Except InspectError RootInspection} (h : Word.encode RootHeader.magic <+: d)
      (outcome : RootOutcome digest d result) : Outcome digest d (result.map .root)
  | camera {result : Except InspectError CameraInspection}
      (h : ¬ Word.encode RootHeader.magic <+: d)
      (outcome : CameraOutcome digest d result) : Outcome digest d (result.map .camera)

/-! ## Readers -/

section Readers

variable {img : Image} {offset : Nat}

theorem read?_eq_range? (img : Image) (offset n : Nat) :
    img.read? offset n = range? img.toBytes offset n := by
  refine Option.ext fun bytes => ?_
  rw [Image.read?_eq_some_iff, range?_eq_some_iff, Image.length_toBytes, eq_comm (a := bytes)]

theorem slice_of_outside {n : Nat} (h : img.toBytes.length < offset + n) :
    slice img offset n = .error (.truncated offset n img.toBytes.length) := by
  rw [slice, read?_eq_range?, range?_eq_none_iff.mpr h, Image.length_toBytes]

theorem record_of_outside {α : Type} {decode? : Bytes → Option α} {width : Nat}
    (h : img.toBytes.length < offset + width) :
    record decode? img offset width = .error (.truncated offset width img.toBytes.length) := by
  rw [record, slice_of_outside h]
  rfl

/-- A record is decoded if its fields are there. -/
theorem record_eq_ok_iff_at {α : Type} {decode? : Bytes → Option α} {at? : Bytes → Nat → Option α}
    {width : Nat} {r : α} (h_slice : ∀ d o, decode? ((d.drop o).take width) = at? d o)
    (h_inside : ∀ {d o}, at? d o = some r → o + width ≤ d.length) :
    record decode? img offset width = .ok r ↔ at? img.toBytes offset = some r := by
  rw [record_eq_ok_iff, ← h_slice]
  constructor
  · rintro ⟨bytes, h_read, h_decode⟩
    obtain ⟨-, rfl⟩ := Image.read?_eq_some_iff.mp h_read
    exact h_decode
  · intro h_decode
    have h_le := h_inside ((h_slice _ _).symm.trans h_decode)
    rw [Image.length_toBytes] at h_le
    exact ⟨_, Image.read?_eq_some_iff.mpr ⟨h_le, rfl⟩, h_decode⟩

theorem record_header_iff {header : RootHeader} :
    record RootHeader.decode? img 0 RootHeader.width = .ok header ↔
      RootHeader.at? img.toBytes 0 = some header :=
  record_eq_ok_iff_at (RootHeader.decode?_slice (Nat.le_refl _)) RootHeader.le_length_of_at?

theorem record_first_iff {first : DirectoryEntry} :
    record DirectoryEntry.decode? img 0 DirectoryEntry.width = .ok first ↔
      DirectoryEntry.at? img.toBytes 0 = some first :=
  record_eq_ok_iff_at (DirectoryEntry.decode?_slice (Nat.le_refl _)) DirectoryEntry.le_length_of_at?

theorem record_info_iff {info : CameraInfo} :
    record CameraInfo.decode? img offset CameraInfo.width = .ok info ↔
      CameraInfo.at? img.toBytes offset = some info :=
  record_eq_ok_iff_at (CameraInfo.decode?_slice (Nat.le_refl _)) CameraInfo.le_length_of_at?

theorem readDirectory_of_ragged {size : UInt32} (h : ¬ 12 ∣ size.toNat) :
    readDirectory img offset size = .error (.raggedDirectory size 12) := by
  rw [readDirectory, DirectoryEntry.width, if_pos (mt Nat.dvd_of_mod_eq_zero h)]
  rfl

theorem readDirectory_of_outside {size : UInt32} (h_whole : 12 ∣ size.toNat)
    (h : img.toBytes.length < offset + size.toNat) :
    readDirectory img offset size =
      .error (.truncated offset size.toNat img.toBytes.length) := by
  rw [readDirectory, DirectoryEntry.width, if_neg (not_not.mpr (Nat.mod_eq_zero_of_dvd h_whole)),
    slice_of_outside h]
  rfl

theorem readDirectory_eq_ok_iff_listed {size : UInt32} {directory : List DirectoryEntry} :
    readDirectory img offset size = .ok directory ↔
      offset + size.toNat ≤ img.toBytes.length ∧
        DirectoryEntry.Listed img.toBytes offset size.toNat directory := by
  simp only [readDirectory_eq_ok_iff, read?_eq_range?, range?_eq_some_iff]
  constructor
  · rintro ⟨h_whole, bytes, ⟨h_inside, rfl⟩, h_decode⟩
    exact ⟨h_inside, (DirectoryEntry.decodeMany_eq_iff (Nat.dvd_of_mod_eq_zero h_whole) h_inside).mp
      h_decode⟩
  · rintro ⟨h_inside, listed⟩
    have h_whole : 12 ∣ size.toNat := ⟨_, listed.length_eq.symm⟩
    exact ⟨Nat.mod_eq_zero_of_dvd h_whole, _, ⟨h_inside, rfl⟩,
      (DirectoryEntry.decodeMany_eq_iff h_whole h_inside).mpr listed⟩

end Readers

/-! ## Digests -/

section Digests

variable {digest : Bytes → String} {img : Image} {base : Nat} {kind : UInt32 → Option String}

theorem digestEntry_eq_ok_iff_reported {e : DirectoryEntry} {x : InspectedEntry} :
    digestEntry digest img base kind e = .ok x ↔ Reported digest img.toBytes base kind e x := by
  simp only [digestEntry_eq_ok_iff, read?_eq_range?, Reported]

theorem exists_digestEntry_iff {e : DirectoryEntry} :
    (∃ x, digestEntry digest img base kind e = .ok x) ↔
      base + e.offset.toNat + e.size.toNat ≤ img.toBytes.length := by
  simp [digestEntry_eq_ok_iff_reported, Reported, range?_eq_some_iff]

theorem digestEntry_eq_error_iff {e : DirectoryEntry} {err : InspectError} :
    digestEntry digest img base kind e = .error err ↔
      img.toBytes.length < base + e.offset.toNat + e.size.toNat ∧
        err = .entryOutOfBounds e.identifier (base + e.offset.toNat) e.size img.toBytes.length := by
  unfold digestEntry
  dsimp only
  rw [read?_eq_range?, ← range?_eq_none_iff, ← Image.length_toBytes]
  cases range? img.toBytes (base + e.offset.toNat) e.size.toNat <;> simp [eq_comm]

theorem mapM_digestEntry_eq_iff {directory : List DirectoryEntry}
    {result : Except InspectError (List InspectedEntry)} :
    directory.mapM (digestEntry digest img base kind) = result ↔
      Digested digest img.toBytes base kind directory result := by
  cases result with
  | ok entries =>
    rw [mapM_eq_ok_iff_forall₂]
    simp only [digestEntry_eq_ok_iff_reported]
    exact ⟨.all, fun h => by cases h; assumption⟩
  | error err =>
    simp only [mapM_eq_error_iff, exists_digestEntry_iff, digestEntry_eq_error_iff]
    constructor
    · rintro ⟨before, e, after, h_split, h_before, h, rfl⟩
      exact .outside h_split h_before h
    · rintro (_ | ⟨h_split, h_before, h⟩)
      exact ⟨_, _, _, h_split, h_before, h, rfl⟩

end Digests

/-! ## One outcome for every file -/

section Outcomes

variable {digest : Bytes → String} {img : Image}

/-- Behind a fit header come the directory and its entries. -/
theorem Headed.inspectRoot_eq {header : RootHeader} (headed : Headed img.toBytes header) :
    inspectRoot digest img =
      readDirectory img header.startOfDirectory.toNat header.sizeOfDirectory >>= fun directory =>
        (directory.mapM (digestEntry digest img header.startOfDirectory.toNat moduleKind)).map
          fun entries => { header, entries } := by
  have h_size : header.directoryEntrySize.toNat = DirectoryEntry.width := by
    rw [headed.entrySize_eq]
    rfl
  rw [inspectRoot, record_header_iff.mpr headed.header_eq]
  exact (if_neg (not_not.mpr headed.signature_eq)).trans (if_neg (not_not.mpr h_size))

theorem RootOutcome.inspectRoot_eq {result : Except InspectError RootInspection}
    (h : RootOutcome digest img.toBytes result) : inspectRoot digest img = result := by
  cases h with
  | noHeader h =>
    rw [inspectRoot, RootHeader.width, record_of_outside (by omega)]
    rfl
  | badSignature h_header h =>
    rw [inspectRoot, record_header_iff.mpr h_header]
    exact if_pos h
  | badEntrySize h_header h_signature h =>
    rw [inspectRoot, record_header_iff.mpr h_header]
    exact (if_neg (not_not.mpr h_signature)).trans (if_pos (mt UInt32.toNat.inj h))
  | ragged headed h =>
    rw [headed.inspectRoot_eq, readDirectory_of_ragged h]
    rfl
  | noDirectory headed h_whole h =>
    rw [headed.inspectRoot_eq, readDirectory_of_outside h_whole h]
    rfl
  | digested headed h_inside listed h =>
    rw [headed.inspectRoot_eq, readDirectory_eq_ok_iff_listed.mpr ⟨h_inside, listed⟩,
      ← mapM_digestEntry_eq_iff.mpr h]
    rfl

theorem exists_rootOutcome (digest : Bytes → String) (img : Image) :
    ∃ result, RootOutcome digest img.toBytes result := by
  rcases Nat.lt_or_ge img.toBytes.length (0 + 40) with h_short | h_long
  · exact ⟨_, .noHeader h_short⟩
  obtain ⟨header, h_header⟩ := RootHeader.exists_at? h_long
  by_cases h_signature : header.signature = RootHeader.magic
  swap
  · exact ⟨_, .badSignature h_header h_signature⟩
  by_cases h_size : header.directoryEntrySize = 12
  swap
  · exact ⟨_, .badEntrySize h_header h_signature h_size⟩
  have headed : Headed img.toBytes header := ⟨h_header, h_signature, h_size⟩
  by_cases h_whole : 12 ∣ header.sizeOfDirectory.toNat
  swap
  · exact ⟨_, .ragged headed h_whole⟩
  rcases Nat.lt_or_ge img.toBytes.length
    (header.startOfDirectory.toNat + header.sizeOfDirectory.toNat) with h_outside | h_inside
  · exact ⟨_, .noDirectory headed h_whole h_outside⟩
  · exact ⟨_, .digested headed h_inside
      ((DirectoryEntry.decodeMany_eq_iff h_whole h_inside).mp rfl) (mapM_digestEntry_eq_iff.mp rfl)⟩

theorem inspectRoot_eq_iff {result : Except InspectError RootInspection} :
    inspectRoot digest img = result ↔ RootOutcome digest img.toBytes result := by
  refine ⟨fun h_result => ?_, RootOutcome.inspectRoot_eq⟩
  obtain ⟨found, outcome⟩ := exists_rootOutcome digest img
  rwa [← h_result, outcome.inspectRoot_eq]

/-- Behind the first entry come the directory, the record behind it and its entries. -/
theorem inspectCamera_of_first {first : DirectoryEntry}
    (h_first : DirectoryEntry.at? img.toBytes 0 = some first) :
    inspectCamera digest img =
      readDirectory img 0 first.offset >>= fun directory =>
        record CameraInfo.decode? img first.offset.toNat CameraInfo.width >>= fun info =>
          (directory.mapM (digestEntry digest img 0 Command.name?)).map
            fun entries => { info, entries } := by
  rw [inspectCamera, record_first_iff.mpr h_first]
  rfl

theorem CameraOutcome.inspectCamera_eq {result : Except InspectError CameraInspection}
    (h : CameraOutcome digest img.toBytes result) : inspectCamera digest img = result := by
  cases h with
  | noEntry h =>
    rw [inspectCamera, DirectoryEntry.width, record_of_outside (by omega)]
    rfl
  | ragged h_first h =>
    rw [inspectCamera_of_first h_first, readDirectory_of_ragged h]
    rfl
  | noDirectory h_first h_whole h =>
    rw [inspectCamera_of_first h_first, readDirectory_of_outside h_whole (by omega)]
    rfl
  | @noInfo first h_first h_whole h_inside h =>
    have h_range : 0 + first.offset.toNat ≤ img.toBytes.length := by omega
    have listed := (DirectoryEntry.decodeMany_eq_iff h_whole h_range).mp rfl
    rw [inspectCamera_of_first h_first,
      readDirectory_eq_ok_iff_listed.mpr ⟨h_range, listed⟩, CameraInfo.width, record_of_outside h]
    rfl
  | digested h_first listed h_info h =>
    have h_inside := CameraInfo.le_length_of_at? h_info
    rw [inspectCamera_of_first h_first, readDirectory_eq_ok_iff_listed.mpr ⟨by omega, listed⟩,
      record_info_iff.mpr h_info, ← mapM_digestEntry_eq_iff.mpr h]
    rfl

theorem exists_cameraOutcome (digest : Bytes → String) (img : Image) :
    ∃ result, CameraOutcome digest img.toBytes result := by
  rcases Nat.lt_or_ge img.toBytes.length (0 + 12) with h_short | h_long
  · exact ⟨_, .noEntry h_short⟩
  obtain ⟨first, h_first⟩ := DirectoryEntry.exists_at? h_long
  by_cases h_whole : 12 ∣ first.offset.toNat
  swap
  · exact ⟨_, .ragged h_first h_whole⟩
  rcases Nat.lt_or_ge img.toBytes.length (0 + first.offset.toNat) with h_outside | h_inside
  · exact ⟨_, .noDirectory h_first h_whole (by omega)⟩
  rcases Nat.lt_or_ge img.toBytes.length (first.offset.toNat + 60) with h_cut | h_room
  · exact ⟨_, .noInfo h_first h_whole (by omega) h_cut⟩
  · obtain ⟨info, h_info⟩ := CameraInfo.exists_at? h_room
    exact ⟨_, .digested h_first ((DirectoryEntry.decodeMany_eq_iff h_whole h_inside).mp rfl) h_info
      (mapM_digestEntry_eq_iff.mp rfl)⟩

theorem inspectCamera_eq_iff {result : Except InspectError CameraInspection} :
    inspectCamera digest img = result ↔ CameraOutcome digest img.toBytes result := by
  refine ⟨fun h_result => ?_, CameraOutcome.inspectCamera_eq⟩
  obtain ⟨found, outcome⟩ := exists_cameraOutcome digest img
  rwa [← h_result, outcome.inspectCamera_eq]

theorem isRoot_iff : isRoot img = true ↔ Word.encode RootHeader.magic <+: img.toBytes := by
  rw [isRoot, beq_iff_eq, read?_eq_range?, range?_eq_some_iff, List.prefix_iff_eq_take,
    List.drop_zero, Word.length_encode, eq_comm (b := Word.encode _)]
  refine and_iff_right_of_imp fun h_take => ?_
  have h_length := congrArg List.length h_take
  rw [Word.length_encode, List.length_take] at h_length
  rw [Word.width]
  omega

theorem inspect_eq_iff {result : Except InspectError Inspection} :
    inspect digest img = result ↔ Outcome digest img.toBytes result := by
  have h_map : ∀ {α β : Type} (f : α → β) (x : Except InspectError α), f <$> x = x.map f :=
    fun _ _ => rfl
  rw [inspect, h_map, h_map]
  split
  next h_root =>
    constructor
    · rintro rfl
      exact .root (isRoot_iff.mp h_root) (inspectRoot_eq_iff.mp rfl)
    · rintro (⟨-, outcome⟩ | ⟨h_other, -⟩)
      · rw [inspectRoot_eq_iff.mpr outcome]
      · exact absurd (isRoot_iff.mp h_root) h_other
  next h_camera =>
    constructor
    · rintro rfl
      exact .camera (mt isRoot_iff.mpr h_camera) (inspectCamera_eq_iff.mp rfl)
    · rintro (⟨h_other, -⟩ | ⟨-, outcome⟩)
      · exact absurd (isRoot_iff.mpr h_other) h_camera
      · rw [inspectCamera_eq_iff.mpr outcome]

theorem length_entries_of_inspectRoot {r : RootInspection} (h : inspectRoot digest img = .ok r) :
    12 * r.entries.length = r.header.sizeOfDirectory.toNat := by
  obtain ⟨-, -, -, directory, h_directory, h_entries⟩ := inspectRoot_eq_ok_iff_reads.mp h
  rw [← h_entries.length_eq, (readDirectory_eq_ok_iff_listed.mp h_directory).2.length_eq]

theorem length_entries_of_inspectCamera {i : CameraInspection}
    (h : inspectCamera digest img = .ok i) :
    ∃ first, DirectoryEntry.at? img.toBytes 0 = some first ∧
      12 * i.entries.length = first.offset.toNat := by
  obtain ⟨first, directory, h_first, h_directory, -, h_entries⟩ :=
    inspectCamera_eq_ok_iff_reads.mp h
  refine ⟨first, record_first_iff.mp h_first, ?_⟩
  rw [← h_entries.length_eq, (readDirectory_eq_ok_iff_listed.mp h_directory).2.length_eq]

end Outcomes

/-! ## Sums of words -/

namespace Exact

open FlashImage.Exact (add add_eq)

variable {digest : Bytes → String} {img : Image}

/-- A range that must lie inside the file, with an exact sum for its end. -/
def slice (img : Image) (offset size : UInt64) : Option (Except InspectError Bytes) := do
  let stop ← add offset size
  if stop.toNat ≤ img.size then some (.ok (img.read offset.toNat size.toNat))
  else some (.error (.truncated offset.toNat size.toNat img.size))

/-- Decodes one entry with exact sums. -/
def digestEntry (digest : Bytes → String) (img : Image) (base : UInt64)
    (kind : UInt32 → Option String) (e : DirectoryEntry) :
    Option (Except InspectError InspectedEntry) := do
  let start ← add base e.offset.toUInt64
  match ← slice img start e.size.toUInt64 with
  | .ok payload =>
      some (.ok
        { identifier := e.identifier, kind := kind e.identifier, offset := e.offset,
          absoluteOffset := start.toNat, size := e.size, sha256 := digest payload })
  | .error _ => some (.error (.entryOutOfBounds e.identifier start.toNat e.size img.size))

theorem slice_eq {offset size : UInt64} (h : offset.toNat + size.toNat < 2 ^ 64) :
    slice img offset size = some (Inspect.slice img offset.toNat size.toNat) := by
  have h_stop : (offset + size).toNat = offset.toNat + size.toNat := by
    rw [UInt64.toNat_add, Nat.mod_eq_of_lt h]
  rw [slice, add_eq h, Option.bind_eq_bind, Option.bind_some, h_stop, Inspect.slice, Image.read?]
  split <;> rfl

theorem digestEntry_eq {kind : UInt32 → Option String} (base : UInt32) (e : DirectoryEntry) :
    digestEntry digest img base.toUInt64 kind e =
      some (Inspect.digestEntry digest img base.toNat kind e) := by
  have h_base := base.toNat_lt
  have h_offset := e.offset.toNat_lt
  have h_size := e.size.toNat_lt
  have h_start : (base.toUInt64 + e.offset.toUInt64).toNat = base.toNat + e.offset.toNat := by
    simp only [UInt64.toNat_add, UInt32.toNat_toUInt64]
    omega
  have h_slice := @slice_eq img (base.toUInt64 + e.offset.toUInt64) e.size.toUInt64
    (by rw [h_start, UInt32.toNat_toUInt64]; omega)
  rw [digestEntry, add_eq (by simp only [UInt32.toNat_toUInt64]; omega), Option.bind_eq_bind,
    Option.bind_some, h_slice, Option.bind_eq_bind, Option.bind_some, h_start,
    UInt32.toNat_toUInt64, Inspect.digestEntry, Inspect.slice]
  cases img.read? (base.toNat + e.offset.toNat) e.size.toNat <;> rfl

end Exact

/-- Whatever bytes a file holds, decoding it ends in the one way that the rules give,
with an entry for every twelve bytes of the directory.  An empty range lies inside up
to the end of the file, and no sum that decoding works out is too large for 64 bits. -/
theorem inspect_outcome (digest : Bytes → String) (img : Image) :
    (∀ result, inspect digest img = result ↔ Outcome digest img.toBytes result) ∧
    (∀ result, inspectRoot digest img = result ↔ RootOutcome digest img.toBytes result) ∧
    (∀ result, inspectCamera digest img = result ↔ CameraOutcome digest img.toBytes result) ∧
    (∀ r, inspectRoot digest img = .ok r → 12 * r.entries.length = r.header.sizeOfDirectory.toNat) ∧
    (∀ i, inspectCamera digest img = .ok i →
      ∃ first, DirectoryEntry.at? img.toBytes 0 = some first ∧
        12 * i.entries.length = first.offset.toNat) ∧
    (∀ o, range? img.toBytes o 0 = some [] ↔ o ≤ img.toBytes.length) ∧
    (∀ offset size : UInt32, Exact.slice img offset.toUInt64 size.toUInt64 =
      some (slice img offset.toNat size.toNat)) ∧
    ∀ (kind : UInt32 → Option String) (base : UInt32) (e : DirectoryEntry),
      Exact.digestEntry digest img base.toUInt64 kind e =
        some (digestEntry digest img base.toNat kind e) := by
  refine ⟨fun _ => inspect_eq_iff, fun _ => inspectRoot_eq_iff, fun _ => inspectCamera_eq_iff,
    fun _ => length_entries_of_inspectRoot, fun _ => length_entries_of_inspectCamera,
    fun o => by simp [range?_eq_some_iff], fun offset size => Exact.slice_eq ?_,
    fun _ => Exact.digestEntry_eq⟩
  have h_offset := offset.toNat_lt
  have h_size := size.toNat_lt
  simp only [UInt32.toNat_toUInt64]
  omega

end FlashImage.Inspect
