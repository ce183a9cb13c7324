import FlashImage.Digest.Sha256
import FlashImage.Proofs.Decoding.Outcomes

/-!
# The first entry of a camera configuration

A camera configuration has no magic word.  The offset of its first entry is taken for
the size of the directory and for the place of the basic information record, but neither
the identifier of this entry nor its size is looked at, and an offset of zero leaves a
directory without entries.

* `inspectCamera_first_entry`: what is reported, and when it is of this form;
* `inspectCamera_without_info`: files that are decoded although they are not.
-/

namespace FlashImage.Inspect

/-- The first entry is that of the basic information record, and the record is what
this entry points to. -/
def LeadsToInfo (d : Bytes) (i : CameraInspection) : Prop :=
  ∃ first rest payload, i.entries = first :: rest ∧ first.identifier = Command.basicInfo ∧
    range? d first.absoluteOffset first.size.toNat = some payload ∧
    CameraInfo.decode? payload = some i.info

theorem reported_first {digest : Bytes → String} {d : Bytes} {first : DirectoryEntry}
    {directory : List DirectoryEntry} {kind : UInt32 → Option String} {x : InspectedEntry}
    {rest : List InspectedEntry} {size : Nat}
    (h_first : DirectoryEntry.at? d 0 = some first)
    (listed : DirectoryEntry.Listed d 0 size directory)
    (h_entries : List.Forall₂ (Reported digest d 0 kind) directory (x :: rest)) :
    Reported digest d 0 kind first x := by
  cases h_entries with
  | @cons e _ es _ h_head _ =>
    have h_entry := listed.entry_eq 0 (Nat.succ_pos _)
    rw [Nat.mul_zero, Nat.add_zero, h_first] at h_entry
    obtain rfl : first = e := Option.some.inj h_entry
    exact h_head

theorem decode?_payload_iff {d : Bytes} {o n : Nat} {payload : Bytes} {info : CameraInfo}
    (h_info : CameraInfo.at? d o = some info) (h_payload : range? d o n = some payload) :
    CameraInfo.decode? payload = some info ↔ 60 ≤ n := by
  obtain ⟨h_inside, rfl⟩ := range?_eq_some_iff.mp h_payload
  constructor
  · intro h_decode
    rw [← List.drop_zero (l := (d.drop o).take n), CameraInfo.decode?_drop] at h_decode
    have h_le := CameraInfo.le_length_of_at? h_decode
    rw [List.length_take] at h_le
    omega
  · intro h_room
    rw [CameraInfo.decode?_slice h_room, h_info]

/-- Every file that is decoded as a camera configuration has a first entry, whose offset
is the size of the directory and the place of the record that is reported.  It is the
first one of the report unless this has none; but it leads to the record only if it has
the identifier and the length of one. -/
theorem inspectCamera_first_entry {digest : Bytes → String} {img : Image} {i : CameraInspection}
    (decoded : inspectCamera digest img = .ok i) :
    ∃ first, DirectoryEntry.at? img.toBytes 0 = some first ∧
      CameraInfo.at? img.toBytes first.offset.toNat = some i.info ∧
      12 * i.entries.length = first.offset.toNat ∧
      (∀ x rest, i.entries = x :: rest → Reported digest img.toBytes 0 Command.name? first x) ∧
      (LeadsToInfo img.toBytes i ↔
        first.offset ≠ 0 ∧ first.identifier = Command.basicInfo ∧ 60 ≤ first.size.toNat) := by
  obtain ⟨first, directory, h_first, h_directory, h_info, h_entries⟩ :=
    inspectCamera_eq_ok_iff_reads.mp decoded
  have h_first := record_first_iff.mp h_first
  have h_info := record_info_iff.mp h_info
  have listed := (readDirectory_eq_ok_iff_listed.mp h_directory).2
  simp only [digestEntry_eq_ok_iff_reported] at h_entries
  have h_length : 12 * i.entries.length = first.offset.toNat := by
    rw [← h_entries.length_eq, listed.length_eq]
  have h_reported : ∀ x rest, i.entries = x :: rest →
      Reported digest img.toBytes 0 Command.name? first x := by
    intro x rest h_eq
    rw [h_eq] at h_entries
    exact reported_first h_first listed h_entries
  refine ⟨first, h_first, h_info, h_length, h_reported, ?_⟩
  constructor
  · rintro ⟨x, rest, payload, h_eq, h_identifier, h_range, h_decode⟩
    obtain ⟨digested, -, rfl⟩ := h_reported x rest h_eq
    rw [Nat.zero_add] at h_range
    refine ⟨fun h_zero => ?_, h_identifier, (decode?_payload_iff h_info h_range).mp h_decode⟩
    rw [h_eq, h_zero, List.length_cons] at h_length
    cases h_length
  · rintro ⟨h_offset, h_identifier, h_room⟩
    cases h_eq : i.entries with
    | nil =>
      rw [h_eq] at h_length
      exact absurd (UInt32.toNat.inj h_length.symm) h_offset
    | cons x rest =>
      obtain ⟨payload, h_range, rfl⟩ := h_reported x rest h_eq
      refine ⟨_, rest, payload, h_eq, h_identifier, h_range, ?_⟩
      rw [Nat.zero_add] at h_range
      exact (decode?_payload_iff h_info h_range).mpr h_room

/-- A directory of one entry, a record behind it. -/
def singleEntry (identifier size : UInt32) : Bytes :=
  DirectoryEntry.encode ⟨identifier, 12, size⟩ ++ CameraInfo.encode {}

theorem inspectCamera_first_entry_single :
    ∃ i, inspectCamera Sha256.hexDigest (.ofBytes (singleEntry 0x1001 60)) = .ok i ∧
      LeadsToInfo (Image.ofBytes (singleEntry 0x1001 60)).toBytes i := by
  have decoded : ∃ i, inspectCamera Sha256.hexDigest (.ofBytes (singleEntry 0x1001 60)) = .ok i :=
    ⟨_, rfl⟩
  obtain ⟨i, decoded⟩ := decoded
  obtain ⟨first, h_first, -, -, -, h_leads⟩ := inspectCamera_first_entry decoded
  have h_entry : DirectoryEntry.at? (Image.ofBytes (singleEntry 0x1001 60)).toBytes 0 =
      some ⟨0x1001, 12, 60⟩ := by decide
  obtain rfl := Option.some.inj (h_first.symm.trans h_entry)
  exact ⟨i, decoded, h_leads.mpr ⟨by decide, rfl, by decide⟩⟩

/-- A file of zeros is reported without entries, and an entry of a command or one that
points to no bytes is taken for that of the record. -/
theorem inspectCamera_without_info :
    (∃ i, inspectCamera Sha256.hexDigest (.ofBytes (List.replicate 60 0)) = .ok i ∧
      i.entries = [] ∧ ¬ LeadsToInfo (List.replicate 60 0) i) ∧
    (∃ i, inspectCamera Sha256.hexDigest (.ofBytes (singleEntry 0x1011 60)) = .ok i ∧
      i.entries.map (·.identifier) = [0x1011] ∧ ¬ LeadsToInfo (singleEntry 0x1011 60) i) ∧
    ∃ i, inspectCamera Sha256.hexDigest (.ofBytes (singleEntry 0x1001 0)) = .ok i ∧
      i.entries.map (·.size) = [0] ∧ ¬ LeadsToInfo (singleEntry 0x1001 0) i := by
  refine ⟨⟨_, rfl, rfl, ?_⟩, ⟨_, rfl, rfl, ?_⟩, ⟨_, rfl, rfl, ?_⟩⟩
  · rintro ⟨first, rest, payload, h_entries, -⟩
    cases h_entries
  · rintro ⟨first, rest, payload, h_entries, h_identifier, -⟩
    cases h_entries
    cases h_identifier
  · rintro ⟨first, rest, payload, h_entries, -, h_range, h_decode⟩
    cases h_entries
    cases h_range
    cases h_decode

end FlashImage.Inspect
