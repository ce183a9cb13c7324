import FlashImage.Digest.Sha256
import FlashImage.Proofs.Camera.Packing
import FlashImage.Proofs.Decoding

/-!
# Inspecting a finished container

A container does not say how long its directory is.  Its first payload stands
right behind the directory, so the decoder finds the directory, and with it every
payload, whatever the container holds.

* `inspect_container`: building and then inspecting.
-/

namespace FlashImage

/-- An entry as it is decoded, with the digest of the given bytes. -/
def DirectoryEntry.inspected (digest : Bytes → String) (e : DirectoryEntry) (bytes : Bytes) :
    InspectedEntry where
  identifier := e.identifier
  kind := Command.name? e.identifier
  offset := e.offset
  absoluteOffset := e.offset.toNat
  size := e.size
  sha256 := digest bytes

namespace CameraBuilder

/-- The entry of the basic information record, which comes first. -/
def firstEntry (b : CameraBuilder) : DirectoryEntry where
  identifier := Command.basicInfo
  offset := UInt32.ofNat b.directorySize
  size := UInt32.ofNat b.finalInfo.encode.length

theorem directory_eq (b : CameraBuilder) (contents : List Bytes) :
    ∃ rest, b.directory contents = b.firstEntry.encode ++ rest :=
  ⟨_, rfl⟩

def containerSegments (b : CameraBuilder) (contents : List Bytes) : List Segment :=
  .ofBytes 0 (b.directory contents) :: Segment.layOut b.directorySize (b.parts contents)

theorem layOut_eq_containerSegments {b : CameraBuilder} {contents : List Bytes}
    (h_length : contents.length = b.commands.length) :
    Segment.layOut 0 (b.directory contents :: b.parts contents) = b.containerSegments contents := by
  rw [Segment.layOut, Nat.zero_add, length_directory h_length, containerSegments]

end CameraBuilder

namespace Inspect

open DirectoryEntry (consecutive)

/-! ## Parts that lie end to end -/

variable {digest : Bytes → String} {img : Image}

theorem mapM_consecutive {segments : List Segment} (consists : img.Consists segments)
    (narrow : img.size < 2 ^ 32) {start : Nat} (identifiers : List UInt32) {parts : List Bytes}
    (h_mem : ∀ s ∈ Segment.layOut start parts, s ∈ segments)
    (h_inside : start + parts.flatten.length ≤ img.size) :
    (consecutive start identifiers parts).mapM (digestEntry digest img 0 Command.name?) =
      .ok (List.zipWith (DirectoryEntry.inspected digest)
        (consecutive start identifiers parts) parts) := by
  induction parts generalizing start identifiers with
  | nil => cases identifiers <;> rfl
  | cons part parts ih =>
    cases identifiers with
    | nil => rfl
    | cons identifier identifiers =>
      rw [List.flatten_cons, List.length_append] at h_inside
      let e : DirectoryEntry := ⟨identifier, UInt32.ofNat start, UInt32.ofNat part.length⟩
      have h_offset : 0 + e.offset.toNat = start := by
        rw [Nat.zero_add]
        exact UInt32.toNat_ofNat_of_lt (show start < 2 ^ 32 by omega)
      have h_size : e.size.toNat = part.length :=
        UInt32.toNat_ofNat_of_lt (show part.length < 2 ^ 32 by omega)
      have h_segment : Segment.ofBytes (0 + e.offset.toNat) part ∈ segments := by
        rw [h_offset]
        exact h_mem _ List.mem_cons_self
      have h_head : digestEntry digest img 0 Command.name? e = .ok (e.inspected digest part) := by
        rw [digestEntry_eq consists h_segment h_size, if_pos (by omega), Nat.zero_add]
        rfl
      have h_tail := ih identifiers (fun s h_s => h_mem s (List.mem_cons_of_mem _ h_s)) (by omega)
      rw [consecutive, List.mapM_cons, h_head, h_tail]
      rfl

/-- The last of the parts stops where all of them stop. -/
theorem exists_entry_end {start : Nat} {identifiers : List UInt32} {part : Bytes}
    {parts : List Bytes} (h_length : identifiers.length = (part :: parts).length)
    (narrow : start + (part :: parts).flatten.length < 2 ^ 32) :
    ∃ x ∈ List.zipWith (DirectoryEntry.inspected digest)
        (consecutive start identifiers (part :: parts)) (part :: parts),
      x.absoluteOffset + x.size.toNat = start + (part :: parts).flatten.length := by
  induction parts generalizing start identifiers part with
  | nil =>
    obtain ⟨identifier, rfl⟩ := List.length_eq_one_iff.mp h_length
    refine ⟨_, List.mem_cons_self, ?_⟩
    simp only [List.flatten_cons, List.flatten_nil, List.append_nil] at narrow ⊢
    have h_start : (UInt32.ofNat start).toNat = start :=
      UInt32.toNat_ofNat_of_lt (Nat.lt_of_le_of_lt (Nat.le_add_right _ _) narrow)
    have h_size : (UInt32.ofNat part.length).toNat = part.length :=
      UInt32.toNat_ofNat_of_lt (Nat.lt_of_le_of_lt (Nat.le_add_left _ _) narrow)
    exact congrArg₂ (· + ·) h_start h_size
  | cons next parts ih =>
    cases identifiers with
    | nil => cases h_length
    | cons identifier identifiers =>
      rw [List.flatten_cons, List.length_append, ← Nat.add_assoc] at narrow ⊢
      obtain ⟨x, h_mem, h_stop⟩ := ih (Nat.succ.inj h_length) narrow
      exact ⟨x, List.mem_cons_of_mem _ h_mem, h_stop⟩

/-! ## Containers -/

section Container

variable {b : CameraBuilder} {contents : List Bytes}

theorem size_container (consists : img.Consists (b.containerSegments contents))
    (h_length : contents.length = b.commands.length) :
    img.size = b.directorySize + (b.parts contents).flatten.length := by
  rw [← CameraBuilder.layOut_eq_containerSegments h_length] at consists
  rw [consists.size_layOut, List.flatten_cons, List.length_append,
    CameraBuilder.length_directory h_length]

theorem isRoot_container (consists : img.Consists (b.containerSegments contents)) :
    isRoot img = false := by
  obtain ⟨rest, h_rest⟩ : ∃ rest, b.directory contents = Word.encode Command.basicInfo ++ rest :=
    ⟨_, rfl⟩
  have h_mem : Segment.ofBytes 0 (Word.encode Command.basicInfo ++ rest) ∈
      b.containerSegments contents := h_rest ▸ List.mem_cons_self
  rw [isRoot_eq consists h_mem]
  decide

theorem record_firstEntry (consists : img.Consists (b.containerSegments contents)) :
    record DirectoryEntry.decode? img 0 DirectoryEntry.width = .ok b.firstEntry := by
  obtain ⟨rest, h_rest⟩ := b.directory_eq contents
  have h_mem : Segment.ofBytes 0 (b.firstEntry.encode ++ rest) ∈ b.containerSegments contents :=
    h_rest ▸ List.mem_cons_self
  have h_decode := b.firstEntry.decode?_encode_append []
  rw [List.append_nil] at h_decode
  exact record_eq consists h_mem (Nat.zero_le _) h_decode

theorem record_finalInfo (consists : img.Consists (b.containerSegments contents))
    (h_inside : b.directorySize ≤ img.size) :
    record CameraInfo.decode? img b.directorySize CameraInfo.width = .ok b.finalInfo.stored := by
  have h_mem : Segment.ofBytes b.directorySize (b.finalInfo.encode ++ []) ∈
      b.containerSegments contents := by
    rw [List.append_nil]
    exact List.mem_cons_of_mem _ List.mem_cons_self
  have h_decode := b.finalInfo.decode?_encode_append []
  rw [List.append_nil] at h_decode
  have h_record := record_eq consists h_mem h_inside h_decode
  rw [CameraInfo.length_encode] at h_record
  exact h_record

theorem inspectCamera_eq (consists : img.Consists (b.containerSegments contents))
    (h_length : contents.length = b.commands.length) (narrow : img.size < 2 ^ 32) :
    inspectCamera digest img = .ok
      { info := b.finalInfo.stored
        entries :=
          List.zipWith (DirectoryEntry.inspected digest) (b.entries contents)
            (b.parts contents) } := by
  have h_size := size_container consists h_length
  have h_offset : b.firstEntry.offset.toNat = b.directorySize :=
    UInt32.toNat_ofNat_of_lt (show b.directorySize < 2 ^ 32 by omega)
  have h_directory : readDirectory img 0 b.firstEntry.offset = .ok (b.entries contents) := by
    have h_entries : b.firstEntry.offset.toNat = 12 * (b.entries contents).length := by
      rw [h_offset, CameraBuilder.length_entries h_length, CameraBuilder.directorySize_eq h_length]
    rw [readDirectory_eq consists List.mem_cons_self h_entries, if_pos (Nat.zero_le _)]
  have h_info := record_finalInfo consists (by omega)
  rw [← h_offset] at h_info
  have h_entries : (b.entries contents).mapM (digestEntry digest img 0 Command.name?) =
      .ok (List.zipWith (DirectoryEntry.inspected digest) (b.entries contents)
        (b.parts contents)) :=
    mapM_consecutive consists narrow b.identifiers (fun s h_s => List.mem_cons_of_mem _ h_s)
      (Nat.le_of_eq h_size.symm)
  unfold inspectCamera
  simp only [record_firstEntry consists, h_directory, h_info, h_entries, bind, Except.bind]

theorem inspectCamera_finish (digest : Bytes → String) {files : FileTree} {report : CameraReport}
    {after : Medium}
    (blank : b.medium.image = .empty) (finished : b.finish files = (.ok report, after)) :
    isRoot after.image = false ∧ ∃ i, inspectCamera digest after.image = .ok i ∧
      ∃ x ∈ i.entries, x.absoluteOffset + x.size.toNat = after.image.size := by
  obtain ⟨contents, loaded, room, h_image⟩ := CameraBuilder.finish_eq_ok blank finished
  have h_length := loaded.length_eq.symm
  have consists := CameraBuilder.consists_segments h_length
  rw [← h_image, CameraBuilder.layOut_eq_containerSegments h_length] at consists
  have h_size := size_container consists h_length
  have h_parts : b.identifiers.length = (b.parts contents).length := by
    simp only [CameraBuilder.identifiers, CameraBuilder.parts, List.length_cons, List.length_map,
      h_length]
  obtain ⟨x, h_mem, h_stop⟩ := exists_entry_end h_parts room
  exact ⟨isRoot_container consists, _, inspectCamera_eq consists h_length (h_size ▸ room),
    x, h_mem, h_stop.trans h_size.symm⟩

end Container

end Inspect

section Requests

variable {medium : Medium} {files : FileTree} {contents : List Bytes}

open CameraBuilder (addAll accepted)

/-- What was built is found again: every payload with the identifier, the offset
and the size that the report has, and with the digest of its bytes; and the basic
information record, as far as its names fit. -/
theorem inspect_container (digest : Bytes → String) (unlimited : medium.Unlimited)
    (blank : medium.image = .empty) (info : CameraInfo) (requests : List CommandRequest)
    (loaded : List.Forall₂ (fun c bytes => c.2.load files = .ok bytes)
      (accepted { medium, info } requests) contents)
    (room : 12 * (1 + contents.length) + 60 + contents.flatten.length < 2 ^ 32) :
    ∃ report after i, (addAll { medium, info } requests).finish files = (.ok report, after) ∧
      Inspect.inspect digest after.image = .ok (.camera i) ∧
      i.entries.length = 1 + (accepted { medium, info } requests).length ∧
      i.entries = List.zipWith (DirectoryEntry.inspected digest) report.entries
        (report.info.encode :: contents) ∧
      i.info.directoryEntryCount.toNat = 1 + (accepted { medium, info } requests).length ∧
      (NameField.Fits info.vendorName → NameField.Fits info.modelName →
        NameField.Fits info.driverVersion →
        i.info = { info with directoryEntryCount := i.info.directoryEntryCount }) := by
  obtain ⟨after, h_finish, consists⟩ := finish_addAll unlimited blank info requests loaded room
  have h_loaded := loaded.length_eq.symm
  generalize h_b : addAll { medium, info } requests = b at h_finish consists ⊢
  have h_info : b.info = info := by simp [← h_b]
  have h_commands : b.commands = accepted { medium, info } requests := by simp [← h_b]
  rw [← h_commands] at h_loaded ⊢
  rw [CameraBuilder.layOut_eq_containerSegments h_loaded] at consists
  have narrow : after.image.size < 2 ^ 32 := by
    rw [Inspect.size_container consists h_loaded, CameraBuilder.directorySize_eq h_loaded,
      CameraBuilder.length_flatten_parts, ← Nat.add_assoc]
    exact room
  have h_inspect : Inspect.inspect digest after.image = .ok (.camera
      { info := b.finalInfo.stored
        entries := List.zipWith (DirectoryEntry.inspected digest) (b.entries contents)
          (b.parts contents) }) := by
    rw [Inspect.inspect, Inspect.isRoot_container consists,
      Inspect.inspectCamera_eq consists h_loaded narrow]
    rfl
  have h_count : b.finalInfo.directoryEntryCount.toNat = 1 + b.commands.length :=
    UInt32.toNat_ofNat_of_lt (show 1 + b.commands.length < 2 ^ 32 by omega)
  refine ⟨_, _, _, h_finish, h_inspect, ?_, rfl, h_count, fun vendor model driver => ?_⟩
  · rw [List.length_zipWith, CameraBuilder.length_entries h_loaded, CameraBuilder.parts,
      List.length_cons, h_loaded]
    omega
  · subst h_info
    exact CameraInfo.stored_eq (i := b.finalInfo) vendor model driver

end Requests

theorem inspect_container_mixed :
    ∃ report after i,
      (CameraBuilder.addAll {} mixedRequests).finish gainFiles = (.ok report, after) ∧
      Inspect.inspect Sha256.hexDigest after.image = .ok (.camera i) ∧
      i.entries.map (fun e => (e.identifier, e.kind, e.absoluteOffset, e.size, e.sha256)) =
        [(0x1001, some "BASIC_CAMERA_CONFIG", 0x30, 60,
            "ef18dff3a442018f44be3b6029335b181355be47349f74408a2201f2d50bfba7"),
          (0x1016, some "SET_AUTO_FOCUS", 0x6C, 2,
            "a12871fee210fb8619291eaea194581cbd2531e4b23759d225f6806923f63222"),
          (0x1011, some "START_STREAM", 0x6E, 3,
            "66a6757151f8ee55db127716c7e3dce0be8074b64e20eda542e5c1e46ca9c41e"),
          (0x1012, some "STOP_STREAM", 0x71, 0,
            "e3b0c44298fc1c149afbf4c8996fb92427ae41e4649b934ca495991b7852b855")] ∧
      i.info = { directoryEntryCount := i.info.directoryEntryCount } := by
  have unlimited : ({} : Medium).Unlimited := Medium.unlimited_empty
  have room : 12 * (1 + 3) + 60 + [[1, 2], [7, 8, 9], ([] : Bytes)].flatten.length < 2 ^ 32 := by
    decide
  obtain ⟨report, after, i, h_finish, h_inspect, -, h_entries, -, h_info⟩ :=
    inspect_container Sha256.hexDigest unlimited rfl {} mixedRequests loaded_mixedRequests room
  refine ⟨report, after, i, h_finish, h_inspect, ?_,
    h_info (by decide +kernel) (by decide +kernel) (by decide +kernel)⟩
  obtain ⟨after', h_report, -⟩ :=
    finish_addAll unlimited rfl {} mixedRequests loaded_mixedRequests room
  rw [h_finish] at h_report
  cases h_report
  rw [h_entries]
  decide +kernel

end FlashImage
