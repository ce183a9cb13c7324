import FlashImage.Proofs.Camera.Queue
import FlashImage.Proofs.Image.Contiguous
import FlashImage.Proofs.Layout.Directory

/-!
# The finished container

The payloads are written first, end to end behind the place of the directory,
and the directory is written last in front of them.

* `finish_addAll`: finishing after any run of requests.
-/

namespace FlashImage

/-! ## The entries of a container -/

namespace DirectoryEntry

/-- The entries of parts that lie end to end from an offset. -/
def consecutive (start : Nat) : List UInt32 → List Bytes → List DirectoryEntry
  | identifier :: identifiers, part :: parts =>
      ⟨identifier, UInt32.ofNat start, UInt32.ofNat part.length⟩ ::
        consecutive (start + part.length) identifiers parts
  | _, _ => []

theorem length_consecutive {start : Nat} {identifiers : List UInt32} {parts : List Bytes}
    (h : identifiers.length = parts.length) :
    (consecutive start identifiers parts).length = parts.length := by
  induction parts generalizing start identifiers with
  | nil => cases identifiers <;> rfl
  | cons part parts ih =>
    cases identifiers with
    | nil => cases h
    | cons identifier identifiers => rw [consecutive, List.length_cons, ih (Nat.succ.inj h)]; rfl

theorem getElem?_consecutive (start : Nat) {identifiers : List UInt32} {parts : List Bytes}
    {k : Nat} (h_identifier : k < identifiers.length) (h_part : k < parts.length) :
    (consecutive start identifiers parts)[k]? =
      some ⟨identifiers[k], UInt32.ofNat (start + (parts.take k).flatten.length),
        UInt32.ofNat parts[k].length⟩ := by
  induction parts generalizing start identifiers k with
  | nil => cases h_part
  | cons part parts ih =>
    cases identifiers with
    | nil => cases h_identifier
    | cons identifier identifiers =>
      cases k with
      | zero => rfl
      | succ k =>
        rw [consecutive, List.getElem?_cons_succ,
          ih _ (Nat.lt_of_succ_lt_succ h_identifier) (Nat.lt_of_succ_lt_succ h_part),
          List.take_succ_cons, List.flatten_cons, List.length_append, Nat.add_assoc]
        rfl

end DirectoryEntry

namespace CameraBuilder

open DirectoryEntry (consecutive)

/-! ## Placing payloads -/

namespace Packing

def placed (p : Packing) (identifier : UInt32) (bytes : Bytes) : Packing where
  medium := p.medium.next (p.medium.image.write p.offset bytes)
  table := p.table.push ⟨identifier, UInt32.ofNat p.offset, UInt32.ofNat bytes.length⟩
  offset := p.offset + bytes.length

theorem place_eq {p : Packing} (unlimited : p.medium.Unlimited) {identifier : UInt32}
    {bytes : Bytes} (room : p.offset + bytes.length < 2 ^ 32)
    (fresh : p.table.contains identifier = false) :
    p.place identifier bytes = .ok (p.placed identifier bytes) := by
  have h_room : p.offset + bytes.length < 1 <<< 32 := room
  unfold place
  dsimp only
  rw [if_pos h_room, DirectoryTable.add_of_fresh fresh]
  dsimp only
  rw [Medium.write_of_unlimited unlimited]
  rfl

theorem place_eq_ok {p after : Packing} {identifier : UInt32} {bytes : Bytes}
    (h : p.place identifier bytes = .ok after) :
    p.offset + bytes.length < 2 ^ 32 ∧ after = p.placed identifier bytes := by
  unfold place at h
  dsimp only at h
  split at h
  next room =>
    split at h
    · cases h
    next table h_add =>
      split at h
      · cases h
      next medium h_write =>
        cases h
        rw [Medium.write_eq_ok h_write, DirectoryTable.add_eq_ok h_add]
        exact ⟨room, rfl⟩
  · cases h

def placedAll (p : Packing) (identifiers : List UInt32) (contents : List Bytes) : Packing where
  medium := { p.medium with
    image := p.medium.image.writeAll (Segment.layOut p.offset contents)
    verdicts := p.medium.verdicts.drop contents.length }
  table := { p.table with
    entries := p.table.entries ++ consecutive p.offset identifiers contents }
  offset := p.offset + contents.flatten.length

theorem placedAll_nil (p : Packing) : p.placedAll [] [] = p := by
  simp [placedAll, consecutive, Segment.layOut, Image.writeAll]

theorem placedAll_cons (p : Packing) (identifier : UInt32) (identifiers : List UInt32)
    (bytes : Bytes) (contents : List Bytes) :
    p.placedAll (identifier :: identifiers) (bytes :: contents) =
      (p.placed identifier bytes).placedAll identifiers contents := by
  simp only [placedAll, placed, Medium.next, DirectoryTable.push, consecutive, Segment.layOut,
    Image.writeAll_cons, List.flatten_cons, List.length_append, List.length_cons,
    List.append_assoc, List.singleton_append, Nat.add_assoc, List.drop_tail]
  rfl

theorem unlimited_placedAll {p : Packing} (unlimited : p.medium.Unlimited)
    (identifiers : List UInt32) (contents : List Bytes) :
    (p.placedAll identifiers contents).medium.Unlimited where
  endless := unlimited.endless
  willing := fun verdict h_mem => unlimited.willing verdict (List.mem_of_mem_drop h_mem)

/-- Payloads that can be read are placed end to end, if their identifiers are new
and they do not reach past 32-bit offsets. -/
theorem placeAll_eq {p : Packing} (unlimited : p.medium.Unlimited) {files : FileTree}
    {queued : List (UInt32 × Payload)} {contents : List Bytes}
    (loaded : List.Forall₂ (fun c bytes => c.2.load files = .ok bytes) queued contents)
    (room : p.offset + contents.flatten.length < 2 ^ 32)
    (distinct : (p.table.entries.map (·.identifier) ++ queued.map (·.1)).Nodup) :
    p.placeAll files queued = (.ok (), p.placedAll (queued.map (·.1)) contents) := by
  induction loaded generalizing p with
  | nil => simp [placeAll, placedAll, consecutive, Segment.layOut, Image.writeAll]
  | @cons c bytes queued contents h_load loaded ih =>
    obtain ⟨identifier, payload⟩ := c
    rw [List.flatten_cons, List.length_append] at room
    have fresh : p.table.contains identifier = false := by
      rw [Bool.eq_false_iff, ne_eq, DirectoryTable.contains_iff]
      intro h_mem
      exact (List.nodup_append.mp distinct).2.2 _ h_mem _ List.mem_cons_self rfl
    have h_place := place_eq unlimited (by omega : p.offset + bytes.length < 2 ^ 32) fresh
    have moved : ((p.placed identifier bytes).table.entries.map (·.identifier) ++
        queued.map (·.1)).Nodup := by
      rw [placed, DirectoryTable.push, List.map_append, List.append_assoc]
      exact distinct
    have room' : (p.placed identifier bytes).offset + contents.flatten.length < 2 ^ 32 := by
      rw [placed, Nat.add_assoc]
      exact room
    dsimp only at h_load
    rw [placeAll, h_load]
    dsimp only
    rw [h_place]
    dsimp only
    rw [ih (p := p.placed identifier bytes) (unlimited.next _) room' moved, List.map_cons,
      placedAll_cons]

/-- Where placing succeeds, all of this was so. -/
theorem placeAll_eq_ok {p after : Packing} {files : FileTree} {queued : List (UInt32 × Payload)}
    (room : p.offset < 2 ^ 32) (h : p.placeAll files queued = (.ok (), after)) :
    ∃ contents, List.Forall₂ (fun c bytes => c.2.load files = .ok bytes) queued contents ∧
      p.offset + contents.flatten.length < 2 ^ 32 ∧
      after = p.placedAll (queued.map (·.1)) contents := by
  induction queued generalizing p with
  | nil =>
    cases h
    refine ⟨[], .nil, room, ?_⟩
    simp [placedAll, consecutive, Segment.layOut, Image.writeAll]
  | cons c queued ih =>
    obtain ⟨identifier, payload⟩ := c
    rw [placeAll] at h
    split at h
    · cases h
    next bytes h_load =>
      split at h
      · cases h
      next next h_place =>
        obtain ⟨h_room, rfl⟩ := place_eq_ok h_place
        obtain ⟨contents, loaded, h_end, rfl⟩ := ih h_room h
        refine ⟨bytes :: contents, .cons h_load loaded, ?_, ?_⟩
        · rw [List.flatten_cons, List.length_append, ← Nat.add_assoc]
          exact h_end
        · rw [List.map_cons, placedAll_cons]

end Packing

/-! ## Finishing -/

/-- The bytes behind the directory: the basic information record and the contents
of the commands. -/
def parts (b : CameraBuilder) (contents : List Bytes) : List Bytes :=
  b.finalInfo.encode :: contents

def entries (b : CameraBuilder) (contents : List Bytes) : List DirectoryEntry :=
  consecutive b.directorySize b.identifiers (b.parts contents)

def directory (b : CameraBuilder) (contents : List Bytes) : Bytes :=
  (b.entries contents).flatMap DirectoryEntry.encode

def report (b : CameraBuilder) (contents : List Bytes) : CameraReport where
  info := b.finalInfo
  directorySize := UInt32.ofNat b.directorySize
  totalSize := UInt32.ofNat (b.directorySize + (b.parts contents).flatten.length)
  entries := b.entries contents

/-- The segments of the container, in the order in which they are written. -/
def segments (b : CameraBuilder) (contents : List Bytes) : List Segment :=
  Segment.layOut b.directorySize (b.parts contents) ++ [.ofBytes 0 (b.directory contents)]

section Finish

variable {b : CameraBuilder} {contents : List Bytes}

theorem directorySize_eq (h_length : contents.length = b.commands.length) :
    b.directorySize = 12 * (1 + contents.length) := by
  rw [directorySize, h_length, Nat.mul_comm]
  rfl

theorem length_flatten_parts :
    (b.parts contents).flatten.length = 60 + contents.flatten.length := by
  rw [parts, List.flatten_cons, List.length_append, CameraInfo.length_encode]

theorem length_entries (h_length : contents.length = b.commands.length) :
    (b.entries contents).length = 1 + contents.length := by
  have h_parts : b.identifiers.length = (b.parts contents).length := by
    simp only [identifiers, parts, List.length_cons, List.length_map, h_length]
  rw [entries, DirectoryEntry.length_consecutive h_parts, parts, List.length_cons, Nat.add_comm]

theorem getElem?_entries_zero :
    (b.entries contents)[0]? = some ⟨0x1001, UInt32.ofNat b.directorySize, 60⟩ := by
  show some (_ : DirectoryEntry) = _
  rw [CameraInfo.length_encode]
  rfl

theorem getElem?_entries_succ {k : Nat} {command : UInt32 × Payload} {bytes : Bytes}
    (h_command : b.commands[k]? = some command) (h_bytes : contents[k]? = some bytes) :
    (b.entries contents)[k + 1]? = some ⟨command.1,
      UInt32.ofNat (b.directorySize + (60 + (contents.take k).flatten.length)),
      UInt32.ofNat bytes.length⟩ := by
  obtain ⟨h_queued, rfl⟩ := List.getElem?_eq_some_iff.mp h_command
  obtain ⟨h_part, rfl⟩ := List.getElem?_eq_some_iff.mp h_bytes
  have h_identifier : k + 1 < b.identifiers.length := by simpa [identifiers] using h_queued
  have h_parts : k + 1 < (b.parts contents).length := Nat.succ_lt_succ h_part
  rw [entries, DirectoryEntry.getElem?_consecutive _ h_identifier h_parts]
  simp only [parts, identifiers, List.take_succ_cons, List.flatten_cons, List.length_append,
    CameraInfo.length_encode, List.getElem_cons_succ, List.getElem_map]

theorem length_directory (h_length : contents.length = b.commands.length) :
    (b.directory contents).length = b.directorySize := by
  rw [directory, DirectoryEntry.length_flatMap_encode, length_entries h_length,
    directorySize_eq h_length]

theorem writeDirectory_eq_ok {p : Packing} {report : CameraReport} {after : Medium}
    (h : b.writeDirectory (.ok (), p) = (.ok report, after)) :
    after.image = p.medium.image.write 0 p.table.encode := by
  rw [writeDirectory] at h
  split at h
  · cases h
  next written h_write =>
    split at h
    · cases h
    next h_flush =>
      cases h
      rw [Medium.flush_eq_ok h_flush, Medium.write_eq_ok h_write]
      rfl

theorem finish_eq (unlimited : b.medium.Unlimited) (blank : b.medium.image = .empty)
    (distinct : b.identifiers.Nodup) {files : FileTree}
    (loaded : List.Forall₂ (fun c bytes => c.2.load files = .ok bytes) b.commands contents)
    (room : b.directorySize + (b.parts contents).flatten.length < 2 ^ 32) :
    ∃ after, b.finish files = (.ok (b.report contents), after) ∧
      after.image = Image.empty.writeAll (b.segments contents) := by
  have h_fits : b.directorySize < 1 <<< 32 := Nat.lt_of_le_of_lt (Nat.le_add_right _ _) room
  let start : Packing := { medium := b.medium, offset := b.directorySize }
  let packed := start.placedAll b.identifiers (b.parts contents)
  have h_place : start.placeAll files b.payloads = (.ok (), packed) :=
    Packing.placeAll_eq unlimited (.cons rfl loaded) room distinct
  have h_pack : b.pack files = (.ok (), packed) := by
    unfold pack
    dsimp only
    rw [if_pos h_fits, h_place]
  have h_image : packed.medium.image.write 0 (b.directory contents) =
      Image.empty.writeAll (b.segments contents) := by
    rw [segments, Image.writeAll_append, ← blank]
    rfl
  have still_unlimited : packed.medium.Unlimited := Packing.unlimited_placedAll unlimited _ _
  rw [finish, h_pack, writeDirectory, Medium.write_of_unlimited still_unlimited]
  dsimp only
  rw [Medium.flush_of_unlimited (still_unlimited.next _), ← h_image]
  exact ⟨_, rfl, rfl⟩

/-- A finish that succeeds has read every file and written every part. -/
theorem finish_eq_ok (blank : b.medium.image = .empty) {files : FileTree} {report : CameraReport}
    {after : Medium} (h : b.finish files = (.ok report, after)) :
    ∃ contents, List.Forall₂ (fun c bytes => c.2.load files = .ok bytes) b.commands contents ∧
      b.directorySize + (b.parts contents).flatten.length < 2 ^ 32 ∧
      after.image = Image.empty.writeAll (b.segments contents) := by
  unfold finish pack at h
  dsimp only at h
  split at h
  next h_fits =>
    cases h_place : Packing.placeAll { medium := b.medium, offset := b.directorySize } files
        b.payloads with
    | mk result packed =>
      rw [h_place] at h
      cases result with
      | error e => cases h
      | ok _ =>
        obtain ⟨parts, loaded, room, rfl⟩ := Packing.placeAll_eq_ok h_fits h_place
        cases loaded with
        | @cons _ bytes _ contents h_info loaded =>
          cases h_info
          refine ⟨contents, loaded, room, ?_⟩
          rw [writeDirectory_eq_ok h, segments, Image.writeAll_append, ← blank]
          rfl
  · cases h

/-- The directory is written after the parts, but it lies in front of them. -/
theorem consists_segments (h_length : contents.length = b.commands.length) :
    (Image.empty.writeAll (b.segments contents)).Consists
      (Segment.layOut 0 (b.directory contents :: b.parts contents)) := by
  have h_stop : (Segment.ofBytes 0 (b.directory contents)).stop = b.directorySize := by
    rw [Segment.stop_ofBytes, length_directory h_length, Nat.zero_add]
  have apart : (b.segments contents).Pairwise Segment.Apart := by
    refine List.pairwise_append.mpr
      ⟨Segment.layOut_apart _ _, List.pairwise_singleton _ _, fun s h_s t h_t => ?_⟩
    rw [List.mem_singleton.mp h_t]
    exact Segment.apart_of_le (.inr (h_stop ▸ Segment.start_le_of_mem_layOut h_s))
  have h_perm : (b.segments contents).Perm
      (Segment.layOut 0 (b.directory contents :: b.parts contents)) := by
    rw [Segment.layOut, Nat.zero_add, length_directory h_length]
    exact List.perm_append_singleton _ _
  exact (Image.consists_writeAll apart).perm h_perm

end Finish

end CameraBuilder

section Requests

variable {medium : Medium} {files : FileTree} {contents : List Bytes}

open CameraBuilder (addAll accepted)

theorem finish_addAll (unlimited : medium.Unlimited) (blank : medium.image = .empty)
    (info : CameraInfo) (requests : List CommandRequest)
    (loaded : List.Forall₂ (fun c bytes => c.2.load files = .ok bytes)
      (accepted { medium, info } requests) contents)
    (room : 12 * (1 + contents.length) + 60 + contents.flatten.length < 2 ^ 32) :
    let b := addAll { medium, info } requests
    ∃ after, b.finish files = (.ok (b.report contents), after) ∧
      after.image.Consists (Segment.layOut 0 (b.directory contents :: b.parts contents)) := by
  intro b
  have h_commands : b.commands = accepted { medium, info } requests := by simp [b]
  have h_medium : b.medium = medium := by simp [b]
  rw [← h_commands] at loaded
  have h_length := loaded.length_eq.symm
  have h_room : b.directorySize + (b.parts contents).flatten.length < 2 ^ 32 := by
    rw [CameraBuilder.directorySize_eq h_length, CameraBuilder.length_flatten_parts,
      ← Nat.add_assoc]
    exact room
  have distinct : b.identifiers.Nodup :=
    CameraBuilder.distinct_addAll (b := { medium, info }) (List.nodup_singleton _) requests
  obtain ⟨after, h_finish, h_image⟩ :=
    CameraBuilder.finish_eq (h_medium ▸ unlimited) (h_medium ▸ blank) distinct loaded h_room
  exact ⟨after, h_finish, h_image ▸ CameraBuilder.consists_segments h_length⟩

end Requests

def gainFiles : FileTree where
  entries := [("gain.bin", .file (.ofBytes [7, 8, 9]) 0o644)]

/-- An alias of a queued name and the reserved identifier, which are refused, and
an empty command at the end. -/
def mixedRequests : List CommandRequest :=
  [⟨.named "set auto focus", .memory [1, 2]⟩, ⟨.named "SET_GAIN", .memory [3]⟩,
    ⟨.numeric 0x1001, .memory [4]⟩,
    ⟨.named "CAM_CFG_CMND_START_STREAM", .file gainFiles (.binary "gain.bin")⟩,
    ⟨.numeric 0x1012, .memory []⟩]

theorem accepted_mixedRequests : CameraBuilder.accepted {} mixedRequests =
    [(0x1016, .inline [1, 2]), (0x1011, .source (.binary "gain.bin")), (0x1012, .inline [])] := by
  decide +kernel

theorem loaded_mixedRequests :
    List.Forall₂ (fun c bytes => c.2.load gainFiles = .ok bytes)
      (CameraBuilder.accepted {} mixedRequests) [[1, 2], [7, 8, 9], []] := by
  rw [accepted_mixedRequests]
  exact .cons rfl (.cons rfl (.cons rfl .nil))

end FlashImage
