import FlashImage.Proofs.Camera.ContainerFile

/-!
# Containers whose build fails

The files of the commands are read one by one between the writes, and the medium may
refuse any of these.  The parts in front of the failure lie end to end behind the place of
the directory, and that place has not been touched.

* `directory_written_last`: what such a finish leaves on the medium.
-/

namespace FlashImage

namespace CameraBuilder

/-! ## Placing payloads -/

namespace Packing

/-- A command cannot be placed: its file cannot be read, or there is no room for
its payload. -/
inductive Blocked (p : Packing) (files : FileTree) (c : UInt32 × Payload) : CameraError → Prop where
  | unread {e : CameraError} (h : c.2.load files = .error e) : Blocked p files c e
  | unplaced {bytes : Bytes} {e : CameraError} (h_load : c.2.load files = .ok bytes)
      (h_place : p.place c.1 bytes = .error e) : Blocked p files c e

/-- Where placing fails, all commands in front of one have been placed, and this
one is blocked. -/
theorem placeAll_eq_error {p after : Packing} {files : FileTree} {queued : List (UInt32 × Payload)}
    {e : CameraError} (h : p.placeAll files queued = (.error e, after)) :
    ∃ placed c rest contents, queued = placed ++ c :: rest ∧
      List.Forall₂ (fun c bytes => c.2.load files = .ok bytes) placed contents ∧
      after = p.placedAll (placed.map (·.1)) contents ∧ after.Blocked files c e := by
  induction queued generalizing p with
  | nil => cases h
  | cons c queued ih =>
    obtain ⟨identifier, payload⟩ := c
    rw [placeAll] at h
    split at h
    next h_load =>
      cases h
      exact ⟨[], _, queued, [], rfl, .nil, (placedAll_nil _).symm, .unread h_load⟩
    next bytes h_load =>
      split at h
      next h_place =>
        cases h
        exact ⟨[], _, queued, [], rfl, .nil, (placedAll_nil _).symm, .unplaced h_load h_place⟩
      next next h_place =>
        obtain ⟨-, rfl⟩ := place_eq_ok h_place
        obtain ⟨placed, c, rest, contents, rfl, loaded, rfl, blocked⟩ := ih h
        refine ⟨(identifier, payload) :: placed, c, rest, bytes :: contents, rfl,
          .cons h_load loaded, ?_, blocked⟩
        rw [List.map_cons, placedAll_cons]

end Packing

/-! ## Finishing -/

section Finish

variable {b : CameraBuilder} {files : FileTree} {e : CameraError}

/-- A build that has placed nothing yet, with room for the directory in front. -/
def unpacked (b : CameraBuilder) : Packing :=
  { medium := b.medium, offset := b.directorySize }

/-- A build that has placed the basic information record and then the contents of
the commands with the given identifiers. -/
def packed (b : CameraBuilder) (identifiers : List UInt32) (contents : List Bytes) : Packing :=
  b.unpacked.placedAll (Command.basicInfo :: identifiers) (b.parts contents)

/-- The ways in which a finish fails before its directory is written, with the parts that
it has placed. -/
inductive Stopped (b : CameraBuilder) (files : FileTree) : List Bytes → CameraError → Prop where
  /-- The directory alone reaches past 32-bit offsets. -/
  | oversized (h : 2 ^ 32 ≤ b.directorySize) :
      Stopped b files [] (.beyondAddressSpace b.directorySize)
  /-- The basic information record cannot be placed. -/
  | info {e : CameraError}
      (unplaced : b.unpacked.place Command.basicInfo b.finalInfo.encode = .error e) :
      Stopped b files [] e
  /-- All commands in front of one are placed, and this one is not. -/
  | command {placed rest : List (UInt32 × Payload)} {c : UInt32 × Payload} {contents : List Bytes}
      {e : CameraError} (queued : b.commands = placed ++ c :: rest)
      (loaded : List.Forall₂ (fun c bytes => c.2.load files = .ok bytes) placed contents)
      (blocked : (b.packed (placed.map (·.1)) contents).Blocked files c e) :
      Stopped b files (b.parts contents) e
  /-- All commands are placed, but the directory cannot be written. -/
  | directory {contents : List Bytes} {fault : WriteFault}
      (loaded : List.Forall₂ (fun c bytes => c.2.load files = .ok bytes) b.commands contents)
      (refused : (b.packed (b.commands.map (·.1)) contents).medium.write 0 (b.directory contents) =
        .error fault) :
      Stopped b files (b.parts contents) (.unwritable fault)

/-- Everything has been written, the directory included, but the medium cannot be flushed. -/
inductive Unflushed (b : CameraBuilder) (files : FileTree) : CameraError → Medium → Prop where
  | refused {contents : List Bytes} {fault : WriteFault} {after : Medium}
      (loaded : List.Forall₂ (fun c bytes => c.2.load files = .ok bytes) b.commands contents)
      (image_eq : after.image = b.medium.image.writeAll (b.segments contents))
      (refused : after.flush = .error fault) : Unflushed b files (.unwritable fault) after

theorem writeDirectory_eq_error {p : Packing} {after : Medium}
    (h : b.writeDirectory (.ok (), p) = (.error e, after)) :
    ∃ fault, e = .unwritable fault ∧
      (p.medium.write 0 p.table.encode = .error fault ∧ after = p.medium ∨
        after.image = p.medium.image.write 0 p.table.encode ∧ after.flush = .error fault) := by
  rw [writeDirectory] at h
  split at h
  next refused =>
    cases h
    exact ⟨_, rfl, .inl ⟨refused, rfl⟩⟩
  next h_write =>
    split at h
    next refused =>
      cases h
      exact ⟨_, rfl, .inr ⟨congrArg Medium.image (Medium.write_eq_ok h_write), refused⟩⟩
    · cases h

theorem finish_eq_error {after : Medium} (h : b.finish files = (.error e, after)) :
    b.Unflushed files e after ∨ ∃ parts, b.Stopped files parts e ∧
      after.image = b.medium.image.writeAll (Segment.layOut b.directorySize parts) := by
  unfold finish pack at h
  dsimp only at h
  split at h
  next =>
    cases h_place : b.unpacked.placeAll files b.payloads with
    | mk result packing =>
      unfold unpacked at h_place
      rw [h_place] at h
      cases result with
      | error e =>
        cases h
        obtain ⟨placed, c, rest, contents, queued, loaded, rfl, blocked⟩ :=
          Packing.placeAll_eq_error h_place
        cases loaded with
        | nil =>
          cases queued
          rw [List.map_nil, Packing.placedAll_nil] at blocked
          cases blocked with
          | unread h_load => cases h_load
          | unplaced h_load h_place =>
            cases h_load
            exact .inr ⟨[], .info h_place, rfl⟩
        | cons h_info loaded =>
          obtain ⟨rfl, h_commands⟩ := List.cons.inj queued
          cases h_info
          exact .inr ⟨_, .command h_commands loaded blocked, rfl⟩
      | ok _ =>
        obtain ⟨parts, loaded, -, rfl⟩ := Packing.placeAll_eq_ok (by assumption) h_place
        cases loaded with
        | cons h_info loaded =>
          cases h_info
          obtain ⟨fault, rfl, ⟨refused, rfl⟩ | ⟨h_image, refused⟩⟩ := writeDirectory_eq_error h
          · exact .inr ⟨_, .directory loaded refused, rfl⟩
          · refine .inl (.refused loaded ?_ refused)
            rw [h_image, segments, Image.writeAll_append]
            rfl
  next h_oversized =>
    cases h
    exact .inr ⟨[], .oversized (Nat.le_of_not_lt h_oversized), rfl⟩

theorem Stopped.parts_cases {parts : List Bytes} (h : b.Stopped files parts e) :
    parts = [] ∨ ∃ contents, parts = b.finalInfo.encode :: contents ∧
      List.Forall₂ (fun c bytes => c.2.load files = .ok bytes)
        (b.commands.take contents.length) contents := by
  cases h with
  | oversized => exact .inl rfl
  | info => exact .inl rfl
  | command queued loaded _ =>
    refine .inr ⟨_, rfl, ?_⟩
    rw [queued, ← loaded.length_eq, List.take_left]
    exact loaded
  | directory loaded _ =>
    refine .inr ⟨_, rfl, ?_⟩
    rw [← loaded.length_eq, List.take_length]
    exact loaded

end Finish

end CameraBuilder

/-- A finish that fails, unless it is the flush in the end that fails, has written nothing
where the directory belongs.  Behind it lie the basic information record and the contents of
the commands in front of the failure, or nothing at all if it was the record that could not
be placed. -/
theorem directory_written_last {b : CameraBuilder} {files : FileTree} {e : CameraError}
    {after : Medium} (failed : b.finish files = (.error e, after)) :
    b.directorySize = 12 * (1 + b.commands.length) ∧
      (b.Unflushed files e after ∨
        ∃ parts, b.Stopped files parts e ∧
          (parts = [] ∨ ∃ record contents, parts = record :: contents ∧ record.length = 60 ∧
            CameraInfo.RecordAt record 0
              { b.info with directoryEntryCount := UInt32.ofNat (1 + b.commands.length) } ∧
            List.Forall₂ (fun c bytes => c.2.load files = .ok bytes)
              (b.commands.take contents.length) contents) ∧
          after.image = b.medium.image.writeAll (Segment.layOut b.directorySize parts) ∧
          (∀ s ∈ Segment.layOut b.directorySize parts, b.directorySize ≤ s.offset) ∧
          (∀ i < b.directorySize, after.image.byteAt i = b.medium.image.byteAt i) ∧
          (b.medium.image = .empty →
            after.image.toBytes.drop b.directorySize = parts.flatten)) := by
  refine ⟨Nat.mul_comm _ _, ?_⟩
  obtain unflushed | ⟨parts, stopped, h_image⟩ := CameraBuilder.finish_eq_error failed
  · exact .inl unflushed
  · refine .inr ⟨parts, stopped, ?_, h_image, fun _ => Segment.start_le_of_mem_layOut,
      fun i h_lt => ?_, fun blank => ?_⟩
    · refine stopped.parts_cases.imp_right ?_
      rintro ⟨contents, rfl, loaded⟩
      refine ⟨_, contents, rfl, CameraInfo.length_encode _, ?_, loaded⟩
      exact CameraInfo.recordAt_of_isPrefix (List.prefix_refl _)
    · rw [h_image]
      exact Image.byteAt_writeAll_layOut h_lt _ parts
    · rw [h_image, blank]
      exact Image.drop_toBytes_layOut _ parts

/-- The file of the second command has gone since it was queued. -/
def orphanedBuilder : CameraBuilder where
  commands := [(0x1016, .inline [1, 2]), (0x1011, .source (.binary "gain.bin")),
    (0x1012, .inline [])]

/-- The medium takes the record and the content of the command, and refuses the directory. -/
def refusedBuilder : CameraBuilder where
  medium := { verdicts := [none, none, some (.device "No space left on device (os error 28)")] }
  commands := [(0x1016, .inline [1, 2])]

theorem directory_written_last_gone :
    (∃ after, orphanedBuilder.finish {} = (.error (.missingInput "gain.bin"), after) ∧
      (∀ i < 48, after.image.byteAt i = 0) ∧
      after.image.toBytes.drop 48 = orphanedBuilder.finalInfo.encode ++ [1, 2]) ∧
    ∃ after, refusedBuilder.finish {} =
        (.error (.unwritable (.device "No space left on device (os error 28)")), after) ∧
      (∀ i < 24, after.image.byteAt i = 0) ∧
      after.image.toBytes.drop 24 = refusedBuilder.finalInfo.encode ++ [1, 2] := by
  constructor
  · have h_failed : ∃ after,
        orphanedBuilder.finish {} = (.error (.missingInput "gain.bin"), after) ∧
        after.image.toBytes.drop 48 = orphanedBuilder.finalInfo.encode ++ [1, 2] :=
      ⟨_, rfl, by decide +kernel⟩
    obtain ⟨after, failed, h_rest⟩ := h_failed
    refine ⟨after, failed, ?_, h_rest⟩
    obtain ⟨-, unflushed | ⟨parts, -, -, -, -, h_front, -⟩⟩ := directory_written_last failed
    · cases unflushed
    · exact h_front
  · have h_failed : ∃ after, refusedBuilder.finish {} =
        (.error (.unwritable (.device "No space left on device (os error 28)")), after) ∧
        after.image.byteAt 0 = 0 ∧
        after.image.toBytes.drop 24 = refusedBuilder.finalInfo.encode ++ [1, 2] :=
      ⟨_, rfl, by decide +kernel, by decide +kernel⟩
    obtain ⟨after, failed, h_zero, h_rest⟩ := h_failed
    refine ⟨after, failed, ?_, h_rest⟩
    obtain ⟨-, unflushed | ⟨parts, -, -, -, -, h_front, -⟩⟩ := directory_written_last failed
    · cases unflushed with
      | refused loaded image_eq _ =>
        cases loaded with
        | cons h_load loaded =>
          cases h_load
          cases loaded
          rw [image_eq] at h_zero
          exact absurd h_zero (by decide +kernel)
    · exact h_front

end FlashImage
