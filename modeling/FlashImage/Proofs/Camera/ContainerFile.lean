import FlashImage.Proofs.Camera.Packing
import FlashImage.Proofs.Image.Words

/-!
# The file of a camera configuration

What a finished build leaves, byte for byte: the words of the directory and of the basic
information record, the names, and the contents of the commands.

* `finish_container`: `CameraBuilder.finish` succeeds and leaves them.
-/

namespace FlashImage

/-! ## The basic information record -/

/-- A name in a field of sixteen bytes: the first fifteen bytes of its UTF-8 encoding, and
zeros behind them. -/
def NameAt (d : Bytes) (o : Nat) (name : String) : Prop :=
  (d.drop o).take 16 =
    ((name.toList.flatMap String.utf8EncodeChar).take 15 ++ List.replicate 16 0).take 16

/-- The sixty bytes of a basic information record, field by field. -/
structure CameraInfo.RecordAt (d : Bytes) (o : Nat) (i : CameraInfo) : Prop where
  inside : o + 60 ≤ d.length
  layoutVersion : WordsAt d o [i.layoutVersion.toNat]
  vendorName : NameAt d (o + 4) i.vendorName
  modelName : NameAt d (o + 20) i.modelName
  driverVersion : NameAt d (o + 36) i.driverVersion
  counters : WordsAt d (o + 52) [i.directoryEntryCount.toNat, i.interfaces.toNat]

section Fields

variable {d : Bytes} {o n : Nat}

theorem drop_add_of_drop_eq {front back : Bytes} (h : d.drop o = front ++ back)
    (h_length : front.length = n) : d.drop (o + n) = back := by
  rw [← List.drop_drop, h, List.drop_left' h_length]

theorem nameAt_of_drop_eq {name : String} {rest : Bytes}
    (h : d.drop o = NameField.encode name ++ rest) : NameAt d o name := by
  have h_kept : ((Utf8.encode name).take 15).length ≤ 16 :=
    Nat.le_trans (List.length_take_le _ _) (by decide)
  rw [NameAt, h, List.take_left' (NameField.length_encode name), List.take_append,
    List.take_replicate]
  rw [NameField.encode, NameField.width]
  congr 1
  · exact (List.take_of_length_le h_kept).symm
  · rw [Nat.min_eq_left (Nat.sub_le _ _)]
    rfl

theorem CameraInfo.recordAt_of_isPrefix {i : CameraInfo} (h : i.encode <+: d.drop o) :
    i.RecordAt d o := by
  obtain ⟨rest, h⟩ := h
  have h_inside := congrArg List.length h
  rw [List.length_append, length_encode, List.length_drop] at h_inside
  simp only [encode, List.append_assoc] at h
  have h_vendor := drop_add_of_drop_eq h.symm (Word.length_encode _)
  have h_model := drop_add_of_drop_eq h_vendor (NameField.length_encode _)
  have h_driver := drop_add_of_drop_eq h_model (NameField.length_encode _)
  have h_counters := drop_add_of_drop_eq h_driver (NameField.length_encode _)
  simp only [Nat.add_assoc, Nat.reduceAdd] at h_vendor h_model h_driver h_counters
  exact {
    inside := by omega
    layoutVersion := wordsAt_of_isPrefix [i.layoutVersion] ⟨_, h⟩
    vendorName := nameAt_of_drop_eq h_vendor
    modelName := nameAt_of_drop_eq h_model
    driverVersion := nameAt_of_drop_eq h_driver
    counters :=
      wordsAt_of_isPrefix [i.directoryEntryCount, i.interfaces] ⟨rest, h_counters.symm⟩ }

end Fields

/-! ## The container -/

/-- The bytes of a camera configuration: the directory, the record and the contents of the
commands, one behind the other. -/
structure ContainerFile (info : CameraInfo) (identifiers : List UInt32) (contents : List Bytes)
    (d : Bytes) : Prop where
  /-- The entry of the record comes first. -/
  first : WordsAt d 0 [0x1001, 12 * (1 + contents.length), 60]
  entry : ∀ (k : Nat) identifier bytes, identifiers[k]? = some identifier →
    contents[k]? = some bytes →
      WordsAt d (12 * (k + 1)) [identifier.toNat,
        12 * (1 + contents.length) + 60 + (contents.take k).flatten.length, bytes.length]
  record : CameraInfo.RecordAt d (12 * (1 + contents.length))
    { info with directoryEntryCount := UInt32.ofNat (1 + contents.length) }
  contents_eq : d.drop (12 * (1 + contents.length) + 60) = contents.flatten
  length_eq : d.length = 12 * (1 + contents.length) + 60 + contents.flatten.length

namespace CameraBuilder

variable {b : CameraBuilder} {contents : List Bytes}

theorem containerFile (h_length : contents.length = b.commands.length)
    (room : 12 * (1 + contents.length) + 60 + contents.flatten.length < 2 ^ 32) :
    ContainerFile b.info (b.commands.map (·.1)) contents
      (b.directory contents ++ b.finalInfo.encode ++ contents.flatten) := by
  have h_directory : (b.directory contents).length = 12 * (1 + contents.length) := by
    rw [length_directory h_length, directorySize_eq h_length]
  have h_front : (b.directory contents ++ b.finalInfo.encode).length =
      12 * (1 + contents.length) + 60 := by
    rw [List.length_append, h_directory, CameraInfo.length_encode]
  have h_listed : (b.entries contents).flatMap DirectoryEntry.encode <+:
      (b.directory contents ++ b.finalInfo.encode ++ contents.flatten).drop 0 :=
    ⟨_, (List.append_assoc _ _ _).symm⟩
  have toNat_ofNat : ∀ m : Nat, m < 2 ^ 32 → (UInt32.ofNat m).toNat = m :=
    fun _ => UInt32.toNat_ofNat_of_lt
  refine ⟨?_, fun k identifier bytes h_identifier h_bytes => ?_, ?_, ?_, ?_⟩
  · have h_words := wordsAt_directory h_listed getElem?_entries_zero
    rwa [directorySize_eq h_length, toNat_ofNat _ (by omega)] at h_words
  · rw [List.getElem?_map, Option.map_eq_some_iff] at h_identifier
    obtain ⟨command, h_command, rfl⟩ := h_identifier
    have h_words := wordsAt_directory h_listed (getElem?_entries_succ h_command h_bytes)
    have h_split : (contents.take k).flatten.length + (contents.drop k).flatten.length =
        contents.flatten.length := by
      rw [← List.length_append, ← List.flatten_append, List.take_append_drop]
    have h_part : bytes.length ≤ contents.flatten.length :=
      (List.sublist_flatten_of_mem (List.mem_of_getElem? h_bytes)).length_le
    rwa [directorySize_eq h_length, ← Nat.add_assoc (12 * (1 + contents.length)),
      toNat_ofNat _ (by omega), toNat_ofNat _ (by omega), Nat.zero_add] at h_words
  · have h_info : b.finalInfo =
        { b.info with directoryEntryCount := UInt32.ofNat (1 + contents.length) } := by
      rw [finalInfo, h_length]
    rw [← h_info]
    refine CameraInfo.recordAt_of_isPrefix ⟨contents.flatten, ?_⟩
    rw [List.append_assoc, List.drop_left' h_directory]
  · rw [List.drop_left' h_front]
  · rw [List.length_append, h_front]

end CameraBuilder

section Requests

variable {medium : Medium} {files : FileTree} {contents : List Bytes}

open CameraBuilder (addAll accepted)

/-- Finishing succeeds, and leaves the file of the commands that were accepted.  The report
has the length of the file and the entries of its directory. -/
theorem finish_container (unlimited : medium.Unlimited) (blank : medium.image = .empty)
    (info : CameraInfo) (requests : List CommandRequest)
    (loaded : List.Forall₂ (fun c bytes => c.2.load files = .ok bytes)
      (accepted { medium, info } requests) contents)
    (room : 12 * (1 + contents.length) + 60 + contents.flatten.length < 2 ^ 32) :
    let commands := accepted { medium, info } requests
    let n := commands.length
    ∃ report after, (addAll { medium, info } requests).finish files = (.ok report, after) ∧
      ContainerFile info (commands.map (·.1)) contents after.image.toBytes ∧
      report.info = { info with directoryEntryCount := UInt32.ofNat (1 + n) } ∧
      report.directorySize.toNat = 12 * (1 + n) ∧
      report.totalSize.toNat = after.image.toBytes.length ∧
      report.entries.length = 1 + n ∧
      ∀ (k : Nat) e, report.entries[k]? = some e →
        WordsAt after.image.toBytes (12 * k)
          [e.identifier.toNat, e.offset.toNat, e.size.toNat] := by
  intro commands n
  obtain ⟨after, h_finish, consists⟩ := finish_addAll unlimited blank info requests loaded room
  generalize h_b : addAll { medium, info } requests = b at h_finish consists ⊢
  have h_info : b.info = info := by simp [← h_b]
  have h_commands : b.commands = commands := by simp [← h_b, commands]
  have h_length : contents.length = n := loaded.length_eq.symm
  have h_queued : contents.length = b.commands.length := by rw [h_length, h_commands]
  have h_bytes : after.image.toBytes =
      b.directory contents ++ b.finalInfo.encode ++ contents.flatten := by
    rw [consists.toBytes_layOut, List.flatten_cons, CameraBuilder.parts, List.flatten_cons,
      ← List.append_assoc]
  have file := CameraBuilder.containerFile h_queued room
  rw [← h_bytes, h_info, h_commands] at file
  have toNat_ofNat : ∀ m : Nat, m < 2 ^ 32 → (UInt32.ofNat m).toNat = m :=
    fun _ => UInt32.toNat_ofNat_of_lt
  refine ⟨_, _, h_finish, file, ?_, ?_, ?_, ?_, fun k e h_entry => ?_⟩
  · rw [← h_info, CameraBuilder.report, CameraBuilder.finalInfo, h_commands]
  · show (UInt32.ofNat b.directorySize).toNat = 12 * (1 + n)
    rw [CameraBuilder.directorySize_eq h_queued, ← h_length]
    exact toNat_ofNat _ (by omega)
  · show (UInt32.ofNat (b.directorySize + (b.parts contents).flatten.length)).toNat = _
    rw [file.length_eq, CameraBuilder.directorySize_eq h_queued,
      CameraBuilder.length_flatten_parts, ← Nat.add_assoc]
    exact toNat_ofNat _ room
  · rw [CameraBuilder.report, CameraBuilder.length_entries h_queued, h_length]
  · have h_listed : (b.entries contents).flatMap DirectoryEntry.encode <+:
        after.image.toBytes.drop 0 := by
      rw [List.drop_zero, h_bytes, List.append_assoc]
      exact List.prefix_append _ _
    have h_words := wordsAt_directory h_listed h_entry
    rwa [Nat.zero_add] at h_words

end Requests

theorem finish_container_mixed :
    ∃ report after,
      (CameraBuilder.addAll {} mixedRequests).finish gainFiles = (.ok report, after) ∧
      WordsAt after.image.toBytes 0 [0x1001, 0x30, 60] ∧
      WordsAt after.image.toBytes 12 [0x1016, 0x6C, 2] ∧
      WordsAt after.image.toBytes 24 [0x1011, 0x6E, 3] ∧
      WordsAt after.image.toBytes 36 [0x1012, 0x71, 0] ∧
      WordsAt after.image.toBytes 0x64 [4, 0] ∧
      after.image.toBytes.drop 0x6C = [1, 2, 7, 8, 9] ∧ report.totalSize = 0x71 := by
  obtain ⟨report, after, h_finish, file, -, -, h_total, -⟩ :=
    @finish_container {} gainFiles _ Medium.unlimited_empty rfl {} mixedRequests
      loaded_mixedRequests (by decide)
  rw [accepted_mixedRequests] at file
  refine ⟨report, after, h_finish, file.first, file.entry 0 _ _ rfl rfl,
    file.entry 1 _ _ rfl rfl, file.entry 2 _ _ rfl rfl, file.record.counters, file.contents_eq, ?_⟩
  exact UInt32.toNat.inj (h_total.trans file.length_eq)

end FlashImage
