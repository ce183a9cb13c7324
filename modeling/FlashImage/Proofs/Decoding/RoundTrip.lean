import FlashImage.Proofs.Decoding.Fields

/-!
# Records read back and written back

A word is written back as the four bytes that it was read from, so a record is written
back as it stood in the file.  There are two exceptions: the checksum word of a header
becomes zero, and a name is written back as it stood only if it had been written by the
rules of its field.

* `records_roundTrip`: records are read back and written back.
-/

namespace FlashImage

/-! ## Words -/

theorem Word.encode_ofNat (b₀ b₁ b₂ b₃ : UInt8) :
    encode (UInt32.ofNat (b₀.toNat + 2 ^ 8 * b₁.toNat + 2 ^ 16 * b₂.toNat + 2 ^ 24 * b₃.toNat)) =
      [b₀, b₁, b₂, b₃] := by
  have bound₀ : b₀.toNat < 2 ^ 8 := b₀.toNat_lt
  have bound₁ : b₁.toNat < 2 ^ 8 := b₁.toNat_lt
  have bound₂ : b₂.toNat < 2 ^ 8 := b₂.toNat_lt
  have bound₃ : b₃.toNat < 2 ^ 8 := b₃.toNat_lt
  simp only [encode, List.cons.injEq, and_true, ← UInt8.toNat_inj, UInt8.toNat_ofNat',
    UInt32.toNat_ofNat']
  omega

section

variable {d : Bytes} {o : Nat}

theorem encode_of_word? {w : UInt32} (h : word? d o = some w) :
    Word.encode w = (d.drop o).take 4 := by
  simp only [word?, Option.bind_eq_bind, Option.bind_eq_some_iff, Option.some.injEq] at h
  obtain ⟨b₀, h₀, b₁, h₁, b₂, h₂, b₃, h₃, rfl⟩ := h
  obtain ⟨h_lt, h_last⟩ := List.getElem?_eq_some_iff.mp h₃
  rw [Word.encode_ofNat]
  refine List.ext_getElem? fun k => ?_
  rcases k with _ | _ | _ | _ | k
  · simp [h₀]
  · simp [h₁]
  · simp [h₂]
  · simp [h₃]
  · exact (List.getElem?_take_eq_none (by omega)).symm

/-- Two stretches of bytes, the one behind the other. -/
theorem slice_append (d : Bytes) (o m n : Nat) :
    (d.drop o).take m ++ (d.drop (o + m)).take n = (d.drop o).take (m + n) := by
  rw [List.take_add, List.drop_drop]

/-- A reader that wants a number of bytes fails if there are less, and only then. -/
theorem eq_none_iff_lt {α : Type} {read : Option α} {width length : Nat}
    (h_enough : width ≤ length → ∃ a, read = some a)
    (h_inside : ∀ a, read = some a → width ≤ length) : read = none ↔ length < width := by
  cases read with
  | none =>
    refine iff_of_true rfl (Nat.lt_of_not_le fun h_le => ?_)
    obtain ⟨a, h_read⟩ := h_enough h_le
    cases h_read
  | some a => exact iff_of_false (Option.some_ne_none a) (Nat.not_lt.mpr (h_inside a rfl))

end

/-! ## Directory entries -/

namespace DirectoryEntry

variable {d : Bytes}

theorem decode?_eq_at? (d : Bytes) : decode? d = at? d 0 :=
  decode?_drop d 0

theorem decode?_eq_none_iff : decode? d = none ↔ d.length < 12 := by
  rw [decode?_eq_at?]
  refine eq_none_iff_lt (fun h_le => exists_at? (by omega)) fun e h_at => ?_
  have h_inside := le_length_of_at? h_at
  omega

theorem encode_of_at? {e : DirectoryEntry} (h : at? d 0 = some e) : e.encode = d.take 12 := by
  simp only [at?, Option.bind_eq_bind, Option.bind_eq_some_iff, Option.some.injEq] at h
  obtain ⟨_, h_identifier, _, h_offset, _, h_size, rfl⟩ := h
  rw [encode, encode_of_word? h_identifier, encode_of_word? h_offset, encode_of_word? h_size,
    slice_append, slice_append]
  rfl

end DirectoryEntry

/-! ## Headers -/

namespace RootHeader

variable {d : Bytes}

theorem decode?_eq_at? (d : Bytes) : decode? d = at? d 0 :=
  decode?_drop d 0

theorem decode?_eq_none_iff : decode? d = none ↔ d.length < 40 := by
  rw [decode?_eq_at?]
  refine eq_none_iff_lt (fun h_le => exists_at? (by omega)) fun h h_at => ?_
  have h_inside := le_length_of_at? h_at
  omega

theorem encode_of_at? {h : RootHeader} (h_at : at? d 0 = some h) :
    h.encode = d.take 12 ++ [0, 0, 0, 0] ++ (d.drop 16).take 24 := by
  simp only [at?, Option.bind_eq_bind, Option.bind_eq_some_iff, Option.some.injEq] at h_at
  obtain ⟨_, h_signature, _, h_version, _, h_update, _, -, _, h_control, _, h_start, _, h_size, _,
    h_copies, _, h_entry, _, h_boot, rfl⟩ := h_at
  have h_front : (d.drop 0).take 4 ++ ((d.drop 4).take 4 ++ (d.drop 8).take 4) = d.take 12 := by
    rw [slice_append, slice_append]
    rfl
  rw [encode]
  simp only [List.flatMap_cons, List.flatMap_nil, List.append_nil, encode_of_word? h_signature,
    encode_of_word? h_version, encode_of_word? h_update, encode_of_word? h_control,
    encode_of_word? h_start, encode_of_word? h_size, encode_of_word? h_copies,
    encode_of_word? h_entry, encode_of_word? h_boot]
  rw [slice_append d 32, slice_append d 28, slice_append d 24, slice_append d 20,
    slice_append d 16, ← h_front, List.append_assoc, List.append_assoc, List.append_assoc]
  rfl

end RootHeader

/-! ## Names -/

/-- A field holds a name by the rules: up to its first zero there is text of at most
fifteen bytes, and from there on there are only zeros. -/
structure NameField.Proper (field : Bytes) : Prop where
  text : ∃ name, field.takeWhile (· != 0) = Utf8.encode name
  fits : (field.takeWhile (· != 0)).length ≤ 15
  padded : ∀ b ∈ field.dropWhile (· != 0), b = 0

theorem NameField.encode_decode {field : Bytes} (proper : Proper field)
    (h_width : field.length = 16) : encode (decode field) = field := by
  obtain ⟨name, h_text⟩ := proper.text
  have h_parts : Utf8.encode name ++ field.dropWhile (· != 0) = field := by
    rw [← h_text, List.takeWhile_append_dropWhile]
  have h_kept : (Utf8.encode name).take (width - 1) = Utf8.encode name :=
    List.take_of_length_le (h_text ▸ proper.fits)
  have h_zeros : width - (Utf8.encode name).length = (field.dropWhile (· != 0)).length := by
    have h_length := congrArg List.length h_parts
    rw [List.length_append, h_width] at h_length
    rw [width]
    omega
  rw [decode, h_text, Utf8.decodeLossy_encode, encode, h_kept, h_zeros,
    ← List.eq_replicate_of_mem proper.padded, h_parts]

/-! ## Camera information -/

namespace CameraInfo

variable {d : Bytes}

theorem decode?_eq_at? (d : Bytes) : decode? d = at? d 0 :=
  decode?_drop d 0

theorem decode?_eq_none_iff : decode? d = none ↔ d.length < 60 := by
  rw [decode?_eq_at?]
  refine eq_none_iff_lt (fun h_le => exists_at? (by omega)) fun i h_at => ?_
  have h_inside := le_length_of_at? h_at
  omega

/-- The places of the three name fields. -/
def nameOffsets : List Nat := [4, 20, 36]

theorem encode_of_at? {i : CameraInfo} (h : at? d 0 = some i)
    (proper : ∀ o ∈ nameOffsets, NameField.Proper ((d.drop o).take 16)) :
    i.encode = d.take 60 := by
  have h_inside := le_length_of_at? h
  have h_name : ∀ o ∈ nameOffsets,
      NameField.encode (NameField.decode ((d.drop o).take 16)) = (d.drop o).take 16 := by
    intro o h_mem
    refine NameField.encode_decode (proper o h_mem) ?_
    have h_le : ∀ o ∈ nameOffsets, o ≤ 36 := by decide
    have h_place := h_le o h_mem
    rw [List.length_take, List.length_drop]
    omega
  simp only [at?, Option.bind_eq_bind, Option.bind_eq_some_iff, Option.some.injEq,
    range?_eq_some_iff] at h
  obtain ⟨_, h_version, _, ⟨-, rfl⟩, _, ⟨-, rfl⟩, _, ⟨-, rfl⟩, _, h_count, _, h_interfaces,
    rfl⟩ := h
  rw [encode, encode_of_word? h_version, encode_of_word? h_count, encode_of_word? h_interfaces,
    h_name 4 (by decide), h_name 20 (by decide), h_name 36 (by decide)]
  rw [slice_append, slice_append, slice_append, slice_append, slice_append]
  rfl

end CameraInfo

/-- Records are read back from their bytes, whatever follows; only too few bytes are no
record, and what has been read is written back as it stood. -/
theorem records_roundTrip :
    ((∀ (e : DirectoryEntry) (s : Bytes), DirectoryEntry.decode? (e.encode ++ s) = some e) ∧
      ∀ d : Bytes, (DirectoryEntry.decode? d = none ↔ d.length < 12) ∧
        ∀ e, DirectoryEntry.decode? d = some e → e.encode = d.take 12) ∧
    ((∀ (h : RootHeader) (s : Bytes),
        RootHeader.decode? (h.encode ++ s) = some { h with crc := 0 }) ∧
      ∀ d : Bytes, (RootHeader.decode? d = none ↔ d.length < 40) ∧
        ∀ h, RootHeader.decode? d = some h →
          h.encode = d.take 12 ++ [0, 0, 0, 0] ++ (d.drop 16).take 24) ∧
    (∀ (i : CameraInfo) (s : Bytes), NameField.Fits i.vendorName → NameField.Fits i.modelName →
        NameField.Fits i.driverVersion → CameraInfo.decode? (i.encode ++ s) = some i) ∧
    ∀ d : Bytes, (CameraInfo.decode? d = none ↔ d.length < 60) ∧
      ∀ i, CameraInfo.decode? d = some i →
        (∀ o ∈ CameraInfo.nameOffsets, NameField.Proper ((d.drop o).take 16)) →
          i.encode = d.take 60 := by
  refine ⟨⟨DirectoryEntry.decode?_encode_append, fun d => ?_⟩,
    ⟨RootHeader.decode?_encode_append, fun d => ?_⟩, fun i s vendor model driver => ?_, fun d => ?_⟩
  · refine ⟨DirectoryEntry.decode?_eq_none_iff, fun e h_decode => ?_⟩
    exact DirectoryEntry.encode_of_at? (DirectoryEntry.decode?_eq_at? d ▸ h_decode)
  · refine ⟨RootHeader.decode?_eq_none_iff, fun h h_decode => ?_⟩
    exact RootHeader.encode_of_at? (RootHeader.decode?_eq_at? d ▸ h_decode)
  · rw [CameraInfo.decode?_encode_append, CameraInfo.stored_eq vendor model driver]
  · refine ⟨CameraInfo.decode?_eq_none_iff, fun i h_decode proper => ?_⟩
    exact CameraInfo.encode_of_at? (CameraInfo.decode?_eq_at? d ▸ h_decode) proper

/-- A header with a checksum, and a camera with a name that fills its field, one with a
character of two bytes and one of no characters. -/
theorem records_roundTrip_mixed :
    let header : Bytes := (List.range 41).map UInt8.ofNat
    let info : CameraInfo :=
      { vendorName := "0123456789abcde", modelName := "Straße", driverVersion := "",
        interfaces := 5 }
    (RootHeader.decode? header).map RootHeader.encode =
        some (header.take 12 ++ [0, 0, 0, 0] ++ (header.drop 16).take 24) ∧
      CameraInfo.decode? (info.encode ++ [9]) = some info ∧
      (∀ o ∈ CameraInfo.nameOffsets, NameField.Proper (((info.encode ++ [9]).drop o).take 16)) ∧
      info.encode = (info.encode ++ [9]).take 60 := by
  intro header info
  obtain ⟨-, ⟨-, headers⟩, infos, fields⟩ := records_roundTrip
  have h_info : CameraInfo.decode? (info.encode ++ [9]) = some info :=
    infos info [9] (by decide) (by decide) (by decide)
  have proper : ∀ o ∈ CameraInfo.nameOffsets,
      NameField.Proper (((info.encode ++ [9]).drop o).take 16) := by
    simp only [CameraInfo.nameOffsets, List.forall_mem_cons]
    refine ⟨⟨⟨"0123456789abcde", ?_⟩, ?_, ?_⟩, ⟨⟨"Straße", ?_⟩, ?_, ?_⟩, ⟨⟨"", ?_⟩, ?_, ?_⟩, nofun⟩
    all_goals decide +kernel
  refine ⟨?_, h_info, proper, (fields (info.encode ++ [9])).2 info h_info proper⟩
  cases h_header : RootHeader.decode? header with
  | none => exact absurd ((headers header).1.mp h_header) (by decide)
  | some h => rw [Option.map_some, (headers header).2 h h_header]

end FlashImage
