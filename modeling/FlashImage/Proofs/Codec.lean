import FlashImage.Proofs.Utf8
import FlashImage.Record.CameraInfo
import FlashImage.Record.RootHeader
import Mathlib.Algebra.Group.Nat.Defs

/-!
# Reading records back

Every record on flash is a concatenation of little-endian words, so the laws of
the words carry over to the records.

* `CameraInfo.decode?_encode_append`: the basic information record, up to its names.
-/

namespace FlashImage

/-! ## Words -/

namespace Word

@[simp] theorem length_encode (w : UInt32) : (encode w).length = 4 := rfl

theorem ofNat_bytes (w : UInt32) :
    UInt32.ofNat ((UInt8.ofNat w.toNat).toNat + 0x100 * (UInt8.ofNat (w.toNat / 0x100)).toNat +
      0x10000 * (UInt8.ofNat (w.toNat / 0x10000)).toNat +
      0x1000000 * (UInt8.ofNat (w.toNat / 0x1000000)).toNat) = w := by
  have bound : w.toNat < 2 ^ 32 := w.toNat_lt
  apply UInt32.toNat.inj
  simp only [UInt32.toNat_ofNat', UInt8.toNat_ofNat']
  omega

@[simp] theorem read?_encode_append (w : UInt32) (rest : Bytes) :
    read? (encode w ++ rest) = some (w, rest) := by
  simp only [encode, List.cons_append, List.nil_append, read?, ofNat_bytes]

end Word

/-! ## Directory entries -/

namespace DirectoryEntry

@[simp] theorem length_encode (e : DirectoryEntry) : e.encode.length = 12 := rfl

theorem decode?_encode_append (e : DirectoryEntry) (rest : Bytes) :
    decode? (e.encode ++ rest) = some e := by
  simp [decode?, encode, List.append_assoc]

@[simp] theorem length_flatMap_encode (es : List DirectoryEntry) :
    (es.flatMap encode).length = 12 * es.length := by
  induction es with
  | nil => rfl
  | cons e es ih =>
    simp only [List.flatMap_cons, List.length_append, List.length_cons, length_encode, ih]
    omega

theorem decodeMany_flatMap_encode (es : List DirectoryEntry) :
    decodeMany es.length (es.flatMap encode) = es := by
  induction es with
  | nil => rfl
  | cons e es ih =>
    have next : (e.encode ++ es.flatMap encode).drop width = es.flatMap encode := rfl
    simp only [List.flatMap_cons, List.length_cons, decodeMany, decode?_encode_append, next, ih]

end DirectoryEntry

/-! ## Headers -/

namespace RootHeader

@[simp] theorem length_encode (h : RootHeader) : h.encode.length = 40 := rfl

/-- The checksum word is written as zero, and so it is read back. -/
theorem decode?_encode_append (h : RootHeader) (rest : Bytes) :
    decode? (h.encode ++ rest) = some { h with crc := 0 } := by
  simp [decode?, encode, List.append_assoc]

end RootHeader

/-! ## Names -/

namespace NameField

@[simp] theorem length_encode (name : String) : (encode name).length = 16 := by
  have h_kept : ((Utf8.encode name).take (width - 1)).length ≤ width :=
    Nat.le_trans (List.length_take_le _ _) (Nat.sub_le _ _)
  rw [encode, List.length_append, List.length_replicate, Nat.add_sub_cancel' h_kept]
  rfl

/-- A name fits its field if it leaves room for the terminator and does not hold
one itself. -/
def Fits (name : String) : Prop :=
  name.utf8ByteSize ≤ 15 ∧ '\x00' ∉ name.toList

instance (name : String) : Decidable (Fits name) :=
  inferInstanceAs (Decidable (_ ∧ _))

theorem decode_encode {name : String} (fits : Fits name) : decode (encode name) = name := by
  have h_kept : (Utf8.encode name).take (width - 1) = Utf8.encode name := by
    apply List.take_of_length_le
    rw [Utf8.length_encode]
    exact fits.1
  have nonzero : ∀ b ∈ Utf8.encode name, (b != 0) = true := fun b h_mem =>
    bne_iff_ne.mpr (ne_of_mem_of_not_mem h_mem (Utf8.zero_notMem_encode fits.2))
  rw [decode, encode, h_kept, List.takeWhile_append_of_pos nonzero, List.takeWhile_replicate,
    if_neg (by decide), List.append_nil, Utf8.decodeLossy_encode]

@[simp] theorem takeBytes?_encode_append (name : String) (rest : Bytes) :
    takeBytes? width (encode name ++ rest) = some (encode name, rest) := by
  have h_length : width = (encode name).length := (length_encode name).symm
  rw [takeBytes?, List.length_append, ← h_length, if_pos (Nat.le_add_right _ _), h_length,
    List.take_left, List.drop_left]

end NameField

/-! ## Camera information -/

namespace CameraInfo

@[simp] theorem length_encode (i : CameraInfo) : i.encode.length = 60 := by
  simp only [encode, List.length_append, Word.length_encode, NameField.length_encode]

/-- The record as it is read back: its names have been cut to their fields. -/
def stored (i : CameraInfo) : CameraInfo :=
  { i with
    vendorName := NameField.decode (NameField.encode i.vendorName)
    modelName := NameField.decode (NameField.encode i.modelName)
    driverVersion := NameField.decode (NameField.encode i.driverVersion) }

theorem decode?_encode_append (i : CameraInfo) (rest : Bytes) :
    decode? (i.encode ++ rest) = some i.stored := by
  simp [decode?, encode, List.append_assoc, stored]

theorem stored_eq {i : CameraInfo} (vendor : NameField.Fits i.vendorName)
    (model : NameField.Fits i.modelName) (driver : NameField.Fits i.driverVersion) :
    i.stored = i := by
  rw [stored, NameField.decode_encode vendor, NameField.decode_encode model,
    NameField.decode_encode driver]

end CameraInfo

end FlashImage
