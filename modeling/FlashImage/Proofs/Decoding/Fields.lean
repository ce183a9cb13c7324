import FlashImage.Proofs.Codec
import Mathlib.Data.List.Basic

/-!
# Fields at their places

The records of a file, each field read byte by byte from where it stands.  A field
has no value unless all of its bytes are there, so what these readers find never
comes from outside a file.

* `DirectoryEntry.decodeMany_eq`: a directory is its entries, every twelve bytes one.
-/

namespace FlashImage

/-! ## Words -/

/-- The word at an offset, least significant byte first. -/
def word? (d : Bytes) (o : Nat) : Option UInt32 := do
  let b₀ ← d[o]?
  let b₁ ← d[o + 1]?
  let b₂ ← d[o + 2]?
  let b₃ ← d[o + 3]?
  some (UInt32.ofNat (b₀.toNat + 2 ^ 8 * b₁.toNat + 2 ^ 16 * b₂.toNat + 2 ^ 24 * b₃.toNat))

/-- The `n` bytes from an offset; of no bytes there may be none behind the offset. -/
def range? (d : Bytes) (o n : Nat) : Option Bytes :=
  if o + n ≤ d.length then some ((d.drop o).take n) else none

variable {d : Bytes} {o n : Nat}

theorem range?_eq_some_iff {bytes : Bytes} :
    range? d o n = some bytes ↔ o + n ≤ d.length ∧ (d.drop o).take n = bytes := by
  simp [range?]

theorem range?_eq_none_iff : range? d o n = none ↔ d.length < o + n := by
  simp [range?]

theorem range?_take {k : Nat} (h : o + n ≤ k) : range? (d.take k) o n = range? d o n := by
  have h_length : o + n ≤ min k d.length ↔ o + n ≤ d.length := by omega
  have h_field : ((d.take k).drop o).take n = (d.drop o).take n := by
    rw [List.drop_take, List.take_take, Nat.min_eq_left (by omega)]
  simp only [range?, List.length_take, h_length, h_field]

theorem word?_drop (d : Bytes) (n o : Nat) : word? (d.drop n) o = word? d (n + o) := by
  simp only [word?, List.getElem?_drop, Nat.add_assoc]

theorem word?_take (h : o + 4 ≤ n) : word? (d.take n) o = word? d o := by
  simp only [word?, List.getElem?_take]
  rw [if_pos (by omega), if_pos (by omega), if_pos (by omega), if_pos (by omega)]

theorem exists_word? (h : o + 4 ≤ d.length) : ∃ w, word? d o = some w := by
  simp only [word?]
  rw [List.getElem?_eq_getElem (by omega), List.getElem?_eq_getElem (by omega),
    List.getElem?_eq_getElem (by omega), List.getElem?_eq_getElem (by omega)]
  exact ⟨_, rfl⟩

theorem le_length_of_word? {w : UInt32} (h : word? d o = some w) : o + 4 ≤ d.length := by
  simp only [word?, Option.bind_eq_bind, Option.bind_eq_some_iff] at h
  obtain ⟨-, -, -, -, -, -, b₃, h_last, -⟩ := h
  obtain ⟨h_lt, -⟩ := List.getElem?_eq_some_iff.mp h_last
  omega

/-- A reader that takes a word off the rest of the bytes reads the word at its place. -/
theorem read?_drop_bind {α : Type} (d : Bytes) (o : Nat) (f : UInt32 × Bytes → Option α) :
    (Word.read? (d.drop o)).bind f = (word? d o).bind fun w => f (w, d.drop (o + 4)) := by
  have h_read : Word.read? (d.drop o) =
      (word? (d.drop o) 0).map fun w => (w, (d.drop o).drop 4) := by
    match d.drop o with
    | [] | [_] | [_, _] | [_, _, _] => rfl
    | _ :: _ :: _ :: _ :: _ => rfl
  rw [h_read, word?_drop, List.drop_drop, Option.bind_map]
  rfl

/-! ## Directory entries -/

namespace DirectoryEntry

def at? (d : Bytes) (o : Nat) : Option DirectoryEntry := do
  let identifier ← word? d o
  let offset ← word? d (o + 4)
  let size ← word? d (o + 8)
  some ⟨identifier, offset, size⟩

theorem decode?_drop (d : Bytes) (o : Nat) : decode? (d.drop o) = at? d o := by
  simp only [decode?, at?, Option.bind_eq_bind, read?_drop_bind, Nat.add_assoc, Nat.reduceAdd]

theorem at?_drop (d : Bytes) (n o : Nat) : at? (d.drop n) o = at? d (n + o) := by
  rw [← decode?_drop, List.drop_drop, decode?_drop]

theorem at?_take (h : o + 12 ≤ n) : at? (d.take n) o = at? d o := by
  rw [at?, word?_take (by omega), word?_take (by omega), word?_take (by omega), at?]

theorem decode?_slice (h : 12 ≤ n) (d : Bytes) (o : Nat) :
    decode? ((d.drop o).take n) = at? d o := by
  rw [← List.drop_zero (l := (d.drop o).take n), decode?_drop, at?_take (by omega), at?_drop]
  rfl

theorem exists_at? (h : o + 12 ≤ d.length) : ∃ e, at? d o = some e := by
  obtain ⟨identifier, h_identifier⟩ := exists_word? (d := d) (o := o) (by omega)
  obtain ⟨offset, h_offset⟩ := exists_word? (d := d) (o := o + 4) (by omega)
  obtain ⟨size, h_size⟩ := exists_word? (d := d) (o := o + 8) (by omega)
  exact ⟨⟨identifier, offset, size⟩, by simp [at?, h_identifier, h_offset, h_size]⟩

theorem le_length_of_at? {e : DirectoryEntry} (h : at? d o = some e) : o + 12 ≤ d.length := by
  simp only [at?, Option.bind_eq_bind, Option.bind_eq_some_iff] at h
  obtain ⟨-, -, -, -, size, h_size, -⟩ := h
  exact le_length_of_word? h_size

theorem decodeMany_succ {e : DirectoryEntry} (h : at? d 0 = some e) (n : Nat) :
    decodeMany (n + 1) d = e :: decodeMany n (d.drop 12) := by
  rw [decodeMany, ← List.drop_zero (l := d), decode?_drop, h]
  rfl

theorem decodeMany_at? (h : 12 * n ≤ d.length) :
    (decodeMany n d).length = n ∧ ∀ k < n, at? d (12 * k) = (decodeMany n d)[k]? := by
  induction n generalizing d with
  | zero => exact ⟨rfl, nofun⟩
  | succ n ih =>
    obtain ⟨e, h_first⟩ := exists_at? (d := d) (o := 0) (by omega)
    obtain ⟨h_length, h_rest⟩ := ih (d := d.drop 12) (by rw [List.length_drop]; omega)
    rw [decodeMany_succ h_first]
    refine ⟨by rw [List.length_cons, h_length], fun k h_lt => ?_⟩
    cases k with
    | zero => exact h_first
    | succ k =>
      rw [List.getElem?_cons_succ, ← h_rest k (by omega), at?_drop, Nat.mul_succ, Nat.add_comm]

/-- The entries of a directory of `size` bytes, one in every twelve. -/
structure Listed (d : Bytes) (start size : Nat) (directory : List DirectoryEntry) : Prop where
  length_eq : 12 * directory.length = size
  entry_eq : ∀ k < directory.length, at? d (start + 12 * k) = directory[k]?

theorem decodeMany_eq_iff {start size : Nat} {directory : List DirectoryEntry} (h_whole : 12 ∣ size)
    (h_inside : start + size ≤ d.length) :
    decodeMany (size / 12) ((d.drop start).take size) = directory ↔
      Listed d start size directory := by
  obtain ⟨n, rfl⟩ := h_whole
  have h_length : ((d.drop start).take (12 * n)).length = 12 * n := by
    rw [List.length_take, List.length_drop]
    omega
  obtain ⟨h_count, h_entries⟩ := decodeMany_at? (Nat.le_of_eq h_length.symm)
  have h_at : ∀ k < n, at? ((d.drop start).take (12 * n)) (12 * k) = at? d (start + 12 * k) :=
    fun k h_lt => by rw [at?_take (by omega), at?_drop]
  rw [Nat.mul_div_cancel_left n (by decide)]
  constructor
  · rintro rfl
    refine ⟨by rw [h_count], fun k h_lt => ?_⟩
    rw [h_count] at h_lt
    rw [← h_at k h_lt, h_entries k h_lt]
  · intro listed
    obtain rfl : directory.length = n := Nat.eq_of_mul_eq_mul_left (by decide) listed.length_eq
    refine List.ext_getElem? fun k => ?_
    by_cases h_lt : k < directory.length
    · rw [← h_entries k h_lt, h_at k h_lt, listed.entry_eq k h_lt]
    · rw [List.getElem?_eq_none (by omega), List.getElem?_eq_none (by omega)]

end DirectoryEntry

/-! ## Headers -/

namespace RootHeader

def at? (d : Bytes) (o : Nat) : Option RootHeader := do
  let signature ← word? d o
  let layoutVersion ← word? d (o + 4)
  let updateCount ← word? d (o + 8)
  let crc ← word? d (o + 12)
  let controlField ← word? d (o + 16)
  let startOfDirectory ← word? d (o + 20)
  let sizeOfDirectory ← word? d (o + 24)
  let directoryCopyCount ← word? d (o + 28)
  let directoryEntrySize ← word? d (o + 32)
  let bootIdentifier ← word? d (o + 36)
  some { signature, layoutVersion, updateCount, crc, controlField, startOfDirectory,
         sizeOfDirectory, directoryCopyCount, directoryEntrySize, bootIdentifier }

theorem decode?_drop (d : Bytes) (o : Nat) : decode? (d.drop o) = at? d o := by
  simp only [decode?, at?, Option.bind_eq_bind, read?_drop_bind, Nat.add_assoc, Nat.reduceAdd]

theorem at?_take (h : o + 40 ≤ n) : at? (d.take n) o = at? d o := by
  simp (disch := omega) only [at?, word?_take]

theorem decode?_slice (h : 40 ≤ n) (d : Bytes) (o : Nat) :
    decode? ((d.drop o).take n) = at? d o := by
  rw [← List.drop_zero (l := (d.drop o).take n), decode?_drop, at?_take (by omega),
    ← decode?_drop, List.drop_zero, decode?_drop]

theorem exists_at? (h : o + 40 ≤ d.length) : ∃ r, at? d o = some r := by
  have field : ∀ k ≤ 36, ∃ w, word? d (o + k) = some w := fun k h_le => exists_word? (by omega)
  choose! w h_w using field
  have h_first : word? d o = some (w 0) := h_w 0 (by decide)
  simp [at?, h_first, h_w]

theorem le_length_of_at? {r : RootHeader} (h : at? d o = some r) : o + 40 ≤ d.length := by
  simp only [at?, Option.bind_eq_bind, Option.bind_eq_some_iff] at h
  obtain ⟨-, -, -, -, -, -, -, -, -, -, -, -, -, -, -, -, -, -, w, h_last, -⟩ := h
  exact le_length_of_word? h_last

end RootHeader

/-! ## Camera information -/

/-- A reader that takes bytes off the rest reads them at their place. -/
theorem takeBytes?_drop_bind {α : Type} (h : 0 < n) (d : Bytes) (o : Nat)
    (f : Bytes × Bytes → Option α) :
    (takeBytes? n (d.drop o)).bind f =
      (range? d o n).bind fun field => f (field, d.drop (o + n)) := by
  rw [takeBytes?, range?, List.length_drop, List.drop_drop]
  by_cases h_inside : o + n ≤ d.length
  · rw [if_pos h_inside, if_pos (by omega)]
    rfl
  · rw [if_neg h_inside, if_neg (by omega)]
    rfl

namespace CameraInfo

def at? (d : Bytes) (o : Nat) : Option CameraInfo := do
  let layoutVersion ← word? d o
  let vendor ← range? d (o + 4) 16
  let model ← range? d (o + 20) 16
  let driver ← range? d (o + 36) 16
  let directoryEntryCount ← word? d (o + 52)
  let interfaces ← word? d (o + 56)
  some { layoutVersion, vendorName := NameField.decode vendor, modelName := NameField.decode model,
         driverVersion := NameField.decode driver, directoryEntryCount, interfaces }

theorem decode?_drop (d : Bytes) (o : Nat) : decode? (d.drop o) = at? d o := by
  have h_width : 0 < 16 := by decide
  simp only [decode?, at?, Option.bind_eq_bind, read?_drop_bind, NameField.width,
    takeBytes?_drop_bind h_width, Nat.add_assoc, Nat.reduceAdd]

theorem at?_take (h : o + 60 ≤ n) : at? (d.take n) o = at? d o := by
  simp (disch := omega) only [at?, word?_take, range?_take]

theorem decode?_slice (h : 60 ≤ n) (d : Bytes) (o : Nat) :
    decode? ((d.drop o).take n) = at? d o := by
  rw [← List.drop_zero (l := (d.drop o).take n), decode?_drop, at?_take (by omega),
    ← decode?_drop, List.drop_zero, decode?_drop]

theorem exists_at? (h : o + 60 ≤ d.length) : ∃ i, at? d o = some i := by
  obtain ⟨layoutVersion, h_layout⟩ := exists_word? (d := d) (o := o) (by omega)
  obtain ⟨count, h_count⟩ := exists_word? (d := d) (o := o + 52) (by omega)
  obtain ⟨interfaces, h_interfaces⟩ := exists_word? (d := d) (o := o + 56) (by omega)
  simp only [at?, h_layout, h_count, h_interfaces, range?]
  rw [if_pos (by omega), if_pos (by omega), if_pos (by omega)]
  exact ⟨_, rfl⟩

theorem le_length_of_at? {i : CameraInfo} (h : at? d o = some i) : o + 60 ≤ d.length := by
  simp only [at?, Option.bind_eq_bind, Option.bind_eq_some_iff] at h
  obtain ⟨-, -, -, -, -, -, -, -, -, -, interfaces, h_last, -⟩ := h
  exact le_length_of_word? h_last

end CameraInfo

end FlashImage
