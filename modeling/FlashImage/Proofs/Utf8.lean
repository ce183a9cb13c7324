import FlashImage.Bytes.Utf8
import Mathlib.Data.List.Basic

/-!
# Text read back

A character is written as one piece, so text is read back as it was written,
whatever is made of broken pieces.
-/

namespace FlashImage.Utf8

/-! ## Bytes of a character -/

theorem toNat_byte {n : Nat} (h : n < 0x100) : (UInt8.ofNat n).toNat = n := by
  rw [UInt8.toNat_ofNat']
  exact Nat.mod_eq_of_lt h

theorem within_ofNat {low high n : Nat} (h_low : low ≤ n) (h_high : n ≤ high) (h : high < 0x100) :
    within low high (UInt8.ofNat n) = true := by
  rw [within, toNat_byte (Nat.lt_of_le_of_lt h_high h)]
  simp only [h_low, h_high, decide_true, Bool.and_self]

theorem payload_ofNat {n : Nat} (h : n < 0x40) : payload (UInt8.ofNat (n + 0x80)) = n := by
  rw [payload, toNat_byte (by omega)]
  omega

theorem next_ofNat {n : Nat} (h : n < 0x40) : within 0x80 0xBF (UInt8.ofNat (n + 0x80)) = true :=
  within_ofNat (by omega) (by omega) (by omega)

theorem piece_one {v : Nat} (h : v ≤ 0x7F) (rest : Bytes) :
    piece (UInt8.ofNat v) rest = (.char (Char.ofNat v), 0) := by
  unfold piece
  rw [toNat_byte (by omega)]
  exact if_pos (by omega)

theorem piece_two {v : Nat} (h_low : 0x7F < v) (h_high : v ≤ 0x7FF) (rest : Bytes) :
    piece (UInt8.ofNat (v / 64 % 32 + 192)) (UInt8.ofNat (v % 64 + 128) :: rest) =
      (.char (Char.ofNat v), 1) := by
  have h_value : (v / 64 % 32 + 192 - 0xC0) * 0x40 + v % 64 = v := by omega
  unfold piece
  dsimp only
  rw [toNat_byte (by omega), if_neg (by omega), if_pos (by omega),
    next_ofNat (Nat.mod_lt _ (by decide)), if_pos rfl, payload_ofNat (Nat.mod_lt _ (by decide)),
    h_value]

theorem piece_three {v : Nat} (h_low : 0x7FF < v) (h_high : v ≤ 0xFFFF)
    (valid : v < 0xD800 ∨ 0xDFFF < v) (rest : Bytes) :
    piece (UInt8.ofNat (v / 4096 % 16 + 224))
      (UInt8.ofNat (v / 64 % 64 + 128) :: UInt8.ofNat (v % 64 + 128) :: rest) =
      (.char (Char.ofNat v), 2) := by
  have h_value : (v / 4096 % 16 + 224 - 0xE0) * 0x1000 + v / 64 % 64 * 0x40 + v % 64 = v := by
    omega
  -- the narrower ranges leave out the overlong sequences and the surrogates
  have h_second : within (secondRange (v / 4096 % 16 + 224)).1 (secondRange (v / 4096 % 16 + 224)).2
      (UInt8.ofNat (v / 64 % 64 + 128)) = true := by
    unfold secondRange
    split
    · exact within_ofNat (by omega) (by omega) (by omega)
    · split
      · exact within_ofNat (by omega) (by omega) (by omega)
      · rw [if_neg (by omega), if_neg (by omega)]
        exact next_ofNat (Nat.mod_lt _ (by decide))
  unfold piece
  dsimp only
  rw [toNat_byte (by omega), if_neg (by omega), if_neg (by omega), if_pos (by omega), h_second,
    if_pos rfl, next_ofNat (Nat.mod_lt _ (by decide)), if_pos rfl,
    payload_ofNat (Nat.mod_lt _ (by decide)), payload_ofNat (Nat.mod_lt _ (by decide)), h_value]

theorem piece_four {v : Nat} (h_low : 0xFFFF < v) (h_high : v < 0x110000) (rest : Bytes) :
    piece (UInt8.ofNat (v / 262144 % 8 + 240))
      (UInt8.ofNat (v / 4096 % 64 + 128) :: UInt8.ofNat (v / 64 % 64 + 128) ::
        UInt8.ofNat (v % 64 + 128) :: rest) =
      (.char (Char.ofNat v), 3) := by
  have h_value : (v / 262144 % 8 + 240 - 0xF0) * 0x40000 + v / 4096 % 64 * 0x1000 +
      v / 64 % 64 * 0x40 + v % 64 = v := by
    omega
  have h_second : within (secondRange (v / 262144 % 8 + 240)).1
      (secondRange (v / 262144 % 8 + 240)).2 (UInt8.ofNat (v / 4096 % 64 + 128)) = true := by
    unfold secondRange
    rw [if_neg (by omega), if_neg (by omega)]
    split
    · exact within_ofNat (by omega) (by omega) (by omega)
    · split
      · exact within_ofNat (by omega) (by omega) (by omega)
      · exact next_ofNat (Nat.mod_lt _ (by decide))
  unfold piece
  dsimp only
  rw [toNat_byte (by omega), if_neg (by omega), if_neg (by omega), if_neg (by omega),
    if_pos (by omega), h_second, if_pos rfl, next_ofNat (Nat.mod_lt _ (by decide)), if_pos rfl,
    next_ofNat (Nat.mod_lt _ (by decide)), if_pos rfl,
    payload_ofNat (Nat.mod_lt _ (by decide)), payload_ofNat (Nat.mod_lt _ (by decide)),
    payload_ofNat (Nat.mod_lt _ (by decide)), h_value]

/-! ## Texts -/

theorem pieces_cons {lead : UInt8} {rest : Bytes} {p : Piece} {n : Nat}
    (h : piece lead rest = (p, n)) : pieces (lead :: rest) = p :: pieces (rest.drop n) := by
  rw [pieces, h]

/-- The first byte of a character tells how many more belong to it. -/
theorem exists_utf8EncodeChar_eq (c : Char) :
    ∃ lead tail, String.utf8EncodeChar c = lead :: tail ∧
      ∀ rest, piece lead (tail ++ rest) = (.char c, tail.length) := by
  have h_char : Char.ofNat c.val.toNat = c := Char.ofNat_toNat c
  have valid : c.val.toNat < 0xD800 ∨ 0xDFFF < c.val.toNat ∧ c.val.toNat < 0x110000 := c.valid
  unfold String.utf8EncodeChar
  dsimp only
  split
  next h_one =>
    refine ⟨_, _, rfl, fun rest => ?_⟩
    have h_piece := piece_one h_one rest
    rw [h_char] at h_piece
    exact h_piece
  next h_one =>
  split
  next h_two =>
    refine ⟨_, _, rfl, fun rest => ?_⟩
    have h_piece := piece_two (by omega) h_two rest
    rw [h_char] at h_piece
    exact h_piece
  next h_two =>
  split
  next h_three =>
    refine ⟨_, _, rfl, fun rest => ?_⟩
    have h_piece := piece_three (by omega) h_three (by omega) rest
    rw [h_char] at h_piece
    exact h_piece
  next h_three =>
    refine ⟨_, _, rfl, fun rest => ?_⟩
    have h_piece := piece_four (by omega) (by omega : c.val.toNat < 0x110000) rest
    rw [h_char] at h_piece
    exact h_piece

theorem pieces_utf8EncodeChar_append (c : Char) (rest : Bytes) :
    pieces (String.utf8EncodeChar c ++ rest) = .char c :: pieces rest := by
  obtain ⟨lead, tail, h_bytes, h_piece⟩ := exists_utf8EncodeChar_eq c
  rw [h_bytes, List.cons_append, pieces_cons (h_piece rest), List.drop_left]

theorem pieces_encode (s : String) : pieces (encode s) = s.toList.map Piece.char := by
  unfold encode
  induction s.toList with
  | nil => rw [List.flatMap_nil, pieces]; rfl
  | cons c cs ih => rw [List.flatMap_cons, pieces_utf8EncodeChar_append, ih]; rfl

theorem decodeLossy_encode (s : String) : decodeLossy (encode s) = s := by
  rw [decodeLossy, pieces_encode, List.map_map]
  exact (congrArg String.ofList (List.map_id _)).trans String.ofList_toList

theorem length_encode (s : String) : (encode s).length = s.utf8ByteSize := by
  conv_rhs => rw [← String.ofList_toList (s := s)]
  rw [String.utf8ByteSize, String.toByteArray_ofList, List.utf8Encode, List.size_toByteArray]
  rfl

/-! ## Cut texts -/

section

variable {lead : UInt8} {rest : Bytes} {c : Char} {k n : Nat}

theorem piece_take_two (h_lead : 0xC2 ≤ lead.toNat ∧ lead.toNat ≤ 0xDF)
    (h_piece : piece lead rest = (.char c, k)) (h_lt : n < k) :
    piece lead (rest.take n) = (.broken, n) := by
  have h_one : ¬ lead.toNat < 0x80 := by omega
  simp only [piece, h_one, h_lead, and_self, if_true, if_false] at h_piece ⊢
  split at h_piece
  · split at h_piece
    · cases h_piece
      obtain rfl : n = 0 := by omega
      rfl
    · cases h_piece
  · cases h_piece

theorem piece_take_three (h_lead : 0xE0 ≤ lead.toNat ∧ lead.toNat ≤ 0xEF)
    (h_piece : piece lead rest = (.char c, k)) (h_lt : n < k) :
    piece lead (rest.take n) = (.broken, n) := by
  have h_one : ¬ lead.toNat < 0x80 := by omega
  have h_two : ¬ lead.toNat ≤ 0xDF := by omega
  simp only [piece, h_one, h_two, h_lead, and_self, and_false, if_true, if_false] at h_piece ⊢
  split at h_piece
  · split at h_piece
    next h_second =>
      split at h_piece
      · cases h_piece
        obtain rfl | rfl : n = 0 ∨ n = 1 := by omega
        · rfl
        · simp [h_second]
      · cases h_piece
    · cases h_piece
  · cases h_piece
  · cases h_piece

theorem piece_take_four (h_lead : 0xF0 ≤ lead.toNat ∧ lead.toNat ≤ 0xF4)
    (h_piece : piece lead rest = (.char c, k)) (h_lt : n < k) :
    piece lead (rest.take n) = (.broken, n) := by
  have h_one : ¬ lead.toNat < 0x80 := by omega
  have h_two : ¬ lead.toNat ≤ 0xDF := by omega
  have h_three : ¬ lead.toNat ≤ 0xEF := by omega
  simp only [piece, h_one, h_two, h_three, h_lead, and_self, and_false, if_true, if_false]
    at h_piece ⊢
  split at h_piece
  · split at h_piece
    next h_second =>
      split at h_piece
      next h_third =>
        split at h_piece
        · cases h_piece
          obtain rfl | rfl | rfl : n = 0 ∨ n = 1 ∨ n = 2 := by omega
          · rfl
          · simp [h_second]
          · simp [h_second, h_third]
        · cases h_piece
      · cases h_piece
    · cases h_piece
  · cases h_piece
  · cases h_piece
  · cases h_piece

/-- A character that has been cut off is a single broken piece: the bytes that are left have
passed the tests in front of the one that is missing. -/
theorem piece_take (h_piece : piece lead rest = (.char c, k)) (h_lt : n < k) :
    piece lead (rest.take n) = (.broken, n) := by
  by_cases h_two : 0xC2 ≤ lead.toNat ∧ lead.toNat ≤ 0xDF
  · exact piece_take_two h_two h_piece h_lt
  by_cases h_three : 0xE0 ≤ lead.toNat ∧ lead.toNat ≤ 0xEF
  · exact piece_take_three h_three h_piece h_lt
  by_cases h_four : 0xF0 ≤ lead.toNat ∧ lead.toNat ≤ 0xF4
  · exact piece_take_four h_four h_piece h_lt
  simp only [piece, h_two, h_three, h_four, if_false] at h_piece
  split at h_piece
  · cases h_piece
    omega
  · cases h_piece

end

theorem pieces_take_utf8EncodeChar {c : Char} {n : Nat} (h_pos : 0 < n) (h_lt : n < c.utf8Size) :
    pieces ((String.utf8EncodeChar c).take n) = [.broken] := by
  obtain ⟨lead, tail, h_bytes, h_piece⟩ := exists_utf8EncodeChar_eq c
  obtain ⟨n, rfl⟩ := Nat.exists_eq_succ_of_ne_zero (Nat.ne_of_gt h_pos)
  have h_length : c.utf8Size = tail.length + 1 := by
    rw [← String.length_utf8EncodeChar, h_bytes, List.length_cons]
  have h_cut := piece_take (h_piece []) (n := n) (by omega)
  rw [List.append_nil] at h_cut
  rw [h_bytes, List.take_succ_cons, pieces_cons h_cut, List.drop_take_self, pieces]

/-- The number of bytes that a text takes up. -/
def size : List Char → Nat
  | [] => 0
  | c :: text => c.utf8Size + size text

@[simp] theorem size_nil : size [] = 0 := rfl

@[simp] theorem size_cons (c : Char) (text : List Char) :
    size (c :: text) = c.utf8Size + size text := rfl

@[simp] theorem size_append (front rest : List Char) :
    size (front ++ rest) = size front + size rest := by
  induction front with
  | nil => simp
  | cons c front ih => simp [ih, Nat.add_assoc]

/-- The first `n` bytes of a text are as many characters as fit in them, and one broken
piece if the cut falls inside the next character. -/
theorem exists_pieces_take (n : Nat) (text : List Char) :
    ∃ front rest, text = front ++ rest ∧ size front ≤ n ∧
      (∀ c ∈ rest.head?, n < size front + c.utf8Size) ∧
      pieces ((text.flatMap String.utf8EncodeChar).take n) =
        front.map .char ++ if rest = [] ∨ size front = n then [] else [.broken] := by
  induction text generalizing n with
  | nil => exact ⟨[], [], rfl, Nat.zero_le n, nofun, by simp [pieces]⟩
  | cons c text ih =>
    have h_length : (String.utf8EncodeChar c).length = c.utf8Size := String.length_utf8EncodeChar c
    by_cases h_fits : c.utf8Size ≤ n
    · obtain ⟨front, rest, rfl, h_front, h_next, h_pieces⟩ := ih (n - c.utf8Size)
      refine ⟨c :: front, rest, rfl, ?_, fun d h_mem => ?_, ?_⟩
      · rw [size_cons]
        omega
      · have h_over := h_next d h_mem
        rw [size_cons]
        omega
      · have h_whole : size (c :: front) = n ↔ size front = n - c.utf8Size := by
          rw [size_cons]
          omega
        rw [List.flatMap_cons, List.take_append, h_length,
          List.take_of_length_le (Nat.le_trans (Nat.le_of_eq h_length) h_fits),
          pieces_utf8EncodeChar_append, h_pieces]
        simp only [h_whole, List.map_cons, List.cons_append]
    · have h_lt : n < c.utf8Size := Nat.lt_of_not_le h_fits
      refine ⟨[], c :: text, rfl, Nat.zero_le n, fun d h_mem => ?_, ?_⟩
      · obtain rfl : c = d := Option.some.inj h_mem
        simpa using h_lt
      · rw [List.flatMap_cons, List.take_append_of_le_length (h_length ▸ Nat.le_of_lt h_lt)]
        by_cases h_zero : n = 0
        · simp [h_zero, pieces]
        · rw [pieces_take_utf8EncodeChar (Nat.pos_of_ne_zero h_zero) h_lt]
          simp [Ne.symm h_zero]

/-! ## Zero bytes -/

theorem ofNat_ne_zero {n : Nat} (h_pos : 0 < n) (h : n < 0x100) : 0 ≠ UInt8.ofNat n := by
  intro h_eq
  have h_zero := congrArg UInt8.toNat h_eq
  rw [toNat_byte h] at h_zero
  exact Nat.ne_of_gt h_pos h_zero.symm

theorem zero_notMem_utf8EncodeChar {c : Char} (h : c ≠ '\x00') : 0 ∉ String.utf8EncodeChar c := by
  have h_pos : 0 < c.val.toNat := by
    refine Nat.pos_of_ne_zero fun h_zero => h ?_
    rw [← Char.ofNat_toNat c, Char.toNat, h_zero]
  unfold String.utf8EncodeChar
  dsimp only
  split
  · rw [List.mem_singleton]
    exact ofNat_ne_zero h_pos (by omega)
  · split
    · simp only [List.mem_cons, List.not_mem_nil, or_false, not_or]
      refine ⟨?_, ?_⟩ <;> exact ofNat_ne_zero (by omega) (by omega)
    · split
      · simp only [List.mem_cons, List.not_mem_nil, or_false, not_or]
        refine ⟨?_, ?_, ?_⟩ <;> exact ofNat_ne_zero (by omega) (by omega)
      · simp only [List.mem_cons, List.not_mem_nil, or_false, not_or]
        refine ⟨?_, ?_, ?_, ?_⟩ <;> exact ofNat_ne_zero (by omega) (by omega)

theorem zero_notMem_encode {s : String} (h : '\x00' ∉ s.toList) : 0 ∉ encode s := by
  rw [encode, List.mem_flatMap]
  rintro ⟨c, h_mem, h_zero⟩
  exact zero_notMem_utf8EncodeChar (ne_of_mem_of_not_mem h_mem h) h_zero

/-- A zero byte stands where the first zero character does. -/
theorem takeWhile_flatMap_utf8EncodeChar (text : List Char) :
    (text.flatMap String.utf8EncodeChar).takeWhile (· != 0) =
      (text.takeWhile (· ≠ '\x00')).flatMap String.utf8EncodeChar := by
  induction text with
  | nil => rfl
  | cons c text ih =>
    by_cases h_zero : c = '\x00'
    · subst h_zero
      rfl
    · have h_bytes : ∀ b ∈ String.utf8EncodeChar c, (b != 0) = true := fun b h_mem =>
        bne_iff_ne.mpr (ne_of_mem_of_not_mem h_mem (zero_notMem_utf8EncodeChar h_zero))
      rw [List.flatMap_cons, List.takeWhile_append_of_pos h_bytes, ih]
      simp [h_zero]

end FlashImage.Utf8
