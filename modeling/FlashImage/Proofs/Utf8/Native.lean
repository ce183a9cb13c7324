import FlashImage.Bytes.Native
import FlashImage.Proofs.Utf8.Ascii

/-!
# Native texts as text

A byte string is text exactly when it is the encoding of one, and then of no other: the
scan takes a character only where its own bytes stand.

* `NativeText.toString?_eq_some_iff`: which native texts are text.
-/

namespace FlashImage

namespace Utf8

/-! ## One character -/

theorem utf8EncodeChar_ofNat {v : Nat} (valid : v < 0xD800 ∨ 0xDFFF < v ∧ v < 0x110000) :
    String.utf8EncodeChar (Char.ofNat v) =
      if v ≤ 0x7F then [UInt8.ofNat v]
      else if v ≤ 0x7FF then [UInt8.ofNat (v / 64 % 32 + 192), UInt8.ofNat (v % 64 + 128)]
      else if v ≤ 0xFFFF then
        [UInt8.ofNat (v / 4096 % 16 + 224), UInt8.ofNat (v / 64 % 64 + 128),
          UInt8.ofNat (v % 64 + 128)]
      else
        [UInt8.ofNat (v / 262144 % 8 + 240), UInt8.ofNat (v / 4096 % 64 + 128),
          UInt8.ofNat (v / 64 % 64 + 128), UInt8.ofNat (v % 64 + 128)] := by
  have h_value : (Char.ofNat v).val.toNat = v := toNat_ofNat_of_valid valid
  unfold String.utf8EncodeChar
  rw [h_value]

theorem ofNat_eq {b : UInt8} {n : Nat} (h : n = b.toNat) : UInt8.ofNat n = b := by
  rw [h, UInt8.ofNat_toNat]

section

variable {lead : UInt8} {rest : Bytes} {c : Char} {n : Nat}

theorem encode_two (h_lead : 0xC2 ≤ lead.toNat ∧ lead.toNat ≤ 0xDF)
    (h_piece : piece lead rest = (.char c, n)) :
    String.utf8EncodeChar c ++ rest.drop n = lead :: rest := by
  have h_one : ¬ lead.toNat < 0x80 := by omega
  simp only [piece, h_one, h_lead, and_self, if_true, if_false] at h_piece
  split at h_piece
  next second _ =>
    split at h_piece
    next h_next =>
      cases h_piece
      have h_second := within_eq_true_iff.mp h_next
      rw [payload, utf8EncodeChar_ofNat (by omega), if_neg (by omega), if_pos (by omega),
        ofNat_eq (b := lead) (by omega), ofNat_eq (b := second) (by omega)]
      rfl
    · cases h_piece
  · cases h_piece

theorem encode_three (h_lead : 0xE0 ≤ lead.toNat ∧ lead.toNat ≤ 0xEF)
    (h_piece : piece lead rest = (.char c, n)) :
    String.utf8EncodeChar c ++ rest.drop n = lead :: rest := by
  have h_one : ¬ lead.toNat < 0x80 := by omega
  have h_two : ¬ lead.toNat ≤ 0xDF := by omega
  simp only [piece, h_one, h_two, h_lead, and_self, and_false, if_true, if_false] at h_piece
  split at h_piece
  next second third _ =>
    split at h_piece
    next h_first =>
      have h_second := bounds_of_second h_first
      split at h_piece
      next h_next =>
        cases h_piece
        have h_third := within_eq_true_iff.mp h_next
        rw [payload, payload, utf8EncodeChar_ofNat (by omega), if_neg (by omega),
          if_neg (by omega), if_pos (by omega), ofNat_eq (b := lead) (by omega),
          ofNat_eq (b := second) (by omega), ofNat_eq (b := third) (by omega)]
        rfl
      · cases h_piece
    · cases h_piece
  · cases h_piece
  · cases h_piece

theorem encode_four (h_lead : 0xF0 ≤ lead.toNat ∧ lead.toNat ≤ 0xF4)
    (h_piece : piece lead rest = (.char c, n)) :
    String.utf8EncodeChar c ++ rest.drop n = lead :: rest := by
  have h_one : ¬ lead.toNat < 0x80 := by omega
  have h_two : ¬ lead.toNat ≤ 0xDF := by omega
  have h_three : ¬ lead.toNat ≤ 0xEF := by omega
  simp only [piece, h_one, h_two, h_three, h_lead, and_self, and_false, if_true,
    if_false] at h_piece
  split at h_piece
  next second third fourth _ =>
    split at h_piece
    next h_first =>
      have h_second := bounds_of_second h_first
      split at h_piece
      next h_next =>
        have h_third := within_eq_true_iff.mp h_next
        split at h_piece
        next h_last =>
          cases h_piece
          have h_fourth := within_eq_true_iff.mp h_last
          rw [payload, payload, payload, utf8EncodeChar_ofNat (by omega), if_neg (by omega),
            if_neg (by omega), if_neg (by omega), ofNat_eq (b := lead) (by omega),
            ofNat_eq (b := second) (by omega), ofNat_eq (b := third) (by omega),
            ofNat_eq (b := fourth) (by omega)]
          rfl
        · cases h_piece
      · cases h_piece
    · cases h_piece
  · cases h_piece
  · cases h_piece
  · cases h_piece

/-- A character is taken where its own bytes stand. -/
theorem encode_of_piece (h_piece : piece lead rest = (.char c, n)) :
    String.utf8EncodeChar c ++ rest.drop n = lead :: rest := by
  by_cases h_two : 0xC2 ≤ lead.toNat ∧ lead.toNat ≤ 0xDF
  · exact encode_two h_two h_piece
  by_cases h_three : 0xE0 ≤ lead.toNat ∧ lead.toNat ≤ 0xEF
  · exact encode_three h_three h_piece
  by_cases h_four : 0xF0 ≤ lead.toNat ∧ lead.toNat ≤ 0xF4
  · exact encode_four h_four h_piece
  simp only [piece, h_two, h_three, h_four, if_false] at h_piece
  split at h_piece
  next h_ascii =>
    cases h_piece
    rw [utf8EncodeChar_ofNat (by omega), if_pos (by omega), UInt8.ofNat_toNat]
    rfl
  · cases h_piece

end

/-! ## Texts -/

theorem flatMap_of_pieces {d : Bytes} {text : List Char} (h : pieces d = text.map .char) :
    text.flatMap String.utf8EncodeChar = d := by
  induction text generalizing d with
  | nil =>
    cases d with
    | nil => rfl
    | cons lead rest =>
      rw [pieces] at h
      cases h
  | cons c text ih =>
    cases d with
    | nil =>
      rw [pieces] at h
      cases h
    | cons lead rest =>
      obtain ⟨n, h_piece⟩ : ∃ n, piece lead rest = (.char c, n) := by
        rw [pieces] at h
        exact ⟨(piece lead rest).2, Prod.ext (List.head_eq_of_cons_eq h) rfl⟩
      rw [pieces_cons h_piece, List.map_cons] at h
      rw [List.flatMap_cons, ih (List.tail_eq_of_cons_eq h), encode_of_piece h_piece]

theorem mapM_char?_eq_some_iff {l : List Piece} {text : List Char} :
    l.mapM Piece.char? = some text ↔ l = text.map .char := by
  induction l generalizing text with
  | nil => cases text <;> simp
  | cons p l ih =>
    cases p with
    | broken => cases text <;> simp [Piece.char?]
    | char c =>
      simp only [List.mapM_cons, Piece.char?, Option.bind_eq_bind, Option.bind_some,
        Option.bind_eq_some_iff, ih, Option.pure_def, Option.some.injEq]
      constructor
      · rintro ⟨text, rfl, rfl⟩
        rfl
      · intro h
        obtain ⟨d, text, rfl⟩ : ∃ d rest, text = d :: rest := by
          cases text with
          | nil => cases h
          | cons d text => exact ⟨d, text, rfl⟩
        obtain ⟨⟨⟩, rfl⟩ := List.cons.inj h
        exact ⟨text, rfl, rfl⟩

/-- A byte string is decoded to the text that it is the encoding of, and to no other. -/
theorem decode?_eq_some_iff {d : Bytes} {s : String} : decode? d = some s ↔ d = encode s := by
  rw [decode?, Option.map_eq_some_iff]
  constructor
  · rintro ⟨text, h_text, rfl⟩
    rw [encode, String.toList_ofList]
    exact (flatMap_of_pieces (mapM_char?_eq_some_iff.mp h_text)).symm
  · rintro rfl
    exact ⟨s.toList, mapM_char?_eq_some_iff.mpr (pieces_encode s), String.ofList_toList⟩

end Utf8

namespace NativeText

variable {t : NativeText} {s : String}

theorem toString?_eq_some_iff : t.toString? = some s ↔ t = ofString s := by
  rw [toString?, Utf8.decode?_eq_some_iff, ofString]
  exact ⟨fun h => by rw [← h], fun h => by rw [h]⟩

@[simp] theorem toString?_ofString (s : String) : (ofString s).toString? = some s :=
  toString?_eq_some_iff.mpr rfl

theorem written_eq_ok_iff : t.written = .ok s ↔ t = ofString s := by
  rw [← toString?_eq_some_iff, written]
  cases t.toString? <;> simp

/-- A native text that is the encoding of a text. -/
def IsText (t : NativeText) : Prop :=
  ∃ s : String, t.bytes = s.toList.flatMap String.utf8EncodeChar

theorem isText_iff : t.IsText ↔ ∃ s, t.toString? = some s := by
  simp only [toString?, Utf8.decode?_eq_some_iff]
  exact Iff.rfl

instance (t : NativeText) : Decidable t.IsText :=
  decidable_of_iff (t.toString?.isSome = true) <| by
    rw [isText_iff, Option.isSome_iff_exists]

end NativeText

end FlashImage
