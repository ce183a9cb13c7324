import FlashImage.Proofs.Text
import FlashImage.Proofs.Utf8

/-!
# ASCII bytes in damaged text

A byte below `0x80` never belongs to a longer sequence, however broken what stands in
front of it is.  So the scan begins anew at each such byte.

* `splitOn_decodeValid`: damaged text is cut where its bytes are.
-/

namespace FlashImage.Utf8

/-! ## One piece -/

theorem within_eq_true_iff {low high : Nat} {b : UInt8} :
    within low high b = true ↔ low ≤ b.toNat ∧ b.toNat ≤ high := by
  simp [within]

/-- The bytes that may stand behind a lead byte of three or four bytes. -/
theorem bounds_of_second {lead : Nat} {b : UInt8}
    (h : within (secondRange lead).1 (secondRange lead).2 b = true) :
    (0x80 ≤ b.toNat ∧ b.toNat ≤ 0xBF) ∧ (lead = 0xE0 → 0xA0 ≤ b.toNat) ∧
      (lead = 0xED → b.toNat ≤ 0x9F) ∧ (lead = 0xF0 → 0x90 ≤ b.toNat) ∧
      (lead = 0xF4 → b.toNat ≤ 0x8F) := by
  rw [within_eq_true_iff] at h
  unfold secondRange at h
  split_ifs at h <;> simp only at h <;> omega

theorem second_ascii (lead : Nat) {b : UInt8} (h : b.toNat < 0x80) :
    within (secondRange lead).1 (secondRange lead).2 b = false := by
  refine Bool.eq_false_iff.mpr fun h_second => ?_
  have h_low := (bounds_of_second h_second).1.1
  omega

theorem next_ascii {b : UInt8} (h : b.toNat < 0x80) : within 0x80 0xBF b = false := by
  refine Bool.eq_false_iff.mpr fun h_next => ?_
  have h_low := (within_eq_true_iff.mp h_next).1
  omega

/-- What one step of the scan takes: an ASCII byte by itself, or a byte that is not ASCII and
some more behind it, which make no ASCII character. -/
inductive Takes (lead : UInt8) (rest : Bytes) : Piece → Nat → Prop where
  | ascii (h_lead : lead.toNat < 0x80) : Takes lead rest (.char (Char.ofNat lead.toNat)) 0
  | wide {p : Piece} {n : Nat} (h_lead : 0x80 ≤ lead.toNat) (h_inside : n ≤ rest.length)
      (h_tail : ∀ b ∈ rest.take n, 0x80 ≤ b.toNat) (h_char : ∀ c, p = .char c → 0x80 ≤ c.toNat) :
      Takes lead rest p n

theorem toNat_ofNat_of_valid {v : Nat} (h : v < 0xD800 ∨ 0xDFFF < v ∧ v < 0x110000) :
    (Char.ofNat v).toNat = v := by
  rw [Char.ofNat, dif_pos h]
  rfl

section

variable {lead : UInt8} {rest : Bytes} {p : Piece} {n : Nat}

theorem Takes.broken (h_lead : 0x80 ≤ lead.toNat) (h_inside : n ≤ rest.length)
    (h_tail : ∀ b ∈ rest.take n, 0x80 ≤ b.toNat) : Takes lead rest .broken n :=
  .wide h_lead h_inside h_tail nofun

theorem Takes.alone (h_lead : 0x80 ≤ lead.toNat) : Takes lead rest .broken 0 :=
  .broken h_lead (Nat.zero_le _) (by simp)

theorem Takes.withOne {b : UInt8} (h_lead : 0x80 ≤ lead.toNat) (h_second : 0x80 ≤ b.toNat) :
    Takes lead (b :: rest) .broken 1 :=
  .broken h_lead (by simp) (by simpa using h_second)

theorem Takes.withTwo {b c : UInt8} (h_lead : 0x80 ≤ lead.toNat) (h_second : 0x80 ≤ b.toNat)
    (h_third : 0x80 ≤ c.toNat) : Takes lead (b :: c :: rest) .broken 2 :=
  .broken h_lead (by simp) (by simpa using ⟨h_second, h_third⟩)

theorem Takes.le_length (takes : Takes lead rest p n) : n ≤ rest.length := by
  cases takes with
  | ascii => exact Nat.zero_le _
  | wide _ h_inside => exact h_inside

theorem takes_two (h_lead : 0xC2 ≤ lead.toNat ∧ lead.toNat ≤ 0xDF)
    (h_piece : piece lead rest = (p, n)) : Takes lead rest p n := by
  have h_one : ¬ lead.toNat < 0x80 := by omega
  simp only [piece, h_one, h_lead, and_self, if_true, if_false] at h_piece
  split at h_piece
  · split at h_piece
    next h_next =>
      cases h_piece
      have h_second := within_eq_true_iff.mp h_next
      refine .wide (by omega) (by simp) (by simpa using h_second.1) ?_
      rintro c ⟨⟩
      rw [payload, toNat_ofNat_of_valid (by omega)]
      omega
    · cases h_piece
      exact .alone (by omega)
  · cases h_piece
    exact .alone (by omega)

theorem takes_three (h_lead : 0xE0 ≤ lead.toNat ∧ lead.toNat ≤ 0xEF)
    (h_piece : piece lead rest = (p, n)) : Takes lead rest p n := by
  have h_one : ¬ lead.toNat < 0x80 := by omega
  have h_two : ¬ lead.toNat ≤ 0xDF := by omega
  simp only [piece, h_one, h_two, h_lead, and_self, and_false, if_true, if_false] at h_piece
  split at h_piece
  · split at h_piece
    next h_first =>
      have h_second := bounds_of_second h_first
      split at h_piece
      next h_next =>
        cases h_piece
        have h_third := within_eq_true_iff.mp h_next
        refine .wide (by omega) (by simp) (by simpa using ⟨h_second.1.1, h_third.1⟩) ?_
        rintro c ⟨⟩
        rw [payload, payload, toNat_ofNat_of_valid (by omega)]
        omega
      · cases h_piece
        exact .withOne (by omega) h_second.1.1
    · cases h_piece
      exact .alone (by omega)
  · split at h_piece
    next h_first =>
      cases h_piece
      exact .withOne (by omega) (bounds_of_second h_first).1.1
    · cases h_piece
      exact .alone (by omega)
  · cases h_piece
    exact .alone (by omega)

theorem takes_four (h_lead : 0xF0 ≤ lead.toNat ∧ lead.toNat ≤ 0xF4)
    (h_piece : piece lead rest = (p, n)) : Takes lead rest p n := by
  have h_one : ¬ lead.toNat < 0x80 := by omega
  have h_two : ¬ lead.toNat ≤ 0xDF := by omega
  have h_three : ¬ lead.toNat ≤ 0xEF := by omega
  simp only [piece, h_one, h_two, h_three, h_lead, and_self, and_false, if_true,
    if_false] at h_piece
  split at h_piece
  · split at h_piece
    next h_first =>
      have h_second := bounds_of_second h_first
      split at h_piece
      next h_next =>
        have h_third := within_eq_true_iff.mp h_next
        split at h_piece
        next h_last =>
          cases h_piece
          have h_fourth := within_eq_true_iff.mp h_last
          refine .wide (by omega) (by simp)
            (by simpa using ⟨h_second.1.1, h_third.1, h_fourth.1⟩) ?_
          rintro c ⟨⟩
          rw [payload, payload, payload, toNat_ofNat_of_valid (by omega)]
          omega
        · cases h_piece
          exact .withTwo (by omega) h_second.1.1 h_third.1
      · cases h_piece
        exact .withOne (by omega) h_second.1.1
    · cases h_piece
      exact .alone (by omega)
  · split at h_piece
    next h_first =>
      have h_second := bounds_of_second h_first
      split at h_piece
      next h_next =>
        cases h_piece
        have h_third := within_eq_true_iff.mp h_next
        exact .withTwo (by omega) h_second.1.1 h_third.1
      · cases h_piece
        exact .withOne (by omega) h_second.1.1
    · cases h_piece
      exact .alone (by omega)
  · split at h_piece
    next h_first =>
      cases h_piece
      exact .withOne (by omega) (bounds_of_second h_first).1.1
    · cases h_piece
      exact .alone (by omega)
  · cases h_piece
    exact .alone (by omega)

theorem takes_of_piece (h_piece : piece lead rest = (p, n)) : Takes lead rest p n := by
  by_cases h_one : lead.toNat < 0x80
  · simp only [piece, h_one, if_true] at h_piece
    cases h_piece
    exact .ascii h_one
  by_cases h_two : 0xC2 ≤ lead.toNat ∧ lead.toNat ≤ 0xDF
  · exact takes_two h_two h_piece
  by_cases h_three : 0xE0 ≤ lead.toNat ∧ lead.toNat ≤ 0xEF
  · exact takes_three h_three h_piece
  by_cases h_four : 0xF0 ≤ lead.toNat ∧ lead.toNat ≤ 0xF4
  · exact takes_four h_four h_piece
  simp only [piece, h_one, h_two, h_three, h_four, if_false] at h_piece
  cases h_piece
  exact .alone (by omega)

/-- An ASCII byte and what stands behind it do not matter to what is in front. -/
theorem piece_append_ascii {b : UInt8} (h : b.toNat < 0x80) (more : Bytes) :
    piece lead (rest ++ b :: more) = piece lead rest := by
  -- no more than three bytes behind the lead byte are looked at
  rcases rest with _ | ⟨_, _ | ⟨_, _ | ⟨_, _⟩⟩⟩
  · rcases more with _ | ⟨_, _ | ⟨_, _⟩⟩ <;> simp [piece, next_ascii h, second_ascii _ h]
  · rcases more with _ | ⟨_, _⟩ <;>
      simp [piece, next_ascii h, apply_ite (Prod.mk Piece.broken)]
  · simp [piece, next_ascii h, apply_ite (Prod.mk Piece.broken)]
  · rfl

end

/-! ## Whole texts -/

def asciiBytes (d : Bytes) : Bytes :=
  d.filter fun b => b.toNat < 0x80

def asciiChars (text : List Char) : List Char :=
  text.filter fun c => c.toNat < 0x80

theorem asciiBytes_append (d e : Bytes) : asciiBytes (d ++ e) = asciiBytes d ++ asciiBytes e :=
  List.filter_append d e

theorem asciiChars_append (text more : List Char) :
    asciiChars (text ++ more) = asciiChars text ++ asciiChars more :=
  List.filter_append text more

theorem toList_decodeValid (d : Bytes) :
    (decodeValid d).toList = (pieces d).filterMap Piece.char? :=
  String.toList_ofList

theorem decodeValid_encode (s : String) : decodeValid (encode s) = s := by
  rw [decodeValid, pieces_encode, List.filterMap_map]
  exact (congrArg String.ofList (List.filterMap_some)).trans String.ofList_toList

/-- A step takes in as many ASCII bytes as it makes ASCII characters, one or none. -/
theorem Takes.ascii_eq {lead : UInt8} {rest : Bytes} {p : Piece} {n : Nat}
    (takes : Takes lead rest p n) :
    (asciiChars p.char?.toList).map Char.toNat =
      (asciiBytes (lead :: rest.take n)).map UInt8.toNat := by
  cases takes with
  | ascii h_lead =>
    have h_value := toNat_ofNat_of_valid (v := lead.toNat) (by omega)
    simp [asciiChars, asciiBytes, Piece.char?, h_lead, h_value]
  | wide h_lead _ h_tail h_char =>
    have h_bytes : asciiBytes (lead :: rest.take n) = [] := by
      simpa [asciiBytes] using ⟨h_lead, h_tail⟩
    have h_chars : asciiChars p.char?.toList = [] := by
      cases p with
      | broken => rfl
      | char c => simpa [asciiChars, Piece.char?] using h_char c rfl
    rw [h_bytes, h_chars]
    rfl

/-- Leaving out broken pieces neither loses nor makes ASCII characters. -/
theorem asciiChars_decodeValid (d : Bytes) :
    (asciiChars (decodeValid d).toList).map Char.toNat = (asciiBytes d).map UInt8.toNat := by
  rw [toList_decodeValid]
  induction d using pieces.induct with
  | case1 => simp [pieces, asciiChars, asciiBytes]
  | case2 lead rest p n h_piece ih =>
    have h_step := (takes_of_piece h_piece).ascii_eq
    have h_bytes : lead :: rest = (lead :: rest.take n) ++ rest.drop n := by simp
    rw [pieces_cons h_piece, List.filterMap_eq_flatMap_toList, List.flatMap_cons,
      ← List.filterMap_eq_flatMap_toList, asciiChars_append, List.map_append, ih, h_step, h_bytes,
      asciiBytes_append, List.map_append]

theorem pieces_append_ascii {b : UInt8} (h : b.toNat < 0x80) (before after : Bytes) :
    pieces (before ++ b :: after) =
      pieces before ++ .char (Char.ofNat b.toNat) :: pieces after := by
  induction before using pieces.induct with
  | case1 =>
    have h_piece : piece b after = (.char (Char.ofNat b.toNat), 0) := by simp [piece, h]
    rw [List.nil_append, pieces_cons h_piece, pieces]
    rfl
  | case2 lead rest p n h_piece ih =>
    have h_same : piece lead (rest ++ b :: after) = (p, n) :=
      (piece_append_ascii h after).trans h_piece
    rw [List.cons_append, pieces_cons h_same, pieces_cons h_piece,
      List.drop_append_of_le_length (takes_of_piece h_piece).le_length, ih, List.cons_append]

theorem toList_decodeValid_append {b : UInt8} (h : b.toNat < 0x80) (before after : Bytes) :
    (decodeValid (before ++ b :: after)).toList =
      (decodeValid before).toList ++ Char.ofNat b.toNat :: (decodeValid after).toList := by
  simp only [toList_decodeValid, pieces_append_ascii h, List.filterMap_append]
  rfl

theorem mem_decodeValid_iff {b : UInt8} (h : b.toNat < 0x80) {d : Bytes} :
    Char.ofNat b.toNat ∈ (decodeValid d).toList ↔ b ∈ d := by
  have h_value : (Char.ofNat b.toNat).toNat = b.toNat := toNat_ofNat_of_valid (by omega)
  have h_chars : Char.ofNat b.toNat ∈ (decodeValid d).toList ↔
      b.toNat ∈ (asciiChars (decodeValid d).toList).map Char.toNat := by
    simp only [asciiChars, List.mem_map, List.mem_filter, decide_eq_true_eq]
    constructor
    · intro h_mem
      exact ⟨_, ⟨h_mem, h_value.symm ▸ h⟩, h_value⟩
    · rintro ⟨c, ⟨h_mem, -⟩, h_eq⟩
      rwa [← h_eq, Char.ofNat_toNat]
  rw [h_chars, asciiChars_decodeValid, asciiBytes]
  simp [UInt8.toNat_inj, h]

/-- So a text is cut at an ASCII character where its bytes are. -/
theorem splitOn_decodeValid {b : UInt8} (h : b.toNat < 0x80) (d : Bytes) :
    (decodeValid d).toList.splitOn (Char.ofNat b.toNat) =
      (d.splitOn b).map fun part => (decodeValid part).toList := by
  induction d using Text.split_induction b with
  | last part h_part =>
    rw [List.splitOn_eq_singleton h_part,
      List.splitOn_eq_singleton ((mem_decodeValid_iff h).not.mpr h_part)]
    rfl
  | next part rest h_part ih =>
    rw [toList_decodeValid_append h, List.splitOn_append_cons_self, List.splitOn_append_cons_self,
      List.map_append, ih, List.splitOn_eq_singleton h_part,
      List.splitOn_eq_singleton ((mem_decodeValid_iff h).not.mpr h_part)]
    rfl

end FlashImage.Utf8
