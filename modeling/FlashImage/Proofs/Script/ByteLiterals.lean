import FlashImage.Proofs.Digits
import FlashImage.Proofs.Except
import FlashImage.Script.Field

/-!
# Which fields are bytes

A field may have any number of digits.  They are folded in eight bits, and eight bits
reckon as the integers do modulo 256, so the byte is the rest of the value that the
whole literal has.

* `parseField?_eq_some_iff`: these fields are read and no others.
-/

namespace FlashImage.Script

open Text

/-! ## Digits in eight bits -/

theorem foldDigits?_eq_some_iff {radix : Nat} (h_radix : radix ≤ 16) {s : List Char} {n : Nat}
    {b : UInt8} :
    foldDigits? radix (UInt8.ofNat n) s = some b ↔
      ∃ ds, List.Forall₂ (IsDigit radix) s ds ∧
        b = UInt8.ofNat (ds.foldl (fun acc d => acc * radix + d) n) := by
  -- on the digits to come, whatever those in front of them are worth
  induction s generalizing n with
  | nil => simp [foldDigits?, eq_comm]
  | cons c s ih =>
    simp only [foldDigits?, List.forall₂_cons_left_iff, ← digit?_eq_some_iff h_radix]
    cases h_digit : digit? radix c with
    | none => simp
    | some d =>
      simp only [← UInt8.ofNat_mul, ← UInt8.ofNat_add, ih, Option.some.injEq]
      constructor
      · intro h
        obtain ⟨ds, digits, h_value⟩ := h
        exact ⟨d :: ds, ⟨d, ds, rfl, digits, rfl⟩, h_value⟩
      · intro h
        obtain ⟨_, ⟨d, ds, rfl, digits, rfl⟩, h_value⟩ := h
        exact ⟨ds, digits, h_value⟩

theorem ofNat_eq_iff {b : UInt8} {n : Nat} : b = UInt8.ofNat n ↔ (b.toNat : Int) = n % 256 := by
  rw [← UInt8.toNat_inj, UInt8.toNat_ofNat']
  omega

theorem digitsByte?_eq_some_iff {radix : Nat} (h_radix : radix ≤ 16) {s : List Char} {b : UInt8} :
    digitsByte? radix s = some b ↔
      ∃ n : Nat, IsNumber radix s n ∧ (b.toNat : Int) = n % 256 := by
  cases s with
  | nil => simp [digitsByte?, IsNumber]
  | cons c s =>
    have h_fold : digitsByte? radix (c :: s) = foldDigits? radix (UInt8.ofNat 0) (c :: s) := rfl
    rw [h_fold, foldDigits?_eq_some_iff h_radix]
    simp only [foldl_eq_ofDigits, IsNumber, ofNat_eq_iff]
    constructor
    · intro h
      obtain ⟨ds, digits, h_value⟩ := h
      exact ⟨_, ⟨List.cons_ne_nil c s, ds, digits, rfl⟩, h_value⟩
    · intro h
      obtain ⟨_, ⟨-, ds, digits, rfl⟩, h_value⟩ := h
      exact ⟨ds, digits, h_value⟩

theorem toNat_zero_sub (c : UInt8) : ((0 - c).toNat : Int) = -c.toNat % 256 := by
  have h_lt : c.toNat < 256 := c.toNat_lt
  rw [UInt8.toNat_sub, UInt8.toNat_zero]
  omega

/-! ## The fields that are bytes -/

/-- The fields that are numbers.  Hexadecimal digits need no mark, and a number with a
sign is a decimal. -/
inductive Numeral : List Char → Int → Prop where
  | marked {mark : Char} {body : List Char} {n : Nat} (h_mark : mark = 'x' ∨ mark = 'X')
      (number : IsNumber 16 body n) : Numeral ('0' :: mark :: body) n
  | hexadecimal {body : List Char} {n : Nat} (number : IsNumber 16 body n) : Numeral body n
  | positive {body : List Char} {n : Nat} (number : IsNumber 10 body n) : Numeral ('+' :: body) n
  | negative {body : List Char} {n : Nat} (number : IsNumber 10 body n) : Numeral ('-' :: body) (-n)

theorem allHex_of_isNumber {s : List Char} {n : Nat} (number : IsNumber 16 s n) :
    allHex s = true := by
  obtain ⟨-, ds, digits, -⟩ := number
  rw [allHex, List.all_eq_true]
  intro c h_mem
  obtain ⟨d, -, digit⟩ := exists_of_mem_forall₂ digits h_mem
  rw [(digit?_eq_some_iff (Nat.le_refl 16)).mpr digit, Option.isSome_some]

theorem readField?_marked {mark : Char} (h_mark : mark = 'x' ∨ mark = 'X') (body : List Char) :
    readField? ('0' :: mark :: body) = digitsByte? 16 body := by
  obtain rfl | rfl := h_mark <;> rfl

theorem readField?_of_isNumber {s : List Char} {n : Nat} (number : IsNumber 16 s n) :
    readField? s = digitsByte? 16 s := by
  have h_hex : allHex s = true := allHex_of_isNumber number
  unfold readField?
  split
  next => contradiction
  next => contradiction
  next => rw [if_pos h_hex]

theorem Numeral.readField? {t : List Char} {v : Int} (numeral : Numeral t v) {b : UInt8}
    (h_byte : (b.toNat : Int) = v % 256) : readField? t = some b := by
  cases numeral with
  | marked h_mark number =>
    rw [readField?_marked h_mark]
    exact (digitsByte?_eq_some_iff (by decide)).mpr ⟨_, number, h_byte⟩
  | hexadecimal number =>
    rw [readField?_of_isNumber number]
    exact (digitsByte?_eq_some_iff (by decide)).mpr ⟨_, number, h_byte⟩
  | positive number => exact (digitsByte?_eq_some_iff (by decide)).mpr ⟨_, number, h_byte⟩
  | @negative body n number =>
    have h_run : digitsByte? 10 body = some (UInt8.ofNat n) :=
      (digitsByte?_eq_some_iff (by decide)).mpr ⟨n, number, ofNat_eq_iff.mp rfl⟩
    have h_field : Script.readField? ('-' :: body) = (digitsByte? 10 body).map fun b => 0 - b := rfl
    have h_negated : 0 - UInt8.ofNat n = b := by
      rw [← UInt8.toNat_inj]
      have h_sub := toNat_zero_sub (UInt8.ofNat n)
      rw [UInt8.toNat_ofNat'] at h_sub
      omega
    rw [h_field, h_run, Option.map_some, h_negated]

theorem numeral_of_readField? {t : List Char} {b : UInt8} (h_read : readField? t = some b) :
    ∃ v, Numeral t v ∧ (b.toNat : Int) = v % 256 := by
  unfold readField? at h_read
  split at h_read
  next =>
    obtain ⟨n, number, h_byte⟩ := (digitsByte?_eq_some_iff (by decide)).mp h_read
    exact ⟨n, .marked (.inl rfl) number, h_byte⟩
  next =>
    obtain ⟨n, number, h_byte⟩ := (digitsByte?_eq_some_iff (by decide)).mp h_read
    exact ⟨n, .marked (.inr rfl) number, h_byte⟩
  next =>
    split at h_read
    next =>
      obtain ⟨n, number, h_byte⟩ := (digitsByte?_eq_some_iff (by decide)).mp h_read
      exact ⟨n, .hexadecimal number, h_byte⟩
    next =>
      split at h_read
      next =>
        obtain ⟨c, h_digits, rfl⟩ := Option.map_eq_some_iff.mp h_read
        obtain ⟨n, number, h_byte⟩ := (digitsByte?_eq_some_iff (by decide)).mp h_digits
        have h_sub := toNat_zero_sub c
        exact ⟨-n, .negative number, by omega⟩
      next =>
        obtain ⟨n, number, h_byte⟩ := (digitsByte?_eq_some_iff (by decide)).mp h_read
        exact ⟨n, .positive number, h_byte⟩
      next => contradiction

theorem readField?_eq_some_iff {t : List Char} {b : UInt8} :
    readField? t = some b ↔ ∃ v, Numeral t v ∧ (b.toNat : Int) = v % 256 := by
  constructor
  · exact numeral_of_readField?
  · intro h
    obtain ⟨v, numeral, h_byte⟩ := h
    exact numeral.readField? h_byte

theorem exists_byte (v : Int) : ∃ b : UInt8, (b.toNat : Int) = v % 256 := by
  have h_fits : (v % 256).toNat < UInt8.size := by
    rw [UInt8.size]
    omega
  exact ⟨UInt8.ofNatLT _ h_fits, by rw [UInt8.toNat_ofNatLT]; omega⟩

/-- The numerals are the fields that are read, each as the rest of its value modulo 256. -/
theorem parseField?_eq_some_iff (field : List Char) :
    (∀ b, parseField? field = some b ↔
        ∃ v, Numeral (trim field) v ∧ (b.toNat : Int) = v % 256) ∧
      (parseField? field = none ↔ ¬ ∃ v, Numeral (trim field) v) := by
  have h_some : ∀ b, parseField? field = some b ↔
      ∃ v, Numeral (trim field) v ∧ (b.toNat : Int) = v % 256 :=
    fun _ => readField?_eq_some_iff
  refine ⟨h_some, ?_⟩
  rw [Option.eq_none_iff_forall_ne_some]
  constructor
  · intro h_none numeral
    obtain ⟨v, numeral⟩ := numeral
    obtain ⟨b, h_byte⟩ := exists_byte v
    exact h_none b ((h_some b).mpr ⟨v, numeral, h_byte⟩)
  · intro h_none b h_read
    obtain ⟨v, numeral, -⟩ := (h_some b).mp h_read
    exact h_none ⟨v, numeral⟩

-- without a sign the digits are hexadecimal ones, and with a sign decimal ones
example : [" 30", "+30", "-3", "0XfF1", "+0x3"].map (parseField? ·.toList) =
    [some 0x30, some 30, some 253, some 0xF1, none] := by
  decide

end FlashImage.Script
