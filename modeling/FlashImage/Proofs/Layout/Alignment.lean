import FlashImage.Layout.Cursor
import Mathlib.Algebra.Group.Nat.Defs
import Mathlib.Order.Bounds.Basic

/-!
# Rounding up to an alignment

`alignUp` works on 64-bit words with a bit mask.  Where the sum under the mask
does not wrap, it is the least multiple of the alignment that is not below the
value, and this is all that the allocation of modules needs to know of it.

* `alignUp_leastMultiple`: rounding up is a closure operator, and moves with its base.
-/

namespace FlashImage

theorem isPowerOfTwo_iff (w : UInt32) : isPowerOfTwo w = true ↔ w.toNat.isPowerOfTwo := by
  have toNat_eq_zero : w.toNat = 0 ↔ w = 0 := by
    rw [← UInt32.toNat_inj, UInt32.toNat_zero]
  rw [← Nat.ne_zero_and_sub_one_eq_zero_iff_isPowerOfTwo, isPowerOfTwo, Bool.and_eq_true,
    bne_iff_ne, beq_iff_eq, ne_eq, ne_eq, toNat_eq_zero]
  refine and_congr_right fun h_ne => ?_
  have pos : 1 ≤ w.toNat := Nat.one_le_iff_ne_zero.mpr (mt toNat_eq_zero.mp h_ne)
  have pred : (w - 1).toNat = w.toNat - 1 :=
    UInt32.toNat_sub_of_le w 1 (UInt32.le_iff_toNat_le.mpr pos)
  rw [← UInt32.toNat_inj, UInt32.toNat_and, pred, UInt32.toNat_zero]

/-! ## The mask -/

theorem exponent_le {w : UInt64} {k : Nat} (h_pow : w.toNat = 2 ^ k) : k ≤ 64 := by
  have h_lt : 2 ^ k < 2 ^ 64 := h_pow ▸ w.toNat_lt
  exact Nat.le_of_lt ((Nat.pow_lt_pow_iff_right (by decide)).mp h_lt)

theorem and_high_mask {m k : Nat} (h_lt : m < 2 ^ 64) (h_le : k ≤ 64) :
    m &&& (2 ^ 64 - 2 ^ k) = m / 2 ^ k * 2 ^ k := by
  have mask : 2 ^ 64 - 2 ^ k = (2 ^ (64 - k) - 1) * 2 ^ k := by
    rw [Nat.sub_mul, Nat.one_mul, ← Nat.pow_add, Nat.sub_add_cancel h_le]
  have quotient_lt : m / 2 ^ k < 2 ^ (64 - k) := by
    rw [Nat.div_lt_iff_lt_mul (Nat.two_pow_pos k), ← Nat.pow_add, Nat.sub_add_cancel h_le]
    exact h_lt
  have low : (m &&& (2 ^ 64 - 2 ^ k)) % 2 ^ k = 0 := by
    rw [Nat.and_mod_two_pow, mask, Nat.mul_mod_left, Nat.and_zero]
  have high : (m &&& (2 ^ 64 - 2 ^ k)) / 2 ^ k = m / 2 ^ k := by
    rw [Nat.and_div_two_pow, mask, Nat.mul_div_cancel _ (Nat.two_pow_pos k),
      Nat.and_two_pow_sub_one_eq_mod, Nat.mod_eq_of_lt quotient_lt]
  rw [← high, Nat.div_mul_cancel (Nat.dvd_of_mod_eq_zero low)]

theorem toNat_alignUp {value alignment : UInt64} (power : alignment.toNat.isPowerOfTwo)
    (fits : value.toNat + alignment.toNat - 1 < 2 ^ 64) :
    (alignUp value alignment).toNat =
      (value.toNat + alignment.toNat - 1) / alignment.toNat * alignment.toNat := by
  obtain ⟨k, h_pow⟩ := power
  have pos : 1 ≤ alignment.toNat := h_pow ▸ Nat.two_pow_pos k
  -- the sum may wrap to zero; taking off one then wraps it back
  have sum : (value + alignment - 1).toNat = value.toNat + alignment.toNat - 1 := by
    simp only [UInt64.toNat_sub, UInt64.toNat_add, UInt64.toNat_one]
    omega
  have pred : (alignment - 1).toNat = alignment.toNat - 1 :=
    UInt64.toNat_sub_of_le alignment 1 (UInt64.le_iff_toNat_le.mpr pos)
  have mask : (~~~(alignment - 1)).toNat = 2 ^ 64 - 2 ^ k := by
    rw [UInt64.toNat_not, pred, ← h_pow]
    have := alignment.toNat_lt
    simp only [UInt64.size]
    omega
  rw [alignUp, UInt64.toNat_and, sum, mask, and_high_mask fits (exponent_le h_pow), h_pow]

/-! ## The least multiple -/

/-- The multiples of an alignment that are not below a value. -/
def alignedFrom (alignment value : Nat) : Set Nat :=
  {m | alignment ∣ m ∧ value ≤ m}

theorem isLeast_roundUp {alignment : Nat} (pos : 0 < alignment) (value : Nat) :
    IsLeast (alignedFrom alignment value) ((value + alignment - 1) / alignment * alignment) := by
  refine ⟨⟨Nat.dvd_mul_left _ _, ?_⟩, ?_⟩
  · have := Nat.lt_div_mul_add pos (a := value + alignment - 1)
    omega
  · rintro m ⟨⟨q, rfl⟩, h_le⟩
    rw [Nat.mul_comm alignment q]
    apply Nat.mul_le_mul_right
    rw [← Nat.lt_succ_iff, Nat.div_lt_iff_lt_mul pos, Nat.succ_mul, Nat.mul_comm q]
    omega

/-- Rounding up commutes with moving by a multiple of the alignment. -/
theorem isLeast_add_alignedFrom {alignment base value m : Nat} (h_dvd : alignment ∣ base)
    (h : IsLeast (alignedFrom alignment value) m) :
    IsLeast (alignedFrom alignment (base + value)) (base + m) := by
  refine ⟨⟨Nat.dvd_add h_dvd h.1.1, Nat.add_le_add_left h.1.2 base⟩, ?_⟩
  rintro n ⟨h_multiple, h_le⟩
  have h_base : base ≤ n := Nat.le_trans (Nat.le_add_right _ _) h_le
  have h_rest : m ≤ n - base := h.2 ⟨Nat.dvd_sub h_multiple h_dvd, Nat.le_sub_of_add_le' h_le⟩
  omega

/-- Rounding up gives the least multiple of the alignment that is not below the value. -/
theorem isLeast_alignUp {value alignment : UInt64} (power : alignment.toNat.isPowerOfTwo)
    (fits : value.toNat + alignment.toNat - 1 < 2 ^ 64) :
    IsLeast (alignedFrom alignment.toNat value.toNat) (alignUp value alignment).toNat := by
  rw [toNat_alignUp power fits]
  exact isLeast_roundUp (Nat.pos_of_isPowerOfTwo power) value.toNat

/-! ## Rounding rounded and moved values -/

theorem dvd_modulus {alignment : UInt64} (power : alignment.toNat.isPowerOfTwo) :
    alignment.toNat ∣ 2 ^ 64 := by
  obtain ⟨k, h_pow⟩ := power
  rw [h_pow]
  exact Nat.pow_dvd_pow 2 (exponent_le h_pow)

/-- Behind a multiple of the alignment there is room for a whole block. -/
theorem add_le_modulus {alignment : UInt64} (power : alignment.toNat.isPowerOfTwo) {m : Nat}
    (h_dvd : alignment.toNat ∣ m) (h_lt : m < 2 ^ 64) : m + alignment.toNat ≤ 2 ^ 64 := by
  have h_rest : alignment.toNat ≤ 2 ^ 64 - m :=
    Nat.le_of_dvd (Nat.sub_pos_of_lt h_lt) (Nat.dvd_sub (dvd_modulus power) h_dvd)
  omega

section Laws

variable {value alignment : UInt64}

theorem alignUp_eq_self (power : alignment.toNat.isPowerOfTwo)
    (h_dvd : alignment.toNat ∣ value.toNat) : alignUp value alignment = value := by
  have pos := Nat.pos_of_isPowerOfTwo power
  have room := add_le_modulus power h_dvd value.toNat_lt
  have rounded := @isLeast_alignUp value alignment power (by omega)
  have least : IsLeast (alignedFrom alignment.toNat value.toNat) value.toNat :=
    ⟨⟨h_dvd, Nat.le_refl _⟩, fun _ h => h.2⟩
  exact UInt64.toNat_inj.mp (rounded.unique least)

theorem alignUp_mono (power : alignment.toNat.isPowerOfTwo)
    (fits : value.toNat + alignment.toNat - 1 < 2 ^ 64) {smaller : UInt64}
    (h_le : smaller ≤ value) : alignUp smaller alignment ≤ alignUp value alignment := by
  rw [UInt64.le_iff_toNat_le] at h_le ⊢
  obtain ⟨h_dvd, h_above⟩ := (isLeast_alignUp power fits).1
  have rounded := @isLeast_alignUp smaller alignment power (by omega)
  exact rounded.2 ⟨h_dvd, Nat.le_trans h_le h_above⟩

theorem toNat_alignUp_le (power : alignment.toNat.isPowerOfTwo)
    (fits : value.toNat + alignment.toNat - 1 < 2 ^ 64) :
    (alignUp value alignment).toNat ≤ value.toNat + alignment.toNat - 1 := by
  rw [toNat_alignUp power fits]
  exact Nat.div_mul_le_self _ _

/-- A moved value can be rounded up just if the value can be, and what it is rounded up to can
be moved. -/
theorem add_fits_iff (power : alignment.toNat.isPowerOfTwo) {base : Nat}
    (h_dvd : alignment.toNat ∣ base) :
    base + value.toNat + alignment.toNat - 1 < 2 ^ 64 ↔
      value.toNat + alignment.toNat - 1 < 2 ^ 64 ∧
        base + (alignUp value alignment).toNat < 2 ^ 64 := by
  have pos := Nat.pos_of_isPowerOfTwo power
  constructor
  · intro fits
    have h_le := @toNat_alignUp_le value alignment power (by omega)
    omega
  · rintro ⟨fits, h_lt⟩
    obtain ⟨h_multiple, h_above⟩ := (isLeast_alignUp power fits).1
    have room := add_le_modulus power (Nat.dvd_add h_dvd h_multiple) h_lt
    omega

theorem alignUp_add (power : alignment.toNat.isPowerOfTwo) {base : UInt64}
    (h_dvd : alignment.toNat ∣ base.toNat)
    (fits : base.toNat + value.toNat + alignment.toNat - 1 < 2 ^ 64) :
    alignUp (base + value) alignment = base + alignUp value alignment := by
  have pos := Nat.pos_of_isPowerOfTwo power
  obtain ⟨value_fits, h_lt⟩ := (add_fits_iff power h_dvd).mp fits
  have sum : (base + value).toNat = base.toNat + value.toNat := by
    rw [UInt64.toNat_add, Nat.mod_eq_of_lt (by omega)]
  have moved : (base + alignUp value alignment).toNat =
      base.toNat + (alignUp value alignment).toNat := by
    rw [UInt64.toNat_add, Nat.mod_eq_of_lt h_lt]
  have rounded := @isLeast_alignUp (base + value) alignment power (by omega)
  rw [sum] at rounded
  rw [← UInt64.toNat_inj, moved]
  exact rounded.unique (isLeast_add_alignedFrom h_dvd (isLeast_alignUp power value_fits))

end Laws

/-- As long as no word is passed, rounding up with the mask gives the least multiple of the
alignment that is not below the value.  A rounded value is not changed any more, larger values
are not rounded to smaller ones, and it makes no difference whether a value is moved by
multiples of the alignment before it is rounded or after. -/
theorem alignUp_leastMultiple {alignment : UInt64} (power : alignment.toNat.isPowerOfTwo) :
    (∀ value : UInt64, value.toNat + alignment.toNat - 1 < 2 ^ 64 →
      IsLeast (alignedFrom alignment.toNat value.toNat) (alignUp value alignment).toNat ∧
        alignUp (alignUp value alignment) alignment = alignUp value alignment ∧
        ∀ smaller ≤ value, alignUp smaller alignment ≤ alignUp value alignment) ∧
    ∀ base value : UInt64, alignment.toNat ∣ base.toNat →
      (base.toNat + value.toNat + alignment.toNat - 1 < 2 ^ 64 ↔
        value.toNat + alignment.toNat - 1 < 2 ^ 64 ∧
          base.toNat + (alignUp value alignment).toNat < 2 ^ 64) ∧
      (base.toNat + value.toNat + alignment.toNat - 1 < 2 ^ 64 →
        alignUp (base + value) alignment = base + alignUp value alignment) := by
  refine ⟨fun value fits => ?_, fun base value h_dvd => ?_⟩
  · have least := isLeast_alignUp power fits
    exact ⟨least, alignUp_eq_self power least.1.1, fun smaller => alignUp_mono power fits⟩
  · exact ⟨add_fits_iff power h_dvd, alignUp_add power h_dvd⟩

/-- A block of `0x8000`, and values up to the last block that a word can reach. -/
theorem alignUp_leastMultiple_lastBlock :
    (0x8000 : UInt64).toNat.isPowerOfTwo ∧
      IsLeast (alignedFrom 0x8000 0x8001) 0x10000 ∧
      alignUp (alignUp 0x8001 0x8000) 0x8000 = alignUp 0x8001 0x8000 ∧
      alignUp 3 0x8000 ≤ alignUp 0x8001 0x8000 ∧
      alignUp (0xFFFFFFFFFFFF0000 + 0x8000) 0x8000 =
        0xFFFFFFFFFFFF0000 + alignUp 0x8000 0x8000 := by
  have power : (0x8000 : UInt64).toNat.isPowerOfTwo := ⟨15, by decide⟩
  obtain ⟨rounded, moved⟩ := alignUp_leastMultiple power
  obtain ⟨least, again, mono⟩ := rounded 0x8001 (by decide)
  exact ⟨power, least, again, mono 3 (by decide),
    (moved 0xFFFFFFFFFFFF0000 0x8000 (by decide)).2 (by decide)⟩

end FlashImage
