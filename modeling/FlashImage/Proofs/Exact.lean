import Mathlib.Algebra.Group.Nat.Defs

/-!
# Exact arithmetic of words

The sums and products of words wrap, and their differences do too.  The operations here
have no result where a word would wrap, and conversions have none where a word does not fit.
-/

namespace FlashImage.Exact

/-- A number as a word, if it fits. -/
def word (n : Nat) : Option UInt64 :=
  if n < 2 ^ 64 then some (UInt64.ofNat n) else none

def add (a b : UInt64) : Option UInt64 :=
  word (a.toNat + b.toNat)

def mul (a b : UInt64) : Option UInt64 :=
  word (a.toNat * b.toNat)

def sub (a b : UInt64) : Option UInt64 :=
  if b.toNat ≤ a.toNat then word (a.toNat - b.toNat) else none

/-- A word as a word of half the width, if it fits. -/
def narrow (w : UInt64) : Option UInt32 :=
  if w.toNat < 2 ^ 32 then some (UInt32.ofNat w.toNat) else none

variable {a b : UInt64}

theorem word_eq {n : Nat} (h : n < 2 ^ 64) : word n = some (UInt64.ofNat n) :=
  if_pos h

theorem add_eq (h : a.toNat + b.toNat < 2 ^ 64) : add a b = some (a + b) := by
  rw [add, word_eq h, UInt64.ofNat_add, UInt64.ofNat_toNat, UInt64.ofNat_toNat]

theorem mul_eq (h : a.toNat * b.toNat < 2 ^ 64) : mul a b = some (a * b) := by
  rw [mul, word_eq h, UInt64.ofNat_mul, UInt64.ofNat_toNat, UInt64.ofNat_toNat]

theorem sub_eq (h : b.toNat ≤ a.toNat) : sub a b = some (a - b) := by
  have h_lt := a.toNat_lt
  rw [sub, if_pos h, word_eq (by omega),
    ← UInt64.toNat_sub_of_le a b (UInt64.le_iff_toNat_le.mpr h), UInt64.ofNat_toNat]

theorem narrow_eq {w : UInt64} (h : w.toNat < 2 ^ 32) : narrow w = some w.toUInt32 :=
  if_pos h

theorem narrow_eq_none {w : UInt64} (h : 2 ^ 32 ≤ w.toNat) : narrow w = none :=
  if_neg (Nat.not_lt.mpr h)

end FlashImage.Exact
