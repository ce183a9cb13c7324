import FlashImage.Layout.Builder
import FlashImage.Proofs.Layout.Alignment

/-!
# Where a build starts

The checks on the settings of a layout, said with numbers in place of words, and
the cursor that they let through.  No sum of the cursor wraps, however large the
number of copies is.

* `Cursor.Follows`: what the cursor keeps through the whole build.
-/

namespace FlashImage

/-! ## Settings as numbers -/

namespace LayoutSettings

def alignment (s : LayoutSettings) : Nat :=
  s.eraseBlockAlignment.toNat

def copies (s : LayoutSettings) : Nat :=
  s.directoryCopies.toNat

def baseWord (s : LayoutSettings) : UInt32 :=
  s.startOfDirectory.getD s.eraseBlockAlignment

def base (s : LayoutSettings) : Nat :=
  s.baseWord.toNat

/-- The offset of the first module, behind the last copy of the directory. -/
def firstOffset (s : LayoutSettings) : Nat :=
  s.base + s.alignment * s.copies

structure Accepted (s : LayoutSettings) : Prop where
  power : s.alignment.isPowerOfTwo
  copies_pos : 1 ≤ s.copies
  base_aligned : s.alignment ∣ s.base
  alignment_le_base : s.alignment ≤ s.base
  header_le_base : 40 ≤ s.base

namespace Accepted

variable {s : LayoutSettings}

theorem alignment_dvd_firstOffset (h : s.Accepted) : s.alignment ∣ s.firstOffset :=
  Nat.dvd_add h.base_aligned (Nat.dvd_mul_right _ _)

theorem header_le_firstOffset (h : s.Accepted) : 40 ≤ s.firstOffset :=
  Nat.le_add_right_of_le h.header_le_base

end Accepted

theorem alignment_lt (s : LayoutSettings) : s.alignment < 2 ^ 32 :=
  s.eraseBlockAlignment.toNat_lt

theorem copies_lt (s : LayoutSettings) : s.copies < 2 ^ 32 :=
  s.directoryCopies.toNat_lt

/-- The index of a copy does not wrap. -/
theorem toNat_index_succ (s : LayoutSettings) {index : UInt32} (h : index.toNat < s.copies) :
    (index + 1).toNat = index.toNat + 1 := by
  have h_copies := s.copies_lt
  show (index.toNat + 1) % 2 ^ 32 = index.toNat + 1
  exact Nat.mod_eq_of_lt (by omega)

theorem base_lt (s : LayoutSettings) : s.base < 2 ^ 32 :=
  s.baseWord.toNat_lt

/-- No region of the directory begins past the end of 64-bit offsets, whatever its index. -/
theorem region_lt (s : LayoutSettings) {n : Nat} (h : n < 2 ^ 32) :
    s.base + s.alignment * n < 2 ^ 64 := by
  have h_mul : s.alignment * n ≤ (2 ^ 32 - 1) * (2 ^ 32 - 1) :=
    Nat.mul_le_mul (Nat.le_pred_of_lt s.alignment_lt) (Nat.le_pred_of_lt h)
  have h_base := s.base_lt
  omega

theorem copyEnd_lt (s : LayoutSettings) {n : Nat} (h : n ≤ s.copies) :
    s.base + s.alignment * n < 2 ^ 64 :=
  s.region_lt (Nat.lt_of_le_of_lt h s.copies_lt)

def initialCursor (s : LayoutSettings) : Cursor :=
  { alignment := s.eraseBlockAlignment.toUInt64
    directoryCopies := s.directoryCopies
    directoryBase := s.baseWord.toUInt64
    nextOffset :=
      s.baseWord.toUInt64 + s.eraseBlockAlignment.toUInt64 * s.directoryCopies.toUInt64 }

end LayoutSettings

/-! ## The cursor -/

namespace Cursor

theorem ofSettings_eq_ok_iff {s : LayoutSettings} {c : Cursor} :
    ofSettings s = .ok c ↔ s.Accepted ∧ c = s.initialCursor := by
  have base_word : (s.startOfDirectory.map (·.toUInt64)).getD s.eraseBlockAlignment.toUInt64 =
      s.baseWord.toUInt64 := by
    unfold LayoutSettings.baseWord
    cases s.startOfDirectory <;> rfl
  have power : (!isPowerOfTwo s.eraseBlockAlignment) = true ↔ ¬ s.alignment.isPowerOfTwo := by
    rw [Bool.not_eq_true', ← Bool.not_eq_true, isPowerOfTwo_iff]
    rfl
  have copies : s.directoryCopies < 1 ↔ ¬ 1 ≤ s.copies := by
    rw [UInt32.lt_iff_toNat_lt, Nat.not_le]
    rfl
  have aligned : s.baseWord.toUInt64 % s.eraseBlockAlignment.toUInt64 ≠ 0 ↔
      ¬ s.alignment ∣ s.base := by
    rw [ne_eq, ← UInt64.toNat_inj, UInt64.toNat_mod, Nat.dvd_iff_mod_eq_zero]
    rfl
  have behind : s.baseWord.toUInt64 < s.eraseBlockAlignment.toUInt64 ↔
      ¬ s.alignment ≤ s.base := by
    rw [UInt64.lt_iff_toNat_lt, Nat.not_le]
    rfl
  have outside : s.baseWord.toUInt64 < 40 ↔ ¬ 40 ≤ s.base := by
    rw [UInt64.lt_iff_toNat_lt, Nat.not_le]
    rfl
  -- each check of the program is the negation of one of the five conditions
  unfold ofSettings start
  simp only [base_word, power, copies, aligned, behind, outside]
  constructor
  · intro h
    split at h
    · cases h
    split at h
    · cases h
    split at h
    · cases h
    split at h
    · cases h
    split at h
    · cases h
    rename_i power copies aligned behind outside
    cases h
    exact ⟨⟨not_not.mp power, not_not.mp copies, not_not.mp aligned, not_not.mp behind,
      not_not.mp outside⟩, rfl⟩
  · rintro ⟨h, rfl⟩
    rw [if_neg (not_not.mpr h.power), if_neg (not_not.mpr h.copies_pos),
      if_neg (not_not.mpr h.base_aligned), if_neg (not_not.mpr h.alignment_le_base),
      if_neg (not_not.mpr h.header_le_base)]
    rfl

/-- What a cursor keeps of the settings that it was made from. -/
structure Follows (c : Cursor) (s : LayoutSettings) : Prop where
  alignment_eq : c.alignment.toNat = s.alignment
  copies_eq : c.directoryCopies = s.directoryCopies
  base_eq : c.directoryBase = s.baseWord.toUInt64

theorem initialCursor_follows (s : LayoutSettings) : s.initialCursor.Follows s :=
  ⟨rfl, rfl, rfl⟩

theorem toNat_initialCursor_nextOffset (s : LayoutSettings) :
    s.initialCursor.nextOffset.toNat = s.firstOffset := by
  have h_end : s.base + s.alignment * s.copies < 2 ^ 64 := s.copyEnd_lt (Nat.le_refl _)
  have h_mul : s.alignment * s.copies < 2 ^ 64 := Nat.lt_of_le_of_lt (Nat.le_add_left _ _) h_end
  calc s.initialCursor.nextOffset.toNat
      = (s.base + s.alignment * s.copies % 2 ^ 64) % 2 ^ 64 := rfl
    _ = s.base + s.alignment * s.copies := by
        rw [Nat.mod_eq_of_lt h_mul, Nat.mod_eq_of_lt h_end]

namespace Follows

variable {c : Cursor} {s : LayoutSettings}

theorem toNat_base (h : c.Follows s) : c.directoryBase.toNat = s.base := by
  rw [h.base_eq]; rfl

theorem advance (h : c.Follows s) (size : UInt64) : (c.advance size).Follows s :=
  ⟨h.alignment_eq, h.copies_eq, h.base_eq⟩

theorem toNat_copyOffset (h : c.Follows s) {index : UInt32} (h_le : index.toNat ≤ s.copies) :
    (c.copyOffset index).toNat = s.base + s.alignment * index.toNat := by
  have h_end := s.copyEnd_lt h_le
  have h_mul : s.alignment * index.toNat < 2 ^ 64 :=
    Nat.lt_of_le_of_lt (Nat.le_add_left _ _) h_end
  rw [copyOffset, UInt64.toNat_add, UInt64.toNat_mul, h.alignment_eq, h.toNat_base,
    UInt32.toNat_toUInt64, Nat.mod_eq_of_lt h_mul, Nat.mod_eq_of_lt h_end]

end Follows

end Cursor

theorem RootBuilder.start_eq_ok {medium : Medium} {s : LayoutSettings} {b : RootBuilder}
    (h : RootBuilder.start medium s = .ok b) :
    s.Accepted ∧ b = { medium, settings := s, cursor := s.initialCursor } := by
  unfold RootBuilder.start at h
  cases h_cursor : Cursor.ofSettings s with
  | error e => rw [h_cursor] at h; cases h
  | ok c =>
    rw [h_cursor] at h
    cases h
    obtain ⟨accepted, rfl⟩ := Cursor.ofSettings_eq_ok_iff.mp h_cursor
    exact ⟨accepted, rfl⟩

end FlashImage
