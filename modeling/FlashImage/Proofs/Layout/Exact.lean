import FlashImage.Proofs.Exact
import FlashImage.Proofs.Layout.Finish

/-!
# Offsets that never wrap

The offsets of a build are words, whose sums and products wrap and whose
differences do too.  Here is the same build with exact arithmetic, and with a medium that
must not be written past 32-bit offsets.  It always has a result, and this is that of the
build with plain words.

* `address_space_safe`: the two builds agree, and which payloads they refuse.
-/

namespace FlashImage

namespace Exact

/-! ## The cursor -/

def alignUp (value alignment : UInt64) : Option UInt64 := do
  let last ← sub (← add value alignment) 1
  let below ← sub alignment 1
  some (last &&& ~~~below)

def copyOffset (c : Cursor) (index : UInt32) : Option UInt64 := do
  add c.directoryBase (← mul c.alignment index.toUInt64)

/-- The checks on the settings of a layout come first.  The first module then goes
where one more copy of the directory would begin. -/
def cursor (s : LayoutSettings) : Option (Except LayoutError Cursor) :=
  match Cursor.ofSettings s with
  | .error e => some (.error e)
  | .ok c => do
      let nextOffset ← copyOffset c c.directoryCopies
      some (.ok { c with nextOffset })

def advance (c : Cursor) (size : UInt64) : Option Cursor := do
  let nextOffset ← alignUp (← add c.nextOffset size) c.alignment
  some { c with nextOffset }

/-! ## The build -/

/-- Writes to a medium, but no byte past 32-bit offsets. -/
def write (m : Medium) (offset : UInt64) (bytes : Bytes) : Option (Except WriteFault Medium) :=
  if bytes = [] ∨ offset.toNat + bytes.length ≤ 2 ^ 32 then some (m.write offset.toNat bytes)
  else none

def allocate (b : RootBuilder) (category : ModuleCategory) (identifier : UInt32) (size : Nat) :
    Option (Except LayoutError ModulePlacement) := do
  let offset := b.cursor.nextOffset
  let length ← word size
  let relative ← sub offset b.cursor.directoryBase
  match narrow relative, narrow length with
  | some directoryOffset, some size =>
      let stop ← add offset length
      if stop.toNat ≤ 2 ^ 32 then some (.ok { category, identifier, offset, directoryOffset, size })
      else some (.error (.beyondAddressSpace offset))
  | _, _ => some (.error (.beyondAddressSpace offset))

def addBytes (b : RootBuilder) (a : Attempt) :
    Option (Except LayoutError ModulePlacement × RootBuilder) :=
  match RootBuilder.checkModule a.category a.identifier a.bytes.length with
  | .error e => some (.error e, b)
  | .ok () => do
      match ← allocate b a.category a.identifier a.bytes.length with
      | .error e => some (.error e, b)
      | .ok p =>
          match b.directory.add ⟨a.identifier, p.directoryOffset, p.size⟩ with
          | .error e => some (.error (.duplicate e), b)
          | .ok directory => do
              match ← write b.medium p.offset a.bytes with
              | .error fault => some (.error (.unwritable fault), { b with directory })
              | .ok medium => do
                  let stop ← add p.offset p.size.toUInt64
                  let cursor ← advance b.cursor p.size.toUInt64
                  some (.ok p, { b with
                    medium, directory, cursor
                    placements := b.placements ++ [p]
                    imageEnd := max b.imageEnd stop })

def writeAt (b : RootBuilder) (offset : UInt64) (bytes : Bytes) :
    Option (Except LayoutError RootBuilder) := do
  match ← write b.medium offset bytes with
  | .error fault => some (.error (.unwritable fault))
  | .ok medium => do
      let stop ← add offset (← word bytes.length)
      some (.ok { b with medium, imageEnd := max b.imageEnd stop })

def writeCopies (directory : Bytes) (b : RootBuilder) (index : UInt32) :
    Nat → Option (Except LayoutError Unit × RootBuilder)
  | 0 => some (.ok (), b)
  | n + 1 => do
      match ← writeAt b (← copyOffset b.cursor index) directory with
      | .error e => some (.error e, b)
      | .ok b => writeCopies directory b (index + 1) n

def finish (b : RootBuilder) : Option (Except LayoutError RootReport × Medium) :=
  let directory := b.directoryBytes
  let base := b.cursor.directoryBase
  if b.cursor.alignment.toNat < directory.length then
    some (.error (.directoryTooLarge directory.length b.settings.eraseBlockAlignment), b.medium)
  else do
    let header := { b.header with
      startOfDirectory := ← narrow base
      sizeOfDirectory := ← narrow (← word directory.length) }
    match ← writeAt b 0 header.encode with
    | .error e => some (.error e, b.medium)
    | .ok headed => do
        match ← writeCopies directory headed 0 b.cursor.directoryCopies.toNat with
        | (.error e, done) => some (.error e, done.medium)
        | (.ok (), done) =>
            match done.medium.flush with
            | .error fault => some (.error (.unwritable fault), done.medium)
            | .ok medium =>
                some (.ok { header, alignment := b.cursor.alignment, directoryBase := base,
                            imageSize := done.imageEnd, modules := b.placements }, medium)

end Exact

/-! ## What keeps it from getting stuck -/

/-- What holds of a builder after any run of attempts, whatever its medium takes. -/
structure Bounded (s : LayoutSettings) (b : RootBuilder) : Prop where
  follows : b.cursor.Follows s
  first_le : s.firstOffset ≤ b.cursor.nextOffset.toNat
  /-- Once there is an entry, the copies of the directory lie inside 32-bit offsets. -/
  copies_le : b.directory.entries ≠ [] → s.firstOffset ≤ 2 ^ 32

namespace Bounded

variable {s : LayoutSettings} {b : RootBuilder}

theorem start {medium : Medium} (h_start : RootBuilder.start medium s = .ok b) : Bounded s b := by
  obtain ⟨-, rfl⟩ := RootBuilder.start_eq_ok h_start
  exact {
    follows := Cursor.initialCursor_follows s
    first_le := Nat.le_of_eq (Cursor.toNat_initialCursor_nextOffset s).symm
    copies_le := fun h => absurd rfl h }

theorem base_le (h : Bounded s b) : b.cursor.directoryBase.toNat ≤ b.cursor.nextOffset.toNat := by
  rw [h.follows.toNat_base]
  exact Nat.le_trans (Nat.le_add_right _ _) h.first_le

theorem base_lt (h : Bounded s b) : b.cursor.directoryBase.toNat < 2 ^ 32 := by
  rw [h.follows.toNat_base]
  exact s.base_lt

theorem toNat_relative (h : Bounded s b) :
    (b.cursor.nextOffset - b.cursor.directoryBase).toNat = b.cursor.nextOffset.toNat - s.base := by
  rw [UInt64.toNat_sub_of_le _ _ (UInt64.le_iff_toNat_le.mpr h.base_le), h.follows.toNat_base]

theorem attempt (h : Bounded s b) (accepted : s.Accepted) (a : Attempt) :
    Bounded s (b.attempt a).2 := by
  have outcome := b.attempt_outcome a
  generalize b.attempt a = result at outcome ⊢
  have copies_le : ∀ {p}, b.Admits a p → s.firstOffset ≤ 2 ^ 32 := fun fit =>
    Nat.le_trans h.first_le (Nat.le_trans (Nat.le_add_right _ _) fit.room.2.2)
  cases outcome with
  | refused unfit cause => exact h
  | unwritten fit failed => exact { h with copies_le := fun _ => copies_le fit }
  | @accepted p medium fit written =>
    have h_stop : b.cursor.nextOffset.toNat ≤ p.stop := by
      rw [← fit.offset_eq]
      exact Nat.le_add_right _ _
    exact {
      follows := h.follows.advance _
      first_le := Nat.le_trans h.first_le
        (Nat.le_trans h_stop (fit.least_advance h.follows accepted).1.2)
      copies_le := fun _ => copies_le fit }

end Bounded

theorem bounded_addAll {medium : Medium} {s : LayoutSettings} {b : RootBuilder}
    (h_start : RootBuilder.start medium s = .ok b) (attempts : List Attempt) :
    Bounded s (b.addAll attempts) := by
  have accepted := (RootBuilder.start_eq_ok h_start).1
  exact @RootBuilder.addAll_induction (fun b _ => Bounded s b) (fun _ _ a h => h.attempt accepted a)
    b [] (.start h_start) attempts

/-! ## The two builds agree -/

namespace Exact

variable {s : LayoutSettings} {b : RootBuilder}

theorem alignUp_eq {value alignment : UInt64} (pos : 1 ≤ alignment.toNat)
    (fits : value.toNat + alignment.toNat < 2 ^ 64) :
    alignUp value alignment = some (FlashImage.alignUp value alignment) := by
  have h_last : sub (value + alignment) 1 = some (value + alignment - 1) := by
    apply sub_eq
    rw [UInt64.toNat_add, Nat.mod_eq_of_lt fits]
    exact Nat.le_add_left_of_le pos
  have h_below : sub alignment 1 = some (alignment - 1) := sub_eq pos
  simp only [alignUp, add_eq fits, h_last, h_below, Option.bind_eq_bind, Option.bind_some]
  rfl

/-- The place of a copy does not wrap, whether there is such a copy or not. -/
theorem copyOffset_eq {c : Cursor} (follows : c.Follows s) (index : UInt32) :
    copyOffset c index = some (c.copyOffset index) := by
  have h_end := s.region_lt index.toNat_lt
  have h_lt : s.alignment * index.toNat < 2 ^ 64 := Nat.lt_of_le_of_lt (Nat.le_add_left _ _) h_end
  have h_mul : mul c.alignment index.toUInt64 = some (c.alignment * index.toUInt64) := by
    apply mul_eq
    rwa [follows.alignment_eq]
  rw [copyOffset, h_mul, Option.bind_eq_bind, Option.bind_some]
  apply add_eq
  rwa [follows.toNat_base, UInt64.toNat_mul, follows.alignment_eq, UInt32.toNat_toUInt64,
    Nat.mod_eq_of_lt h_lt]

theorem cursor_eq (s : LayoutSettings) : cursor s = some (Cursor.ofSettings s) := by
  unfold cursor
  cases h_cursor : Cursor.ofSettings s with
  | error e => rfl
  | ok c =>
    obtain ⟨-, rfl⟩ := Cursor.ofSettings_eq_ok_iff.mp h_cursor
    have h_next := copyOffset_eq (Cursor.initialCursor_follows s) s.initialCursor.directoryCopies
    simp only [h_next, Option.bind_eq_bind, Option.bind_some]
    rfl

theorem advance_eq {c : Cursor} (follows : c.Follows s) (accepted : s.Accepted) {size : UInt64}
    (h_stop : c.nextOffset.toNat + size.toNat ≤ 2 ^ 32) :
    advance c size = some (c.advance size) := by
  have h_alignment := s.alignment_lt
  have h_sum : (c.nextOffset + size).toNat = c.nextOffset.toNat + size.toNat := by
    rw [UInt64.toNat_add]
    exact Nat.mod_eq_of_lt (by omega)
  have h_align : alignUp (c.nextOffset + size) c.alignment =
      some (FlashImage.alignUp (c.nextOffset + size) c.alignment) := by
    apply alignUp_eq
    · rw [follows.alignment_eq]
      exact Nat.pos_of_isPowerOfTwo accepted.power
    · rw [h_sum, follows.alignment_eq]
      omega
  rw [advance, add_eq (by omega)]
  simp only [Option.bind_eq_bind, Option.bind_some, h_align]
  rfl

theorem write_eq {offset : UInt64} {bytes : Bytes} (m : Medium)
    (h : bytes ≠ [] → offset.toNat + bytes.length ≤ 2 ^ 32) :
    write m offset bytes = some (m.write offset.toNat bytes) :=
  if_pos (Decidable.or_iff_not_imp_left.mpr h)

theorem allocate_eq (h : Bounded s b) (category : ModuleCategory) (identifier : UInt32) {size : Nat}
    (short : size < 2 ^ 64) :
    allocate b category identifier size = some (b.allocate category identifier size) := by
  have h_length : (UInt64.ofNat size).toNat = size := UInt64.toNat_ofNat_of_lt' short
  have h_base := s.base_lt
  have h_relative := h.toNat_relative
  simp only [allocate, word_eq short, sub_eq h.base_le, Option.bind_eq_bind, Option.bind_some]
  unfold RootBuilder.allocate
  dsimp only
  by_cases h_far : 2 ^ 32 ≤ (b.cursor.nextOffset - b.cursor.directoryBase).toNat
  · rw [narrow_eq_none h_far, if_neg fun h_fits => Nat.not_lt.mpr h_far h_fits.1]
  by_cases h_long : 2 ^ 32 ≤ size
  · rw [narrow_eq_none (w := .ofNat size) (by rwa [h_length]),
      if_neg fun h_fits => Nat.not_lt.mpr h_long h_fits.2.1]
    cases narrow (b.cursor.nextOffset - b.cursor.directoryBase) <;> rfl
  have h_stop : b.cursor.nextOffset.toNat + (UInt64.ofNat size).toNat < 2 ^ 64 := by omega
  have h_sum : (b.cursor.nextOffset + UInt64.ofNat size).toNat =
      b.cursor.nextOffset.toNat + size := by
    rw [UInt64.toNat_add, Nat.mod_eq_of_lt h_stop, h_length]
  rw [narrow_eq (by omega), narrow_eq (by omega), add_eq h_stop]
  simp only [Option.bind_some, h_sum]
  by_cases h_end : b.cursor.nextOffset.toNat + size ≤ 2 ^ 32
  · rw [if_pos h_end, if_pos ⟨Nat.lt_of_not_le h_far, Nat.lt_of_not_le h_long, h_end⟩,
      UInt64.toUInt32_ofNat']
  · rw [if_neg h_end, if_neg fun h_fits => h_end h_fits.2.2]

theorem addBytes_eq (h : Bounded s b) (accepted : s.Accepted) {a : Attempt}
    (short : a.bytes.length < 2 ^ 64) : addBytes b a = some (b.attempt a) := by
  unfold addBytes RootBuilder.attempt RootBuilder.addBytes
  cases h_check : RootBuilder.checkModule a.category a.identifier a.bytes.length with
  | error e => rfl
  | ok _ =>
    simp only [allocate_eq h _ _ short, Option.bind_eq_bind, Option.bind_some]
    rcases b.allocate_cases a.category a.identifier a.bytes.length with
      ⟨p, h_alloc, -, -, h_offset, -, h_size, h_stop⟩ | ⟨h_alloc, -⟩
    · rw [h_alloc]
      dsimp only
      cases b.directory.add ⟨a.identifier, p.directoryOffset, p.size⟩ with
      | error e => rfl
      | ok directory =>
        have h_end : b.cursor.nextOffset.toNat + p.size.toUInt64.toNat ≤ 2 ^ 32 := by
          rwa [UInt32.toNat_toUInt64, h_size, ← h_offset]
        have h_sum : p.offset.toNat + p.size.toUInt64.toNat < 2 ^ 64 := by
          rw [h_offset]
          omega
        simp only [write_eq b.medium (fun _ => h_stop), Option.bind_some]
        cases b.medium.write p.offset.toNat a.bytes with
        | error fault => rfl
        | ok medium =>
          simp only [add_eq h_sum, advance_eq h.follows accepted h_end, Option.bind_some]
    · rw [h_alloc]

theorem writeAt_eq {offset : UInt64} {bytes : Bytes}
    (h : bytes ≠ [] → offset.toNat + bytes.length ≤ 2 ^ 32)
    (fits : offset.toNat + bytes.length < 2 ^ 64) :
    writeAt b offset bytes = some (b.write offset bytes) := by
  have short : bytes.length < 2 ^ 64 := Nat.lt_of_le_of_lt (Nat.le_add_left _ _) fits
  have h_add : add offset (.ofNat bytes.length) = some (offset + .ofNat bytes.length) := by
    apply add_eq
    rwa [UInt64.toNat_ofNat_of_lt' short]
  unfold writeAt RootBuilder.write
  rw [write_eq b.medium h, Option.bind_eq_bind, Option.bind_some]
  cases b.medium.write offset.toNat bytes with
  | error fault => rfl
  | ok medium => simp only [word_eq short, h_add, Option.bind_eq_bind, Option.bind_some]

/-- A copy of the directory lies behind the last one only if it is empty. -/
theorem writeCopies_eq {directory : Bytes} (n : Nat) {index : UInt32} (follows : b.cursor.Follows s)
    (h_fits : directory.length ≤ s.alignment) (h_le : index.toNat + n ≤ s.copies)
    (h_copies : directory ≠ [] → s.firstOffset ≤ 2 ^ 32) :
    writeCopies directory b index n = some (RootBuilder.writeCopies directory b index n) := by
  -- on the number of copies that are left
  induction n generalizing b index with
  | zero => rfl
  | succ n ih =>
    have h_offset : (b.cursor.copyOffset index).toNat = s.base + s.alignment * index.toNat :=
      follows.toNat_copyOffset (by omega)
    have h_end := s.copyEnd_lt (n := index.toNat + 1) (by omega)
    have h_region : s.alignment * (index.toNat + 1) ≤ s.alignment * s.copies :=
      Nat.mul_le_mul_left _ (by omega)
    rw [Nat.mul_succ] at h_end h_region
    have h_write : writeAt b (b.cursor.copyOffset index) directory =
        some (b.write (b.cursor.copyOffset index) directory) := by
      apply writeAt_eq
      · intro h_some
        have h_first := h_copies h_some
        rw [LayoutSettings.firstOffset] at h_first
        omega
      · omega
    rw [writeCopies, RootBuilder.writeCopies, copyOffset_eq follows]
    simp only [Option.bind_eq_bind, Option.bind_some, h_write]
    cases h_next : b.write (b.cursor.copyOffset index) directory with
    | error e => rfl
    | ok next =>
      have h_cursor := (RootBuilder.write_eq_ok (by omega) h_next).2.2
      have h_index : (index + 1).toNat = index.toNat + 1 := s.toNat_index_succ (by omega)
      exact ih (by rwa [h_cursor]) (by omega)

theorem finish_eq (h : Bounded s b) : finish b = some b.finish := by
  have h_copies : b.directoryBytes ≠ [] → s.firstOffset ≤ 2 ^ 32 := by
    intro h_some
    refine h.copies_le fun h_none => h_some (List.eq_nil_of_length_eq_zero ?_)
    rw [RootBuilder.directoryBytes, DirectoryTable.length_encode]
    show 12 * b.directory.entries.length = 0
    rw [h_none, List.length_nil]
  unfold finish RootBuilder.finish
  dsimp only
  by_cases h_long : b.cursor.alignment.toNat < b.directoryBytes.length
  · rw [if_pos h_long, if_pos h_long]
  have h_fits : b.directoryBytes.length ≤ s.alignment := by
    rw [← h.follows.alignment_eq]
    exact Nat.le_of_not_lt h_long
  have h_size : b.directoryBytes.length < 2 ^ 32 := Nat.lt_of_le_of_lt h_fits s.alignment_lt
  have h_word : word b.directoryBytes.length = some (.ofNat b.directoryBytes.length) :=
    word_eq (Nat.lt_trans h_size (by decide))
  have h_narrow : narrow (.ofNat b.directoryBytes.length) =
      some (UInt32.ofNat b.directoryBytes.length) := by
    rw [narrow_eq, UInt64.toUInt32_ofNat']
    rwa [UInt64.toNat_ofNat_of_lt' (Nat.lt_trans h_size (by decide))]
  have h_header : writeAt b 0 b.header.encode = some (b.write 0 b.header.encode) :=
    writeAt_eq (fun _ => show 0 + 40 ≤ 2 ^ 32 by decide) (show 0 + 40 < 2 ^ 64 by decide)
  rw [if_neg h_long, if_neg h_long, if_neg (show ¬ 1 <<< 32 ≤ _ from Nat.not_le.mpr h.base_lt),
    narrow_eq h.base_lt, h_word]
  simp only [Option.bind_eq_bind, Option.bind_some, h_narrow]
  show (writeAt b 0 b.header.encode).bind _ = _
  rw [h_header, Option.bind_some]
  cases h_write : b.write 0 b.header.encode with
  | error e => rfl
  | ok headed =>
    have h_width : (0 : UInt64).toNat + b.header.encode.length < 2 ^ 64 :=
      show 0 + 40 < 2 ^ 64 by decide
    have h_cursor : headed.cursor = b.cursor := (RootBuilder.write_eq_ok h_width h_write).2.2
    have h_le : (0 : UInt32).toNat + b.cursor.directoryCopies.toNat ≤ s.copies := by
      rw [h.follows.copies_eq]
      exact Nat.le_of_eq (Nat.zero_add _)
    have h_writes := writeCopies_eq b.cursor.directoryCopies.toNat
        (h_cursor ▸ h.follows) h_fits h_le
      h_copies
    dsimp only
    rw [h_writes, Option.bind_some]
    cases RootBuilder.writeCopies b.directoryBytes headed 0 b.cursor.directoryCopies.toNat with
    | mk result done =>
      cases result with
      | error e => rfl
      | ok =>
        dsimp only
        cases done.medium.flush <;> rfl

end Exact

/-! ## Errors -/

namespace RootBuilder

variable {s : LayoutSettings} {b : RootBuilder}

/-- An attempt that is refused for its place or its length has passed the checks before. -/
theorem attempt_eq_beyond_iff {a : Attempt} {offset : UInt64} :
    (b.attempt a).1 = .error (.beyondAddressSpace offset) ↔
      offset = b.cursor.nextOffset ∧ checkModule a.category a.identifier a.bytes.length = .ok () ∧
        ¬ ((b.cursor.nextOffset - b.cursor.directoryBase).toNat < 2 ^ 32 ∧
          a.bytes.length < 2 ^ 32 ∧ b.cursor.nextOffset.toNat + a.bytes.length ≤ 2 ^ 32) := by
  unfold attempt addBytes
  cases h_check : checkModule a.category a.identifier a.bytes.length with
  | error e =>
    refine iff_of_false (fun h_eq => ?_) (fun h => by cases h.2.1)
    cases Except.error.inj h_eq
    rcases checkModule_eq_error h_check with h_eq | h_eq <;> cases h_eq
  | ok _ =>
    rcases b.allocate_cases a.category a.identifier a.bytes.length with
      ⟨p, h_alloc, -, -, h_offset, h_directory, h_size, h_stop⟩ | ⟨h_alloc, h_beyond⟩
    · have room : (b.cursor.nextOffset - b.cursor.directoryBase).toNat < 2 ^ 32 ∧
          a.bytes.length < 2 ^ 32 ∧ b.cursor.nextOffset.toNat + a.bytes.length ≤ 2 ^ 32 := by
        rw [← h_directory, ← h_size, ← h_offset]
        exact ⟨p.directoryOffset.toNat_lt, p.size.toNat_lt, by rwa [h_size]⟩
      refine iff_of_false (fun h_eq => ?_) (fun h => h.2.2 room)
      rw [h_alloc] at h_eq
      dsimp only at h_eq
      split at h_eq
      · cases h_eq
      · split at h_eq <;> cases h_eq
    · rw [h_alloc]
      dsimp only
      constructor
      · intro h_eq
        cases h_eq
        exact ⟨rfl, rfl, h_beyond⟩
      · rintro ⟨rfl, -⟩
        rfl

theorem write_eq_error {offset : UInt64} {bytes : Bytes} {e : LayoutError}
    (h : b.write offset bytes = .error e) : ∃ fault, e = .unwritable fault := by
  unfold write at h
  split at h
  · exact ⟨_, (Except.error.inj h).symm⟩
  · cases h

theorem writeCopies_eq_error {directory : Bytes} (n : Nat) {index : UInt32} {e : LayoutError}
    (h : (writeCopies directory b index n).1 = .error e) : ∃ fault, e = .unwritable fault := by
  induction n generalizing b index with
  | zero => cases h
  | succ n ih =>
    rw [writeCopies] at h
    split at h
    next h_write =>
      cases h
      exact write_eq_error h_write
    next => exact ih h

/-- The first copy of the directory has a 32-bit offset, and nothing else is checked
that could be out of reach. -/
theorem finish_ne_beyond (follows : b.cursor.Follows s) (offset : UInt64) :
    b.finish.1 ≠ .error (.beyondAddressSpace offset) := by
  intro h
  unfold finish at h
  dsimp only at h
  split at h
  · cases h
  · split at h
    next h_far =>
      rw [follows.toNat_base] at h_far
      exact Nat.not_lt.mpr h_far s.base_lt
    · split at h
      next h_write =>
        cases h
        obtain ⟨fault, h_fault⟩ := write_eq_error h_write
        cases h_fault
      next headed _ =>
        split at h
        next h_copies =>
          cases h
          obtain ⟨fault, h_fault⟩ := writeCopies_eq_error _ (congrArg Prod.fst h_copies)
          cases h_fault
        next => split at h <;> cases h

end RootBuilder

/-! ## Safety -/

/-- After any run of attempts the next attempt, the finish and the place of any copy of
the directory are those of a build whose arithmetic cannot wrap and whose writes
stay inside 32-bit offsets, on any medium. -/
theorem address_space_safe {medium : Medium} {s : LayoutSettings} {b : RootBuilder}
    (h_start : RootBuilder.start medium s = .ok b) (attempts : List Attempt) :
    let done := b.addAll attempts
    Exact.cursor s = some (.ok b.cursor) ∧
      (∀ index, Exact.copyOffset done.cursor index = some (done.cursor.copyOffset index)) ∧
      (∀ a, a.bytes.length < 2 ^ 63 → Exact.addBytes done a = some (done.attempt a)) ∧
      Exact.finish done = some done.finish ∧
      (∀ offset, done.finish.1 ≠ .error (.beyondAddressSpace offset)) ∧
      ∀ a offset, (done.attempt a).1 = .error (.beyondAddressSpace offset) ↔
        offset = done.cursor.nextOffset ∧ a.category.contains a.identifier = true ∧
          (a.category = .appData → a.bytes.length % 4 = 0) ∧
          (2 ^ 32 < offset.toNat + a.bytes.length ∨ 2 ^ 32 ≤ a.bytes.length ∨
            2 ^ 32 ≤ offset.toNat - s.base) := by
  obtain ⟨accepted, h_b⟩ := RootBuilder.start_eq_ok h_start
  have h_bounded := bounded_addAll h_start attempts
  dsimp only
  generalize b.addAll attempts = done at h_bounded ⊢
  refine ⟨?_, Exact.copyOffset_eq h_bounded.follows, fun a short => ?_, Exact.finish_eq h_bounded,
    RootBuilder.finish_ne_beyond h_bounded.follows, fun a offset => ?_⟩
  · rw [Exact.cursor_eq, Cursor.ofSettings_eq_ok_iff.mpr ⟨accepted, rfl⟩, h_b]
  · exact Exact.addBytes_eq h_bounded accepted (Nat.lt_trans short (by decide))
  · rw [RootBuilder.attempt_eq_beyond_iff, RootBuilder.checkModule_eq_ok_iff,
      h_bounded.toNat_relative, and_assoc]
    refine and_congr_right fun h_offset => and_congr_right fun _ => and_congr_right fun _ => ?_
    rw [h_offset]
    omega

/-- The regions of the directory may reach almost to the end of signed 64-bit offsets. -/
def widestLayout : LayoutSettings where
  eraseBlockAlignment := 0x80000000
  directoryCopies := 0xFFFFFFFF

/-- Behind all these copies there is no room for a module, not even for an empty one,
while in a small layout there is. -/
theorem address_space_safe_widest :
    (∃ b, RootBuilder.start {} widestLayout = .ok b ∧
      Exact.cursor widestLayout = some (.ok b.cursor) ∧ b.cursor.nextOffset = 0x8000000000000000 ∧
      Exact.finish b = some b.finish ∧
      (b.attempt ⟨.appData, 0x5001, []⟩).1 = .error (.beyondAddressSpace 0x8000000000000000)) ∧
    ∃ b, RootBuilder.start {} mixedLayout = .ok b ∧
      Exact.finish (b.addAll mixedAttempts) = some (b.addAll mixedAttempts).finish ∧
      Exact.addBytes (b.addAll mixedAttempts) ⟨.ml, 0x2003, [7]⟩ =
        some ((b.addAll mixedAttempts).attempt ⟨.ml, 0x2003, [7]⟩) := by
  constructor
  · refine ⟨_, by rfl, ?_⟩
    obtain ⟨h_cursor, -, -, h_finish, -, h_beyond⟩ := @address_space_safe {} widestLayout _ rfl []
    exact ⟨h_cursor, by decide, h_finish, (h_beyond _ _).mpr (by decide)⟩
  · refine ⟨_, by rfl, ?_⟩
    obtain ⟨-, -, h_add, h_finish, -⟩ := @address_space_safe {} mixedLayout _ rfl mixedAttempts
    exact ⟨h_finish, h_add _ (by decide)⟩

end FlashImage
