import FlashImage.Layout.Builder
import FlashImage.Proofs.Image
import FlashImage.Proofs.Layout.Directory

/-!
# Adding modules

One attempt to add a module ends in one of three ways, and what it leaves
behind is different in each.  Everything that is proved about builders goes
through this case analysis, never through the definition of an attempt.

* `RootBuilder.addAll_induction`: what every attempt preserves, every run does.
-/

namespace FlashImage

structure Attempt where
  category : ModuleCategory
  identifier : UInt32
  bytes : Bytes
  deriving DecidableEq, Repr

/-- An attempt that was accepted, and where its payload was put. -/
structure PlacedModule where
  attempt : Attempt
  placement : ModulePlacement
  deriving DecidableEq, Repr

def ModulePlacement.entry (p : ModulePlacement) : DirectoryEntry :=
  ⟨p.identifier, p.directoryOffset, p.size⟩

@[simp] theorem ModulePlacement.identifier_entry (p : ModulePlacement) :
    p.entry.identifier = p.identifier := rfl

/-! ## Checks -/

namespace RootBuilder

theorem checkModule_eq (category : ModuleCategory) (identifier : UInt32) (size : Nat) :
    checkModule category identifier size =
      if category.contains identifier = true then
        if category = .appData ∧ size % 4 ≠ 0 then
          .error (.misaligned (.raggedAppData identifier size))
        else .ok ()
      else .error (.outOfRange category identifier) := by
  unfold checkModule ModuleCategory.validate
  split <;> rfl

theorem checkModule_eq_ok_iff {category : ModuleCategory} {identifier : UInt32} {size : Nat} :
    checkModule category identifier size = .ok () ↔
      category.contains identifier = true ∧ (category = .appData → size % 4 = 0) := by
  rw [checkModule_eq]
  split
  next in_range =>
    split
    next ragged => exact iff_of_false (by simp) fun h => ragged.2 (h.2 ragged.1)
    next whole => exact iff_of_true rfl ⟨in_range, by simpa using whole⟩
  next out_of_range => exact iff_of_false (by simp) fun h => out_of_range h.1

theorem checkModule_eq_error {category : ModuleCategory} {identifier : UInt32} {size : Nat}
    {e : LayoutError} (h : checkModule category identifier size = .error e) :
    e = .misaligned (.raggedAppData identifier size) ∨ e = .outOfRange category identifier := by
  rw [checkModule_eq] at h
  split at h
  · split at h
    · exact .inl (Except.error.inj h).symm
    · cases h
  · exact .inr (Except.error.inj h).symm

/-- All checks on an attempt pass, and this is the placement that it gets. -/
structure Admits (b : RootBuilder) (a : Attempt) (p : ModulePlacement) : Prop where
  in_range : a.category.contains a.identifier = true
  whole : a.category = .appData → a.bytes.length % 4 = 0
  category_eq : p.category = a.category
  identifier_eq : p.identifier = a.identifier
  offset_eq : p.offset = b.cursor.nextOffset
  directoryOffset_eq : p.directoryOffset.toNat =
    (b.cursor.nextOffset - b.cursor.directoryBase).toNat
  size_eq : p.size.toNat = a.bytes.length
  stop_le : p.offset.toNat + a.bytes.length ≤ 2 ^ 32
  fresh : b.directory.contains a.identifier = false

theorem Admits.room {b : RootBuilder} {a : Attempt} {p : ModulePlacement} (fit : b.Admits a p) :
    (b.cursor.nextOffset - b.cursor.directoryBase).toNat < 2 ^ 32 ∧ a.bytes.length < 2 ^ 32 ∧
      b.cursor.nextOffset.toNat + a.bytes.length ≤ 2 ^ 32 := by
  rw [← fit.directoryOffset_eq, ← fit.offset_eq]
  refine ⟨p.directoryOffset.toNat_lt, ?_, fit.stop_le⟩
  rw [← fit.size_eq]
  exact p.size.toNat_lt

def registered (b : RootBuilder) (p : ModulePlacement) : RootBuilder :=
  { b with directory := b.directory.push p.entry }

def placed (b : RootBuilder) (p : ModulePlacement) (medium : Medium) : RootBuilder :=
  { b.registered p with
    medium
    cursor := b.cursor.advance p.size.toUInt64
    placements := b.placements ++ [p]
    imageEnd := max b.imageEnd (p.offset + p.size.toUInt64) }

def attempt (b : RootBuilder) (a : Attempt) : Except LayoutError ModulePlacement × RootBuilder :=
  b.addBytes a.category a.identifier a.bytes

/-- The ways in which an attempt ends, with what it leaves behind. -/
inductive Outcome (b : RootBuilder) (a : Attempt) :
    Except LayoutError ModulePlacement × RootBuilder → Prop where
  /-- A check fails. -/
  | refused {e : LayoutError} (unfit : ∀ p, ¬ b.Admits a p)
      (cause : ∀ fault, e ≠ .unwritable fault) :
      Outcome b a (.error e, b)
  /-- The checks pass, but the payload cannot be written. -/
  | unwritten {p : ModulePlacement} {fault : WriteFault} (fit : b.Admits a p)
      (failed : b.medium.write p.offset.toNat a.bytes = .error fault) :
      Outcome b a (.error (.unwritable fault), b.registered p)
  | accepted {p : ModulePlacement} {medium : Medium} (fit : b.Admits a p)
      (written : b.medium.write p.offset.toNat a.bytes = .ok medium) :
      Outcome b a (.ok p, b.placed p medium)

theorem allocate_cases (b : RootBuilder) (category : ModuleCategory) (identifier : UInt32)
    (size : Nat) :
    (∃ p, b.allocate category identifier size = .ok p ∧ p.category = category ∧
      p.identifier = identifier ∧ p.offset = b.cursor.nextOffset ∧
      p.directoryOffset.toNat = (b.cursor.nextOffset - b.cursor.directoryBase).toNat ∧
      p.size.toNat = size ∧ p.offset.toNat + size ≤ 2 ^ 32) ∨
    (b.allocate category identifier size = .error (.beyondAddressSpace b.cursor.nextOffset) ∧
      ¬ ((b.cursor.nextOffset - b.cursor.directoryBase).toNat < 2 ^ 32 ∧ size < 2 ^ 32 ∧
        b.cursor.nextOffset.toNat + size ≤ 2 ^ 32)) := by
  unfold allocate
  by_cases h : (b.cursor.nextOffset - b.cursor.directoryBase).toNat < 2 ^ 32 ∧ size < 2 ^ 32 ∧
      b.cursor.nextOffset.toNat + size ≤ 2 ^ 32
  · refine Or.inl ⟨_, if_pos h, rfl, rfl, rfl, ?_, ?_, h.2.2⟩
    · exact (UInt64.toNat_toUInt32 _).trans (Nat.mod_eq_of_lt h.1)
    · exact UInt32.toNat_ofNat_of_lt h.2.1
  · exact Or.inr ⟨if_neg h, h⟩

theorem attempt_outcome (b : RootBuilder) (a : Attempt) : b.Outcome a (b.attempt a) := by
  unfold attempt addBytes
  -- the checks in their order: the module, the room for it, its identifier; then the write
  cases h_check : checkModule a.category a.identifier a.bytes.length with
  | error e =>
    refine .refused (fun p fit => ?_) (fun fault h_eq => ?_)
    · rw [checkModule_eq_ok_iff.mpr ⟨fit.in_range, fit.whole⟩] at h_check
      cases h_check
    · subst h_eq
      rcases checkModule_eq_error h_check with h_eq | h_eq <;> cases h_eq
  | ok _ =>
    obtain ⟨in_range, whole⟩ := checkModule_eq_ok_iff.mp h_check
    rcases b.allocate_cases a.category a.identifier a.bytes.length with
      ⟨p, h_alloc, h_category, h_identifier, h_offset, h_directory, h_size, h_stop⟩ |
      ⟨h_alloc, h_beyond⟩
    · have h_entry : (⟨a.identifier, p.directoryOffset, p.size⟩ : DirectoryEntry) = p.entry := by
        rw [← h_identifier]
        rfl
      rw [h_alloc]
      dsimp only
      rw [h_entry]
      cases h_taken : b.directory.contains a.identifier with
      | true =>
        have taken : b.directory.contains p.entry.identifier = true := by
          rwa [p.identifier_entry, h_identifier]
        rw [DirectoryTable.add_of_taken taken]
        refine .refused (fun q fit => ?_) (fun fault h_eq => by cases h_eq)
        rw [fit.fresh] at h_taken
        cases h_taken
      | false =>
        have fit : b.Admits a p := ⟨in_range, whole, h_category, h_identifier, h_offset,
          h_directory, h_size, h_stop, h_taken⟩
        have fresh : b.directory.contains p.entry.identifier = false := by
          rwa [p.identifier_entry, h_identifier]
        rw [DirectoryTable.add_of_fresh fresh]
        cases h_write : b.medium.write p.offset.toNat a.bytes with
        | error fault => exact .unwritten fit h_write
        | ok medium => exact .accepted fit h_write
    · rw [h_alloc]
      exact .refused (fun p fit => h_beyond fit.room) (fun fault h_eq => by cases h_eq)

/-- On a medium that refuses no write, an attempt is accepted or changes nothing. -/
theorem attempt_unlimited {b : RootBuilder} (unlimited : b.medium.Unlimited) (a : Attempt) :
    (∃ e, b.attempt a = (.error e, b) ∧ ∀ p, ¬ b.Admits a p) ∨
      ∃ p, b.attempt a =
        (.ok p, b.placed p (b.medium.next (b.medium.image.write p.offset.toNat a.bytes))) ∧
        b.Admits a p := by
  have outcome := b.attempt_outcome a
  generalize b.attempt a = result at outcome ⊢
  cases outcome with
  | refused unfit cause => exact .inl ⟨_, rfl, unfit⟩
  | unwritten fit failed =>
    rw [Medium.write_of_unlimited unlimited] at failed
    cases failed
  | accepted fit written =>
    rw [Medium.write_of_unlimited unlimited] at written
    cases written
    exact .inr ⟨_, rfl, fit⟩

/-! ## Runs of attempts -/

/-- The builder after a run of attempts, whatever became of each. -/
def addAll (b : RootBuilder) : List Attempt → RootBuilder
  | [] => b
  | a :: attempts => addAll (b.attempt a).2 attempts

def acceptedBy (b : RootBuilder) (a : Attempt) : List PlacedModule :=
  match (b.attempt a).1 with
  | .ok p => [⟨a, p⟩]
  | .error _ => []

/-- The modules that a run of attempts added, in the order of the attempts. -/
def accepted (b : RootBuilder) : List Attempt → List PlacedModule
  | [] => []
  | a :: attempts => b.acceptedBy a ++ accepted (b.attempt a).2 attempts

/-- What every attempt preserves holds after every run.  The property may speak
of the modules that were added so far. -/
theorem addAll_induction {P : RootBuilder → List PlacedModule → Prop}
    (step : ∀ b modules a, P b modules → P (b.attempt a).2 (modules ++ b.acceptedBy a))
    {b : RootBuilder} {modules : List PlacedModule} (h : P b modules) (attempts : List Attempt) :
    P (b.addAll attempts) (modules ++ b.accepted attempts) := by
  induction attempts generalizing b modules with
  | nil => simpa [addAll, accepted] using h
  | cons a attempts ih =>
    simp only [addAll, accepted, ← List.append_assoc]
    exact ih (step b modules a h)

end RootBuilder

def mixedLayout : LayoutSettings where
  eraseBlockAlignment := 0x40
  directoryCopies := 2
  bootIdentifier := some 0x1001

/-- A module that ends off the alignment, an empty one, one outside the range of
its category, and one more. -/
def mixedAttempts : List Attempt :=
  [⟨.ml, 0x2001, List.replicate 0x41 1⟩, ⟨.appData, 0x5001, []⟩, ⟨.firmware, 0x2002, [1]⟩,
    ⟨.firmware, 0x1001, [2, 3]⟩]

end FlashImage
