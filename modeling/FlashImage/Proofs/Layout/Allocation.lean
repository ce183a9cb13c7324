import FlashImage.Proofs.Image
import FlashImage.Proofs.Layout.Adding
import FlashImage.Proofs.Layout.Start
import Mathlib.Order.CompletePartialOrder
import Mathlib.Order.Interval.Set.Disjoint

/-!
# The allocation invariant

Modules are packed behind the copies of the directory: each one lies at the
least multiple of the alignment that is not below the end of the one before it.
An empty module shares its offset with its successor, and an attempt that is
rejected leaves no gap.

* `allocation_invariant`: where the modules of every build lie.
-/

namespace FlashImage

/-! ## Packed modules -/

def ModulePlacement.stop (p : ModulePlacement) : Nat :=
  p.offset.toNat + p.size.toNat

def ModulePlacement.extent (p : ModulePlacement) : Set Nat :=
  Set.Ico p.offset.toNat p.stop

/-- `Packed alignment start modules next`: the modules lie one behind the other
from `start` on, each but the first at the least multiple of the alignment that
is not below the end of the one before it, and `next` is that multiple for the
module to come. -/
inductive Packed (alignment : Nat) : Nat → List ModulePlacement → Nat → Prop where
  | nil {start : Nat} : Packed alignment start [] start
  | cons {start behind next : Nat} {p : ModulePlacement} {ps : List ModulePlacement}
      (at_start : p.offset.toNat = start)
      (least : IsLeast (alignedFrom alignment p.stop) behind)
      (rest : Packed alignment behind ps next) : Packed alignment start (p :: ps) next

namespace Packed

variable {alignment start next : Nat} {ps : List ModulePlacement}

theorem snoc {after : Nat} {p : ModulePlacement} (h : Packed alignment start ps next)
    (at_next : p.offset.toNat = next) (least : IsLeast (alignedFrom alignment p.stop) after) :
    Packed alignment start (ps ++ [p]) after := by
  induction h with
  | nil => exact .cons at_next least .nil
  | cons at_start h_least _ ih => exact .cons at_start h_least (ih at_next)

theorem start_le_next (h : Packed alignment start ps next) : start ≤ next := by
  induction h with
  | nil => exact Nat.le_refl _
  | cons at_start least _ ih =>
    have h_behind := least.1.2
    rw [ModulePlacement.stop] at h_behind
    omega

theorem start_le_offset (h : Packed alignment start ps next) :
    ∀ p ∈ ps, start ≤ p.offset.toNat := by
  induction h with
  | nil => intro p h_mem; cases h_mem
  | cons at_start least _ ih =>
    intro q h_mem
    rcases List.mem_cons.mp h_mem with rfl | h_mem
    · exact Nat.le_of_eq at_start.symm
    · have h_behind := least.1.2
      have h_later := ih q h_mem
      rw [ModulePlacement.stop] at h_behind
      omega

theorem alignment_dvd (h : Packed alignment start ps next) (h_start : alignment ∣ start) :
    ∀ p ∈ ps, alignment ∣ p.offset.toNat := by
  induction h with
  | nil => intro p h_mem; cases h_mem
  | cons at_start least _ ih =>
    intro q h_mem
    rcases List.mem_cons.mp h_mem with rfl | h_mem
    · rwa [at_start]
    · exact ih least.1.1 q h_mem

theorem pairwise (h : Packed alignment start ps next) :
    ps.Pairwise fun p q => p.stop ≤ q.offset.toNat := by
  induction h with
  | nil => exact .nil
  | cons _ least rest ih =>
    exact .cons (fun q h_mem => Nat.le_trans least.1.2 (rest.start_le_offset q h_mem)) ih

end Packed

/-! ## Placed modules -/

namespace PlacedModule

/-- A module is placed as its attempt asks for: under its category and
identifier, with room for its payload, and at the offset that its directory
entry gives from the first copy of the directory. -/
structure Sound (s : LayoutSettings) (m : PlacedModule) : Prop where
  category_eq : m.placement.category = m.attempt.category
  identifier_eq : m.placement.identifier = m.attempt.identifier
  in_range : m.placement.category.contains m.placement.identifier = true
  size_eq : m.placement.size.toNat = m.attempt.bytes.length
  offset_eq : m.placement.offset.toNat = s.base + m.placement.directoryOffset.toNat
  stop_le : m.placement.stop ≤ 2 ^ 32

end PlacedModule

/-! ## An admitted attempt -/

namespace RootBuilder.Admits

variable {s : LayoutSettings} {b : RootBuilder} {a : Attempt} {p : ModulePlacement}

theorem sound (fit : b.Admits a p) (follows : b.cursor.Follows s)
    (h_base : s.base ≤ b.cursor.nextOffset.toNat) : PlacedModule.Sound s ⟨a, p⟩ where
  category_eq := fit.category_eq
  identifier_eq := fit.identifier_eq
  in_range := by
    rw [fit.category_eq, fit.identifier_eq]
    exact fit.in_range
  size_eq := fit.size_eq
  offset_eq := by
    have h_le : b.cursor.directoryBase ≤ b.cursor.nextOffset := by
      rwa [UInt64.le_iff_toNat_le, follows.toNat_base]
    rw [fit.directoryOffset_eq, UInt64.toNat_sub_of_le _ _ h_le, fit.offset_eq,
      follows.toNat_base]
    omega
  stop_le := by
    rw [ModulePlacement.stop, fit.size_eq]
    exact fit.stop_le

theorem least_advance (fit : b.Admits a p) (follows : b.cursor.Follows s)
    (accepted : s.Accepted) :
    IsLeast (alignedFrom s.alignment p.stop)
      (b.cursor.advance p.size.toUInt64).nextOffset.toNat := by
  have h_stop : p.stop ≤ 2 ^ 32 := by
    rw [ModulePlacement.stop, fit.size_eq]
    exact fit.stop_le
  have h_alignment := s.alignment_lt
  have sum : (b.cursor.nextOffset + p.size.toUInt64).toNat = p.stop := by
    rw [ModulePlacement.stop, fit.offset_eq] at *
    rw [UInt64.toNat_add, UInt32.toNat_toUInt64]
    omega
  rw [← follows.alignment_eq, ← sum]
  apply isLeast_alignUp
  · rw [follows.alignment_eq]
    exact accepted.power
  · rw [follows.alignment_eq, sum]
    omega

end RootBuilder.Admits

/-! ## The invariant -/

/-- What holds of a builder that has added the given modules. -/
structure Allocated (s : LayoutSettings) (b : RootBuilder) (modules : List PlacedModule) :
    Prop where
  settings_eq : b.settings = s
  unlimited : b.medium.Unlimited
  follows : b.cursor.Follows s
  placements_eq : b.placements = modules.map (·.placement)
  entries_eq : b.directory.entries = b.placements.map ModulePlacement.entry
  sound : ∀ m ∈ modules, m.Sound s
  distinct : (b.placements.map (·.identifier)).Nodup
  packed : Packed s.alignment s.firstOffset b.placements b.cursor.nextOffset.toNat

namespace Allocated

variable {s : LayoutSettings} {b : RootBuilder} {modules : List PlacedModule}

theorem init {medium : Medium} (unlimited : medium.Unlimited)
    (h_start : RootBuilder.start medium s = .ok b) : Allocated s b [] := by
  obtain ⟨-, rfl⟩ := RootBuilder.start_eq_ok h_start
  exact {
    settings_eq := rfl
    unlimited
    follows := Cursor.initialCursor_follows s
    placements_eq := rfl
    entries_eq := rfl
    sound := fun _ h_mem => absurd h_mem List.not_mem_nil
    distinct := List.nodup_nil
    packed := by
      rw [Cursor.toNat_initialCursor_nextOffset]
      exact .nil }

theorem fresh (h : Allocated s b modules) {a : Attempt} {p : ModulePlacement}
    (fit : b.Admits a p) : p.identifier ∉ b.placements.map (·.identifier) := by
  intro h_mem
  have h_taken : b.directory.contains a.identifier = true := by
    rw [DirectoryTable.contains_iff, h.entries_eq, List.map_map, ← fit.identifier_eq]
    exact h_mem
  rw [fit.fresh] at h_taken
  cases h_taken

theorem base_le_nextOffset (h : Allocated s b modules) : s.base ≤ b.cursor.nextOffset.toNat :=
  Nat.le_trans (Nat.le_add_right _ _) h.packed.start_le_next

theorem step (h : Allocated s b modules) (accepted : s.Accepted) (a : Attempt) :
    Allocated s (b.attempt a).2 (modules ++ b.acceptedBy a) := by
  unfold RootBuilder.acceptedBy
  rcases b.attempt_unlimited h.unlimited a with ⟨e, h_attempt, -⟩ | ⟨p, h_attempt, fit⟩
  · rw [h_attempt]
    simpa using h
  · rw [h_attempt]
    exact {
      settings_eq := h.settings_eq
      unlimited := h.unlimited.next _
      follows := h.follows.advance _
      placements_eq := by simp [RootBuilder.placed, h.placements_eq]
      entries_eq := by
        simp [RootBuilder.placed, RootBuilder.registered, DirectoryTable.push, h.entries_eq]
      sound := by
        intro m h_mem
        rcases List.mem_append.mp h_mem with h_mem | h_mem
        · exact h.sound m h_mem
        · rw [List.mem_singleton.mp h_mem]
          exact fit.sound h.follows h.base_le_nextOffset
      distinct := by
        have h_fresh := h.fresh fit
        simp only [RootBuilder.placed, List.map_append, List.map_cons, List.map_nil]
        refine List.nodup_append.mpr ⟨h.distinct, List.pairwise_singleton _ _, ?_⟩
        intro x h_x y h_y h_eq
        rw [h_eq, List.mem_singleton.mp h_y] at h_x
        exact h_fresh h_x
      packed := h.packed.snoc (congrArg UInt64.toNat fit.offset_eq)
        (fit.least_advance h.follows accepted) }

/-! ## The bytes of the modules -/

theorem firstOffset_le (h : Allocated s b modules) :
    ∀ p ∈ b.placements, s.firstOffset ≤ p.offset.toNat :=
  h.packed.start_le_offset

theorem disjoint (h : Allocated s b modules) :
    b.placements.Pairwise fun p q => Disjoint p.extent q.extent := by
  refine h.packed.pairwise.imp fun {p q} h_le => ?_
  rw [ModulePlacement.extent, ModulePlacement.extent, Set.Ico_disjoint_Ico]
  omega

theorem disjoint_of_le_firstOffset (h : Allocated s b modules) {p : ModulePlacement}
    (h_mem : p ∈ b.placements) {start stop : Nat} (h_le : stop ≤ s.firstOffset) :
    Disjoint p.extent (Set.Ico start stop) := by
  have h_first := h.firstOffset_le p h_mem
  rw [ModulePlacement.extent, Set.Ico_disjoint_Ico]
  omega

end Allocated

theorem allocated_addAll {medium : Medium} {s : LayoutSettings} {b : RootBuilder}
    (unlimited : medium.Unlimited) (h_start : RootBuilder.start medium s = .ok b)
    (attempts : List Attempt) : Allocated s (b.addAll attempts) (b.accepted attempts) := by
  have accepted := (RootBuilder.start_eq_ok h_start).1
  exact RootBuilder.addAll_induction (P := Allocated s) (fun _ _ a h => h.step accepted a)
    (.init unlimited h_start) attempts

/-- The offsets of the bytes of one region of the directory, whole with the room
that its copy leaves. -/
def LayoutSettings.region (s : LayoutSettings) (index : Nat) : Set Nat :=
  Set.Ico (s.base + s.alignment * index) (s.base + s.alignment * (index + 1))

theorem allocation_invariant {medium : Medium} {s : LayoutSettings} {b : RootBuilder}
    (unlimited : medium.Unlimited) (h_start : RootBuilder.start medium s = .ok b)
    (attempts : List Attempt) :
    let done := b.addAll attempts
    Allocated s done (b.accepted attempts) ∧
      (∀ p ∈ done.placements, s.alignment ∣ p.offset.toNat) ∧
      (done.placements.Pairwise fun p q => Disjoint p.extent q.extent) ∧
      ∀ p ∈ done.placements, Disjoint p.extent (Set.Ico 0 RootHeader.width) ∧
        ∀ i < s.copies, Disjoint p.extent (s.region i) := by
  have accepted := (RootBuilder.start_eq_ok h_start).1
  have h := allocated_addAll unlimited h_start attempts
  refine ⟨h, h.packed.alignment_dvd accepted.alignment_dvd_firstOffset, h.disjoint,
    fun p h_mem => ⟨?_, fun i h_lt => ?_⟩⟩
  · exact h.disjoint_of_le_firstOffset h_mem accepted.header_le_firstOffset
  · exact h.disjoint_of_le_firstOffset h_mem
      (Nat.add_le_add_left (Nat.mul_le_mul_left _ h_lt) _)

/-- An empty module shares its offset with the next one, and the attempt outside
the range of its category leaves no gap. -/
theorem allocation_invariant_mixed :
    ∃ b, RootBuilder.start {} mixedLayout = .ok b ∧
      (b.addAll mixedAttempts).placements.map (fun p => (p.offset, p.directoryOffset, p.size)) =
        [(0xC0, 0x80, 0x41), (0x140, 0x100, 0), (0x140, 0x100, 2)] ∧
      Allocated mixedLayout (b.addAll mixedAttempts) (b.accepted mixedAttempts) ∧
      (b.addAll mixedAttempts).placements.Pairwise fun p q => Disjoint p.extent q.extent := by
  refine ⟨_, by rfl, by decide, ?_⟩
  obtain ⟨allocated, -, disjoint, -⟩ :=
    @allocation_invariant {} mixedLayout _ Medium.unlimited_empty rfl mixedAttempts
  exact ⟨allocated, disjoint⟩

end FlashImage
