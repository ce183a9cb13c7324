import FlashImage.Proofs.Layout.Finish

/-!
# What a failed call leaves behind

A call that fails leaves the builder as it was, with one exception: the
identifier is entered into the directory before the payload is written, and it
stays there if the write fails.  Such an entry belongs to no module.

* `failed_call_effect`: what a call that fails changes, and what follows for the
  calls after it.
-/

namespace FlashImage

inductive ModuleSource where
  | memory (bytes : Bytes)
  | file (files : FileTree) (path : NativeText)

structure AddCall where
  category : ModuleCategory
  identifier : UInt32
  source : ModuleSource

namespace RootBuilder

def call (b : RootBuilder) (c : AddCall) : Except LayoutError ModulePlacement × RootBuilder :=
  match c.source with
  | .memory bytes => b.addBytes c.category c.identifier bytes
  | .file files path => b.addFile files c.category c.identifier path

/-- The builder with a medium that takes something else from now on. -/
def taking (b : RootBuilder) (limit : Option Nat) (verdicts : List (Option WriteFault)) :
    RootBuilder :=
  { b with medium := { b.medium with limit, verdicts } }

/-! ## Calls are attempts -/

/-- A call either fails on every builder for a reason of its own, or it has bytes
and is an attempt to add them. -/
theorem call_cases (c : AddCall) :
    (∃ e : LayoutError, (∀ fault, e ≠ .unwritable fault) ∧
      ∀ b : RootBuilder, b.call c = (.error e, b)) ∨
    (∃ bytes, ∀ b : RootBuilder, b.call c = b.attempt ⟨c.category, c.identifier, bytes⟩) := by
  obtain ⟨category, identifier, source⟩ := c
  cases source with
  | memory bytes => exact .inr ⟨bytes, fun _ => rfl⟩
  | file files path =>
    simp only [call, addFile, ModuleCategory.validate]
    by_cases in_range : category.contains identifier = true
    · simp only [in_range, if_true]
      by_cases is_file : files.isFile path = true
      · simp only [is_file, if_true]
        cases files.read path with
        | error e => exact .inl ⟨.unreadable path e, fun _ => nofun, fun _ => rfl⟩
        | ok bytes => exact .inr ⟨bytes, fun _ => rfl⟩
      · simp only [is_file]
        exact .inl ⟨.missingInput category path, fun _ => nofun, fun _ => rfl⟩
    · simp only [in_range]
      exact .inl ⟨.outOfRange category identifier, fun _ => nofun, fun _ => rfl⟩

theorem attempt_eq_duplicate {b after : RootBuilder} {a : Attempt} {p : ModulePlacement}
    (fit : b.Admits a p) (h_cursor : after.cursor = b.cursor)
    (taken : after.directory.contains a.identifier = true) :
    after.attempt a = (.error (.duplicate ⟨a.identifier⟩), after) := by
  unfold attempt addBytes
  rw [checkModule_eq_ok_iff.mpr ⟨fit.in_range, fit.whole⟩]
  dsimp only
  rcases after.allocate_cases a.category a.identifier a.bytes.length with
    ⟨q, h_alloc, -⟩ | ⟨-, h_beyond⟩
  · rw [h_alloc]
    dsimp only
    rw [DirectoryTable.add_of_taken taken]
  · rw [h_cursor] at h_beyond
    exact absurd fit.room h_beyond

theorem attempt_taking_all {b : RootBuilder} {a : Attempt} {p : ModulePlacement}
    (fit : b.Admits a p) : ∃ q, ((b.taking none []).attempt a).1 = .ok q := by
  have unlimited : (b.taking none []).medium.Unlimited := ⟨rfl, nofun⟩
  rcases attempt_unlimited unlimited a with ⟨e, -, unfit⟩ | ⟨q, h_attempt, -⟩
  · exact absurd { fit with } (unfit p)
  · rw [h_attempt]
    exact ⟨q, rfl⟩

/-! ## Reachable builders -/

/-- `Reachable lost b`: calls lead from a start to the builder, whatever became
of each, and `lost` of them failed at the write.  What the medium takes may
change between calls. -/
inductive Reachable : Nat → RootBuilder → Prop where
  | start {medium : Medium} {s : LayoutSettings} {b : RootBuilder}
      (h_start : RootBuilder.start medium s = .ok b) : Reachable 0 b
  | change {lost : Nat} {b : RootBuilder} (h : Reachable lost b) (limit : Option Nat)
      (verdicts : List (Option WriteFault)) : Reachable lost (b.taking limit verdicts)
  | call {lost : Nat} {b : RootBuilder} (h : Reachable lost b) (c : AddCall)
      (settled : ∀ fault, (b.call c).1 ≠ .error (.unwritable fault)) :
      Reachable lost (b.call c).2
  | lose {lost : Nat} {b : RootBuilder} {fault : WriteFault} (h : Reachable lost b) (c : AddCall)
      (unwritten : (b.call c).1 = .error (.unwritable fault)) :
      Reachable (lost + 1) (b.call c).2

/-- What the directory holds when `lost` writes have failed: the entries of the
modules in their order, and as many more as writes were lost. -/
structure Entered (lost : Nat) (b : RootBuilder) : Prop where
  narrow : b.cursor.alignment.toNat < 2 ^ 32
  sublist : (b.placements.map ModulePlacement.entry).Sublist b.directory.entries
  length_eq : b.directory.entries.length = b.placements.length + lost

namespace Entered

variable {lost : Nat} {b : RootBuilder}

theorem start {medium : Medium} {s : LayoutSettings}
    (h_start : RootBuilder.start medium s = .ok b) : Entered 0 b := by
  obtain ⟨-, rfl⟩ := RootBuilder.start_eq_ok h_start
  exact {
    narrow := by
      rw [(Cursor.initialCursor_follows s).alignment_eq]
      exact s.alignment_lt
    sublist := .refl _
    length_eq := rfl }

theorem registered (h : Entered lost b) (p : ModulePlacement) :
    Entered (lost + 1) (b.registered p) where
  narrow := h.narrow
  sublist := h.sublist.trans (List.sublist_append_left _ _)
  length_eq := by
    simp only [RootBuilder.registered, DirectoryTable.push, List.length_append,
      List.length_singleton, h.length_eq]
    omega

theorem placed (h : Entered lost b) (p : ModulePlacement) (medium : Medium) :
    Entered lost (b.placed p medium) where
  narrow := h.narrow
  sublist := by
    simp only [RootBuilder.placed, RootBuilder.registered, DirectoryTable.push, List.map_append]
    exact h.sublist.append (.refl _)
  length_eq := by
    simp only [RootBuilder.placed, RootBuilder.registered, DirectoryTable.push,
      List.length_append, List.length_singleton, h.length_eq]
    omega

theorem call (h : Entered lost b) (c : AddCall) :
    ((∀ fault, (b.call c).1 ≠ .error (.unwritable fault)) → Entered lost (b.call c).2) ∧
      (∀ fault, (b.call c).1 = .error (.unwritable fault) → Entered (lost + 1) (b.call c).2) := by
  rcases call_cases c with ⟨e, cause, h_call⟩ | ⟨bytes, h_call⟩
  · rw [h_call b]
    refine ⟨fun _ => h, fun fault h_eq => ?_⟩
    cases h_eq
    exact absurd rfl (cause fault)
  · rw [h_call b]
    have outcome := b.attempt_outcome ⟨c.category, c.identifier, bytes⟩
    generalize b.attempt ⟨c.category, c.identifier, bytes⟩ = result at outcome ⊢
    cases outcome with
    | refused unfit cause =>
      refine ⟨fun _ => h, fun fault h_eq => ?_⟩
      cases h_eq
      exact absurd rfl (cause fault)
    | @unwritten p fault fit failed =>
      exact ⟨fun settled => absurd rfl (settled fault), fun _ _ => h.registered p⟩
    | @accepted p medium fit written =>
      exact ⟨fun _ => h.placed p medium, fun _ h_eq => by cases h_eq⟩

end Entered

theorem Reachable.entered {lost : Nat} {b : RootBuilder} (h : Reachable lost b) :
    Entered lost b := by
  induction h with
  | start h_start => exact .start h_start
  | change _ limit verdicts ih => exact { ih with }
  | call _ c settled ih => exact (ih.call c).1 settled
  | lose _ c unwritten ih => exact (ih.call c).2 _ unwritten

namespace Entered

variable {lost : Nat} {b : RootBuilder}

@[simp] theorem length_directoryBytes (h : Entered lost b) :
    b.directoryBytes.length = 12 * (b.placements.length + lost) := by
  rw [RootBuilder.directoryBytes, DirectoryTable.length_encode, ← h.length_eq]
  rfl

theorem eq_entries_iff (h : Entered lost b) :
    b.directory.entries = b.placements.map ModulePlacement.entry ↔ lost = 0 := by
  have h_length := h.length_eq
  constructor
  · intro h_eq
    rw [h_eq, List.length_map] at h_length
    omega
  · intro h_zero
    refine (h.sublist.eq_of_length ?_).symm
    rw [List.length_map]
    omega

theorem sizeOfDirectory_eq (h : Entered lost b) {report : RootReport}
    (finished : b.finish.1 = .ok report) :
    report.header.sizeOfDirectory.toNat = 12 * (report.modules.length + lost) := by
  obtain ⟨h_header, h_modules, h_fits⟩ := finish_report finished
  have h_narrow := h.narrow
  rw [h_header, h_modules, header, ← h.length_directoryBytes]
  exact UInt32.toNat_ofNat_of_lt (Nat.lt_of_le_of_lt h_fits h_narrow)

end Entered

end RootBuilder

open RootBuilder

theorem failed_call_cases {b after : RootBuilder} {c : AddCall} {e : LayoutError}
    (failed : b.call c = (.error e, after)) :
    (after = b ∧ ∀ fault, e ≠ .unwritable fault) ∨
      ∃ bytes p fault, (∀ b : RootBuilder, b.call c = b.attempt ⟨c.category, c.identifier, bytes⟩) ∧
        b.Admits ⟨c.category, c.identifier, bytes⟩ p ∧ e = .unwritable fault ∧
        after = b.registered p := by
  rcases call_cases c with ⟨e', cause, h_call⟩ | ⟨bytes, h_call⟩
  · rw [h_call b] at failed
    cases failed
    exact .inl ⟨rfl, cause⟩
  · have outcome := b.attempt_outcome ⟨c.category, c.identifier, bytes⟩
    rw [← h_call b, failed] at outcome
    cases outcome with
    | refused unfit cause => exact .inl ⟨rfl, cause⟩
    | @unwritten p fault fit _ => exact .inr ⟨bytes, p, fault, h_call, fit, rfl, rfl⟩

/-- A call that fails leaves the builder as it was, unless it fails at the write:
its entry then stays in the directory, where it belongs to no module, and the
same call is refused from then on, whatever the medium takes.  A finished image
has one more entry for each such call. -/
theorem failed_call_effect {lost : Nat} {b after : RootBuilder} {c : AddCall} {e : LayoutError}
    (reachable : Reachable lost b) (failed : b.call c = (.error e, after)) :
    (after.settings = b.settings ∧ after.medium = b.medium ∧ after.cursor = b.cursor ∧
      after.placements = b.placements ∧ after.imageEnd = b.imageEnd) ∧
    (after = b ↔ ∀ fault, e ≠ .unwritable fault) ∧
    (∀ fault, e = .unwritable fault →
      (∃ entry : DirectoryEntry, entry.identifier = c.identifier ∧
        after.directory.entries = b.directory.entries ++ [entry]) ∧
      (∃ p, ((b.taking none []).call c).1 = .ok p) ∧
      ∀ limit verdicts, (after.taking limit verdicts).call c =
        (.error (.duplicate ⟨c.identifier⟩), after.taking limit verdicts)) ∧
    (b.directory.entries = b.placements.map ModulePlacement.entry ↔ lost = 0) ∧
    ∀ report, b.finish.1 = .ok report →
      report.header.sizeOfDirectory.toNat = 12 * (report.modules.length + lost) := by
  have entered := reachable.entered
  refine ⟨?_, ?_, ?_, entered.eq_entries_iff, fun _ => entered.sizeOfDirectory_eq⟩
  all_goals
    rcases failed_call_cases failed with ⟨rfl, cause⟩ | ⟨bytes, p, fault, h_call, fit, rfl, rfl⟩
  · exact ⟨rfl, rfl, rfl, rfl, rfl⟩
  · exact ⟨rfl, rfl, rfl, rfl, rfl⟩
  · exact iff_of_true rfl cause
  · refine iff_of_false (fun h_eq => ?_) fun cause => cause fault rfl
    have h_length := congrArg (fun b : RootBuilder => b.directory.entries.length) h_eq
    simp [registered, DirectoryTable.push] at h_length
  · exact fun fault h_eq => absurd h_eq (cause fault)
  · intro _ _
    refine ⟨⟨p.entry, fit.identifier_eq, rfl⟩, ?_, fun limit verdicts => ?_⟩
    · rw [h_call]
      exact attempt_taking_all fit
    · rw [h_call]
      refine attempt_eq_duplicate fit rfl ?_
      rw [DirectoryTable.contains_iff]
      simp [taking, registered, DirectoryTable.push, fit.identifier_eq]

/-! ## A lost entry -/

def blockLayout : LayoutSettings where
  eraseBlockAlignment := 0x100

def shortMedium : Medium where
  limit := some 0x208

def sizedCall (n : Nat) : AddCall :=
  ⟨.ml, 0x2001, .memory (List.replicate n 1)⟩

theorem failed_call_effect_short :
    ∃ b after, Reachable 0 b ∧
      b.call (sizedCall 16) = (.error (.unwritable .limitReached), after) ∧
      after.medium = b.medium ∧ after.cursor = b.cursor ∧ after ≠ b ∧
      ∀ limit verdicts, (after.taking limit verdicts).call (sizedCall 16) =
        (.error (.duplicate ⟨0x2001⟩), after.taking limit verdicts) := by
  have h_start : ∃ b, RootBuilder.start shortMedium blockLayout = .ok b ∧
      ∃ after, b.call (sizedCall 16) = (.error (.unwritable .limitReached), after) :=
    ⟨_, rfl, _, rfl⟩
  obtain ⟨b, h_start, after, failed⟩ := h_start
  have reachable : Reachable 0 b := .start h_start
  obtain ⟨⟨-, h_medium, h_cursor, -, -⟩, h_same, h_retry, -⟩ := failed_call_effect reachable failed
  exact ⟨b, after, reachable, failed, h_medium, h_cursor,
    fun h_eq => h_same.mp h_eq .limitReached rfl, (h_retry .limitReached rfl).2.2⟩

/-- A single byte would fit where sixteen did not, but its identifier is taken;
and the directory of the finished image has an entry although no module was placed. -/
theorem failed_call_not_atomic :
    ∃ b after, RootBuilder.start shortMedium blockLayout = .ok b ∧
      b.call (sizedCall 16) = (.error (.unwritable .limitReached), after) ∧
      after.directory ≠ b.directory ∧
      (∃ p, (b.call (sizedCall 1)).1 = .ok p) ∧
      (after.call (sizedCall 1)).1 = .error (.duplicate ⟨0x2001⟩) ∧
      ∃ report, after.finish.1 = .ok report ∧ report.header.sizeOfDirectory = 12 ∧
        report.modules = [] := by
  exact ⟨_, _, rfl, rfl, by decide, ⟨_, rfl⟩, rfl, _, rfl, rfl, rfl⟩

end FlashImage
