import FlashImage.Proofs.Decoding.Prefixes
import FlashImage.Proofs.Layout.Atomicity
import FlashImage.Proofs.Layout.Extent
import FlashImage.Proofs.Layout.Inspection

/-!
# Images built on a medium that may refuse writes

A write that fails on the way loses a module and leaves its entry in the
directory, but it puts nothing on the medium.  What is finished in the end is
made up of the modules that were placed, the header and the copies of whatever
directory has come about.

* `Grown.exists_entry_end`: an entry stops where the image ends, if there is a payload.
-/

namespace FlashImage

open RootBuilder

/-! ## Builders on a blank medium -/

/-- Calls lead to the builder from a blank medium, whatever became of each of
them.  What the medium takes may change between calls. -/
inductive Grown (s : LayoutSettings) : RootBuilder → Prop where
  | start {medium : Medium} {b : RootBuilder} (blank : medium.image = .empty)
      (h_start : RootBuilder.start medium s = .ok b) : Grown s b
  | change {b : RootBuilder} (h : Grown s b) (limit : Option Nat)
      (verdicts : List (Option WriteFault)) : Grown s (b.taking limit verdicts)
  | call {b : RootBuilder} (h : Grown s b) (c : AddCall) : Grown s (b.call c).2

/-- The modules of a builder, one behind the other, with an entry for each and
nothing else on the medium. -/
structure Laid (s : LayoutSettings) (b : RootBuilder) (modules : List PlacedModule) : Prop where
  follows : b.cursor.Follows s
  placements_eq : b.placements = modules.map (·.placement)
  entered : ∀ m ∈ modules, m.placement.entry ∈ b.directory.entries
  sound : ∀ m ∈ modules, m.Sound s
  packed : Packed s.alignment s.firstOffset (modules.map (·.placement)) b.cursor.nextOffset.toNat
  image_eq : b.medium.image = Image.empty.writeAll (modules.map (·.segment))

namespace Laid

variable {s : LayoutSettings} {b : RootBuilder} {modules : List PlacedModule}

theorem start {medium : Medium} (blank : medium.image = .empty)
    (h_start : RootBuilder.start medium s = .ok b) : Laid s b [] := by
  obtain ⟨-, rfl⟩ := RootBuilder.start_eq_ok h_start
  exact {
    follows := Cursor.initialCursor_follows s
    placements_eq := rfl
    entered := fun _ h_mem => absurd h_mem List.not_mem_nil
    sound := fun _ h_mem => absurd h_mem List.not_mem_nil
    packed := by
      rw [Cursor.toNat_initialCursor_nextOffset]
      exact .nil
    image_eq := blank }

theorem registered (h : Laid s b modules) (p : ModulePlacement) :
    Laid s (b.registered p) modules :=
  { h with entered := fun m h_mem => List.mem_append_left _ (h.entered m h_mem) }

theorem placed (h : Laid s b modules) (accepted : s.Accepted) {a : Attempt} {p : ModulePlacement}
    {medium : Medium} (fit : b.Admits a p)
    (written : b.medium.write p.offset.toNat a.bytes = .ok medium) :
    Laid s (b.placed p medium) (modules ++ [⟨a, p⟩]) where
  follows := h.follows.advance _
  placements_eq := by simp [RootBuilder.placed, h.placements_eq]
  entered := by
    intro m h_mem
    rcases List.mem_append.mp h_mem with h_mem | h_mem
    · exact List.mem_append_left _ (h.entered m h_mem)
    · rw [List.mem_singleton.mp h_mem]
      exact List.mem_append_right _ (List.mem_singleton_self _)
  sound := by
    have h_base : s.base ≤ b.cursor.nextOffset.toNat :=
      Nat.le_trans (Nat.le_add_right _ _) h.packed.start_le_next
    intro m h_mem
    rcases List.mem_append.mp h_mem with h_mem | h_mem
    · exact h.sound m h_mem
    · rw [List.mem_singleton.mp h_mem]
      exact fit.sound h.follows h_base
  packed := by
    rw [List.map_append]
    exact h.packed.snoc (congrArg UInt64.toNat fit.offset_eq) (fit.least_advance h.follows accepted)
  image_eq := by
    rw [List.map_append, Image.writeAll_append, ← h.image_eq, RootBuilder.placed,
      Medium.write_eq_ok written]
    rfl

/-- Whatever becomes of a call, it places at most one more module. -/
theorem call (h : Laid s b modules) (accepted : s.Accepted) (c : AddCall) :
    ∃ later, Laid s (b.call c).2 (modules ++ later) := by
  have unchanged : Laid s b (modules ++ []) := by rwa [List.append_nil]
  rcases call_cases c with ⟨e, -, h_call⟩ | ⟨bytes, h_call⟩
  · rw [h_call b]
    exact ⟨[], unchanged⟩
  · rw [h_call b]
    have outcome := b.attempt_outcome ⟨c.category, c.identifier, bytes⟩
    generalize b.attempt ⟨c.category, c.identifier, bytes⟩ = result at outcome ⊢
    cases outcome with
    | refused unfit cause => exact ⟨[], unchanged⟩
    | @unwritten p fault fit failed => exact ⟨[], unchanged.registered p⟩
    | accepted fit written => exact ⟨_, h.placed accepted fit written⟩

/-! ## Finishing -/

theorem consists_finish (h : Laid s b modules) (accepted : s.Accepted) {report : RootReport}
    {after : Medium} (finished : b.finish = (.ok report, after)) :
    report.modules = modules.map (·.placement) ∧
      b.directoryBytes.length < s.alignment ∧
      after.image.Consists (s.imageSegments modules b.header.encode b.directoryBytes) := by
  obtain ⟨-, h_modules, h_fits⟩ := finish_report (congrArg Prod.fst finished)
  have h_short : b.directoryBytes.length < s.alignment := by
    rw [h.follows.alignment_eq] at h_fits
    rw [RootBuilder.directoryBytes, DirectoryTable.length_encode] at h_fits ⊢
    exact accepted.directory_lt h_fits
  refine ⟨h_modules.trans h.placements_eq, h_short, ?_⟩
  rw [(finish_segments h.follows finished).1, h.image_eq, ← Image.writeAll_append]
  exact Image.consists_writeAll (h.packed.imageSegments_apart h.sound accepted rfl h_short)

/-! ## Decoding -/

section Decoding

variable {digest : Bytes → String} {img : Image}
  (consists : img.Consists (s.imageSegments modules b.header.encode b.directoryBytes))
include consists

theorem readDirectory_eq (accepted : s.Accepted) (h_short : b.directoryBytes.length < s.alignment)
    {directory : List DirectoryEntry}
    (h_read : Inspect.readDirectory img s.base b.header.sizeOfDirectory = .ok directory) :
    directory = (b.directory.pin b.settings.bootIdentifier).ordered := by
  have h_length : b.directoryBytes.length =
      12 * (b.directory.pin b.settings.bootIdentifier).ordered.length :=
    DirectoryEntry.length_flatMap_encode _
  have h_size : b.header.sizeOfDirectory = UInt32.ofNat b.directoryBytes.length := rfl
  rw [h_size, h_length, Inspect.readDirectory_front consists accepted
    (h_length ▸ Nat.le_of_lt h_short)] at h_read
  split at h_read
  · exact (Except.ok.inj h_read).symm
  · cases h_read

theorem exists_entry_stop (h : Laid s b modules) (accepted : s.Accepted)
    (h_short : b.directoryBytes.length < s.alignment) {r : RootInspection}
    (decoded : Inspect.inspectRoot digest img = .ok r) {m : PlacedModule} (h_mem : m ∈ modules) :
    ∃ x ∈ r.entries, x.absoluteOffset + x.size.toNat = m.placement.stop := by
  obtain ⟨h_header, -, -, directory, h_directory, h_entries⟩ :=
    Inspect.inspectRoot_eq_ok_iff_reads.mp decoded
  rw [Inspect.record_front consists] at h_header
  have h_same : r.header = b.header := (Except.ok.inj h_header).symm
  have h_base : b.header.startOfDirectory.toNat = s.base := by
    rw [RootBuilder.header, h.follows.base_eq, UInt32.toUInt32_toUInt64]
    rfl
  rw [h_same, h_base] at h_directory h_entries
  have h_found : m.placement.entry ∈ directory := by
    rw [readDirectory_eq consists accepted h_short h_directory]
    exact DirectoryTable.mem_ordered.mpr (h.entered m h_mem)
  obtain ⟨x, h_x, h_digest⟩ := exists_of_mem_forall₂ h_entries h_found
  obtain ⟨payload, -, rfl⟩ := Inspect.digestEntry_eq_ok_iff.mp h_digest
  refine ⟨_, h_x, ?_⟩
  rw [ModulePlacement.stop, (h.sound m h_mem).offset_eq]
  rfl

end Decoding

end Laid

theorem Grown.laid {s : LayoutSettings} {b : RootBuilder} (h : Grown s b) :
    s.Accepted ∧ ∃ modules, Laid s b modules := by
  induction h with
  | start blank h_start => exact ⟨(RootBuilder.start_eq_ok h_start).1, [], .start blank h_start⟩
  | change _ limit verdicts ih =>
    obtain ⟨accepted, modules, laid⟩ := ih
    exact ⟨accepted, modules, { laid with }⟩
  | call _ c ih =>
    obtain ⟨accepted, modules, laid⟩ := ih
    obtain ⟨later, h_call⟩ := laid.call accepted c
    exact ⟨accepted, modules ++ later, h_call⟩

theorem Grown.isRoot_finish {s : LayoutSettings} {b : RootBuilder} {report : RootReport}
    {after : Medium} (h : Grown s b) (finished : b.finish = (.ok report, after)) :
    Inspect.isRoot after.image = true := by
  obtain ⟨accepted, modules, laid⟩ := h.laid
  obtain ⟨-, -, consists⟩ := laid.consists_finish accepted finished
  exact Inspect.isRoot_front consists rfl

/-- If the image holds a payload, an entry that the decoder finds stops at its end. -/
theorem Grown.exists_entry_end {digest : Bytes → String} {s : LayoutSettings} {b : RootBuilder}
    {report : RootReport}
    {after : Medium} (h : Grown s b) (finished : b.finish = (.ok report, after))
    (h_payload : ∃ p ∈ report.modules, p.size ≠ 0) {r : RootInspection}
    (decoded : Inspect.inspectRoot digest after.image = .ok r) :
    ∃ x ∈ r.entries, x.absoluteOffset + x.size.toNat = after.image.size := by
  obtain ⟨accepted, modules, laid⟩ := h.laid
  obtain ⟨h_modules, h_short, consists⟩ := laid.consists_finish accepted finished
  obtain ⟨p, h_p, h_size⟩ := h_payload
  rw [h_modules] at h_p
  have h_first : s.firstOffset ≤
      Image.extent (s.imageSegments modules b.header.encode b.directoryBytes) :=
    Nat.le_trans (laid.packed.firstOffset_le_stop h_p)
      (stop_le_extent_of_size_ne_zero laid.sound _ _ h_p h_size)
  -- the payload that ends the image need not be the one that was given
  obtain ⟨q, h_q, -, h_end⟩ := exists_stop_eq_extent laid.sound accepted rfl h_short h_first
  obtain ⟨m, h_mem, rfl⟩ := List.mem_map.mp h_q
  obtain ⟨x, h_x, h_stop⟩ := Laid.exists_entry_stop consists laid accepted h_short decoded h_mem
  exact ⟨x, h_x, h_stop.trans (h_end.trans consists.size_eq.symm)⟩

end FlashImage
