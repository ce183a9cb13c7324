import FlashImage.Proofs.Layout.Finish

/-!
# How far an image reaches

The report of a build gives the end of the furthest write, and a write of no
bytes counts like any other.  The image itself reaches only as far as the bytes
that were written.  The two agree as long as a payload is the last thing in the
image; they differ where the directory is empty, and where empty modules stand
behind the last payload and a gap.

* `reported_size`: the reported size, and when it is the size of the image.
-/

namespace FlashImage

variable {s : LayoutSettings} {modules : List PlacedModule} {next : Nat}

theorem PlacedModule.Sound.stop_segment {m : PlacedModule} (h : m.Sound s) :
    m.segment.stop = m.placement.stop := by
  rw [PlacedModule.segment, Segment.stop_ofBytes, ModulePlacement.stop, h.size_eq]

theorem PlacedModule.Sound.isEmpty_segment {m : PlacedModule} (h : m.Sound s) :
    m.segment.bytes.isEmpty = true ↔ m.placement.size = 0 := by
  have h_size := h.size_eq
  rw [← UInt32.toNat_inj, UInt32.toNat_zero, h_size, PlacedModule.segment, Segment.ofBytes,
    List.isEmpty_toArray, List.isEmpty_iff, List.length_eq_zero_iff]

/-! ## The last payload -/

theorem Packed.firstOffset_le_stop
    (packed : Packed s.alignment s.firstOffset (modules.map (·.placement)) next)
    {p : ModulePlacement} (h_mem : p ∈ modules.map (·.placement)) : s.firstOffset ≤ p.stop :=
  Nat.le_trans (packed.start_le_offset p h_mem) (Nat.le_add_right _ _)

theorem stop_le_extent_of_size_ne_zero (sound : ∀ m ∈ modules, m.Sound s) (header directory : Bytes)
    {p : ModulePlacement} (h_mem : p ∈ modules.map (·.placement)) (h_size : p.size ≠ 0) :
    p.stop ≤ Image.extent (s.imageSegments modules header directory) := by
  obtain ⟨m, h_module, rfl⟩ := List.mem_map.mp h_mem
  have h_sound := sound m h_module
  have h_nonempty : m.segment.bytes.isEmpty = false := by
    rwa [Bool.eq_false_iff, ne_eq, h_sound.isEmpty_segment]
  rw [← h_sound.stop_segment]
  exact Image.stop_le_extent (List.mem_append_left _ (List.mem_map_of_mem h_module)) h_nonempty

theorem exists_stop_eq_extent (sound : ∀ m ∈ modules, m.Sound s) (accepted : s.Accepted)
    {header directory : Bytes} (h_header : header.length = 40)
    (h_fits : directory.length < s.alignment)
    (h_first : s.firstOffset ≤ Image.extent (s.imageSegments modules header directory)) :
    ∃ p ∈ modules.map (·.placement), p.size ≠ 0 ∧
      p.stop = Image.extent (s.imageSegments modules header directory) := by
  have h_pos : 0 < s.firstOffset := Nat.lt_of_lt_of_le (by decide) accepted.header_le_firstOffset
  obtain ⟨t, h_mem, h_nonempty, h_stop⟩ :=
    Image.exists_stop_eq_extent (Nat.lt_of_lt_of_le h_pos h_first)
  rcases List.mem_append.mp h_mem with h_mem | h_mem
  · obtain ⟨m, h_module, rfl⟩ := List.mem_map.mp h_mem
    have h_sound := sound m h_module
    refine ⟨m.placement, List.mem_map_of_mem h_module, fun h_size => ?_, ?_⟩
    · rw [h_sound.isEmpty_segment.mpr h_size] at h_nonempty
      cases h_nonempty
    · rw [← h_sound.stop_segment, h_stop]
  · have h_front := stop_lt_firstOffset accepted h_header h_fits h_mem
    omega

/-! ## The furthest write -/

/-- The offset of the last copy of the directory. -/
def LayoutSettings.lastCopy (s : LayoutSettings) : Nat :=
  s.base + s.alignment * (s.copies - 1)

theorem LayoutSettings.Accepted.header_le_lastCopy (accepted : s.Accepted) : 40 ≤ s.lastCopy :=
  Nat.le_trans accepted.header_le_base (Nat.le_add_right _ _)

theorem reach_rootSegments_nil (accepted : s.Accepted) :
    Image.reach (s.rootSegments []) = s.lastCopy := by
  have h_none : s.directoryBytes [] = [] := List.eq_nil_of_length_eq_zero (by simp)
  rw [LayoutSettings.rootSegments, LayoutSettings.imageSegments, h_none, List.map_nil,
    List.nil_append]
  apply Nat.le_antisymm
  · refine Image.reach_le fun t h_mem => ?_
    rcases List.mem_cons.mp h_mem with rfl | h_mem
    · exact accepted.header_le_lastCopy
    · obtain ⟨i, ⟨-, h_lt⟩, rfl⟩ := LayoutSettings.mem_copySegments.mp h_mem
      have h_mul : s.alignment * i ≤ s.alignment * (s.copies - 1) :=
        Nat.mul_le_mul_left _ (by omega)
      exact Nat.add_le_add_left h_mul _
  · have h_last : .ofBytes s.lastCopy [] ∈ s.copySegments [] 0 s.copies := by
      have h_pos := accepted.copies_pos
      exact LayoutSettings.mem_copySegments.mpr ⟨s.copies - 1, by omega, rfl⟩
    exact Image.stop_le_reach (List.mem_cons_of_mem _ h_last)

theorem reach_rootSegments_concat {m : PlacedModule}
    (packed : Packed s.alignment s.firstOffset ((modules ++ [m]).map (·.placement)) next)
    (sound : ∀ n ∈ modules ++ [m], n.Sound s) (accepted : s.Accepted)
    (h_fits : (s.directoryBytes (modules ++ [m])).length < s.alignment) :
    Image.reach (s.rootSegments (modules ++ [m])) = m.placement.stop := by
  have h_mem : m ∈ modules ++ [m] := List.mem_append_right _ List.mem_cons_self
  have h_first := packed.firstOffset_le_stop (List.mem_map_of_mem h_mem)
  have h_before : ∀ n ∈ modules, n.placement.stop ≤ m.placement.stop := by
    intro n h_n
    have h_pairwise := packed.pairwise
    rw [List.map_append, List.pairwise_append] at h_pairwise
    have h_le := h_pairwise.2.2 _ (List.mem_map_of_mem h_n) _ List.mem_cons_self
    exact Nat.le_trans h_le (Nat.le_add_right _ _)
  apply Nat.le_antisymm
  · refine Image.reach_le fun t h_t => ?_
    rcases List.mem_append.mp h_t with h_t | h_t
    · obtain ⟨n, h_n, rfl⟩ := List.mem_map.mp h_t
      rw [(sound n h_n).stop_segment]
      rcases List.mem_append.mp h_n with h_n | h_n
      · exact h_before n h_n
      · rw [List.mem_singleton.mp h_n]
    · have h_front := stop_lt_firstOffset accepted (RootHeader.length_encode _) h_fits h_t
      omega
  · rw [← (sound m h_mem).stop_segment]
    exact Image.stop_le_reach (List.mem_append_left _ (List.mem_map_of_mem h_mem))

theorem extent_rootSegments_nil (s : LayoutSettings) :
    Image.extent (s.rootSegments []) = 40 := by
  have h_none : s.directoryBytes [] = [] := List.eq_nil_of_length_eq_zero (by simp)
  rw [LayoutSettings.rootSegments, LayoutSettings.imageSegments, h_none, List.map_nil,
    List.nil_append]
  apply Nat.le_antisymm
  · refine Image.extent_le fun t h_mem h_nonempty => ?_
    rcases List.mem_cons.mp h_mem with rfl | h_mem
    · exact Nat.le_refl _
    · obtain ⟨i, -, rfl⟩ := LayoutSettings.mem_copySegments.mp h_mem
      cases h_nonempty
  · exact Image.stop_le_extent (s := .ofBytes 0 (s.rootHeader 0).encode) List.mem_cons_self rfl

/-- The furthest write extends the image if a payload reaches as far as any module. -/
theorem reach_eq_extent_iff {m : PlacedModule}
    (packed : Packed s.alignment s.firstOffset ((modules ++ [m]).map (·.placement)) next)
    (sound : ∀ n ∈ modules ++ [m], n.Sound s) (accepted : s.Accepted)
    (h_fits : (s.directoryBytes (modules ++ [m])).length < s.alignment) :
    Image.reach (s.rootSegments (modules ++ [m])) = Image.extent (s.rootSegments (modules ++ [m])) ↔
      ∃ p ∈ (modules ++ [m]).map (·.placement), p.size ≠ 0 ∧
        ∀ q ∈ (modules ++ [m]).map (·.placement), q.stop ≤ p.stop := by
  have h_last : m.placement ∈ (modules ++ [m]).map (·.placement) := by simp
  have h_reach := reach_rootSegments_concat packed sound accepted h_fits
  constructor
  · intro h_eq
    have h_first : s.firstOffset ≤ Image.extent (s.rootSegments (modules ++ [m])) := by
      rw [← h_eq, h_reach]
      exact packed.firstOffset_le_stop h_last
    obtain ⟨p, h_mem, h_size, h_stop⟩ :=
      exists_stop_eq_extent sound accepted (RootHeader.length_encode _) h_fits h_first
    refine ⟨p, h_mem, h_size, fun q h_q => ?_⟩
    obtain ⟨n, h_n, rfl⟩ := List.mem_map.mp h_q
    have h_reached : n.segment.stop ≤ Image.reach (s.rootSegments (modules ++ [m])) :=
      Image.stop_le_reach (List.mem_append_left _ (List.mem_map_of_mem h_n))
    rw [h_eq, (sound n h_n).stop_segment] at h_reached
    exact h_reached.trans_eq h_stop.symm
  · rintro ⟨p, h_mem, h_size, h_max⟩
    have h_extent : p.stop ≤ Image.extent (s.rootSegments (modules ++ [m])) :=
      stop_le_extent_of_size_ne_zero sound _ _ h_mem h_size
    refine Nat.le_antisymm ?_ (Image.extent_le_reach _)
    rw [h_reach]
    exact Nat.le_trans (h_max _ h_last) h_extent

/-! ## The report -/

/-- The report gives the end of the last module, or where the last copy of the
directory begins if there is none.  The image never reaches further, and it
reaches so far exactly if a payload reaches as far as any module; without modules,
if the only copy of the directory would stand right behind the header. -/
theorem reported_size {medium after : Medium} {b : RootBuilder} {report : RootReport}
    (unlimited : medium.Unlimited) (blank : medium.image = .empty)
    (h_start : RootBuilder.start medium s = .ok b) (attempts : List Attempt)
    (h_finish : (b.addAll attempts).finish = (.ok report, after)) :
    report.imageSize.toNat = (report.modules.getLast?.map (·.stop)).getD s.lastCopy ∧
      after.image.size ≤ report.imageSize.toNat ∧
      (report.imageSize.toNat = after.image.size ↔
        (report.modules = [] ∧ s.lastCopy = RootHeader.width) ∨
          ∃ p ∈ report.modules, p.size ≠ 0 ∧ ∀ q ∈ report.modules, q.stop ≤ p.stop) := by
  have built := built_of_finish unlimited blank h_start attempts h_finish
  have h := allocated_addAll unlimited h_start attempts
  have packed := h.packed
  rw [h.placements_eq] at packed
  generalize b.accepted attempts = modules at built packed
  rw [built.imageSize_eq, built.consists.size_eq, built.modules_eq]
  rcases modules.eq_nil_or_concat with rfl | ⟨init, m, rfl⟩
  · rw [reach_rootSegments_nil built.accepted, extent_rootSegments_nil]
    refine ⟨rfl, built.accepted.header_le_lastCopy, fun h_eq => .inl ⟨rfl, h_eq⟩, ?_⟩
    rintro (⟨-, h_eq⟩ | ⟨p, h_mem, -⟩)
    · exact h_eq
    · cases h_mem
  · rw [List.concat_eq_append] at built packed ⊢
    have h_fits : (s.directoryBytes (init ++ [m])).length < s.alignment := by
      rw [LayoutSettings.length_directoryBytes]
      exact built.accepted.directory_lt built.fits
    refine ⟨?_, Image.extent_le_reach _, ?_⟩
    · rw [reach_rootSegments_concat packed built.sound built.accepted h_fits]
      simp
    · rw [reach_eq_extent_iff packed built.sound built.accepted h_fits, or_iff_right]
      rintro ⟨h_nil, -⟩
      simp at h_nil

/-- A payload that fills its block, and an empty module right behind it. -/
def fullBlock : List Attempt :=
  [⟨.ml, 0x2001, List.replicate 0x40 1⟩, ⟨.appProfile, 0x4001, []⟩]

/-- The empty module is the last one, but the payload in front of it reaches as far. -/
theorem reported_size_fullBlock :
    ∃ b report after, RootBuilder.start {} mixedLayout = .ok b ∧
      (b.addAll fullBlock).finish = (.ok report, after) ∧
      report.modules.map (fun p => (p.offset, p.size)) = [(0xC0, 0x40), (0x100, 0)] ∧
      report.imageSize.toNat = after.image.size := by
  refine ⟨_, _, _, by rfl, by rfl, by decide, ?_⟩
  obtain ⟨-, -, h_iff⟩ :=
    @reported_size mixedLayout {} _ _ _ Medium.unlimited_empty rfl rfl fullBlock rfl
  exact h_iff.mpr (.inr ⟨_, List.mem_cons_self, by decide, by decide⟩)

/-- A payload of one byte, and an empty module in the next block. -/
def emptyBlock : List Attempt :=
  [⟨.ml, 0x2001, [1]⟩, ⟨.appProfile, 0x4001, []⟩]

/-- More is reported than there is: up to the place of an empty module, or up to
that of an empty directory. -/
theorem reported_size_overstated :
    (∃ b report after, RootBuilder.start {} mixedLayout = .ok b ∧
        (b.addAll emptyBlock).finish = (.ok report, after) ∧
        report.imageSize = 0x100 ∧ after.image.size = 0xC1) ∧
      ∃ b report after, RootBuilder.start {} {} = .ok b ∧
        (b.addAll []).finish = (.ok report, after) ∧
        report.imageSize = 0x8000 ∧ after.image.size = 40 :=
  ⟨⟨_, _, _, rfl, rfl, by decide, by decide⟩, ⟨_, _, _, rfl, rfl, by decide, by decide⟩⟩

end FlashImage
