import FlashImage.Digest.Sha256
import FlashImage.Proofs.Decoding
import FlashImage.Proofs.Layout.Finish

/-!
# Inspecting a finished image

What was built is found again.  The only thing that the decoder cannot always
find is an empty range past the end of the file: the directory of an image
without modules, or an empty module at its end.

* `inspect_finish`: building and then inspecting.
-/

namespace FlashImage

/-! ## Kinds -/

namespace ModuleCategory

theorem eq_of_contains {c d : ModuleCategory} {identifier : UInt32}
    (h_c : c.contains identifier = true) (h_d : d.contains identifier = true) : c = d := by
  simp only [contains, Bool.and_eq_true, decide_eq_true_eq, UInt32.le_iff_toNat_le] at h_c h_d
  cases c <;> cases d <;> first | rfl | exact absurd (h_c.1.trans h_d.2) (by decide) |
    exact absurd (h_d.1.trans h_c.2) (by decide)

theorem contains_of_classify? {c : ModuleCategory} {identifier : UInt32}
    (h : classify? identifier = some c) : c.contains identifier = true := by
  have h_found := List.find?_some h
  exact h_found

theorem classify?_eq_some_iff {c : ModuleCategory} {identifier : UInt32} :
    classify? identifier = some c ↔ c.contains identifier = true := by
  refine ⟨contains_of_classify?, fun h => ?_⟩
  cases h_find : classify? identifier with
  | none =>
    have h_mem : c ∈ layoutOrder := by cases c <;> decide
    exact absurd h (List.find?_eq_none.mp h_find c h_mem)
  | some d => rw [eq_of_contains (contains_of_classify? h_find) h]

end ModuleCategory

/-! ## Decoding the image of a build -/

/-- A module as it is decoded, with the digest of the bytes that were added. -/
def PlacedModule.inspected (digest : Bytes → String) (m : PlacedModule) : InspectedEntry where
  identifier := m.placement.identifier
  kind := some m.attempt.category.label
  offset := m.placement.directoryOffset
  absoluteOffset := m.placement.offset.toNat
  size := m.placement.size
  sha256 := digest m.attempt.bytes

def LayoutSettings.inspected (s : LayoutSettings) (digest : Bytes → String)
    (modules : List PlacedModule) : RootInspection where
  header := s.rootHeader modules.length
  entries :=
    (pinnedFirst (·.placement.identifier) s.bootIdentifier modules).map (·.inspected digest)

namespace Inspect

variable {digest : Bytes → String} {s : LayoutSettings} {modules : List PlacedModule} {img : Image}

/-! ### Any header and directory -/

section Front

variable {header : RootHeader}

theorem record_front {directory : Bytes}
    (consists : img.Consists (s.imageSegments modules header.encode directory)) :
    record RootHeader.decode? img 0 RootHeader.width = .ok { header with crc := 0 } := by
  have h_decode := header.decode?_encode_append []
  have h_mem : .ofBytes 0 header.encode ∈ s.imageSegments modules header.encode directory :=
    LayoutSettings.header_mem
  rw [← List.append_nil header.encode] at consists h_mem
  rw [List.append_nil] at h_decode
  exact record_eq consists h_mem (Nat.zero_le _) h_decode

theorem isRoot_front {directory : Bytes}
    (consists : img.Consists (s.imageSegments modules header.encode directory))
    (h_signature : header.signature = RootHeader.magic) : isRoot img = true := by
  obtain ⟨rest, h_rest⟩ : ∃ rest, header.encode = Word.encode header.signature ++ rest := ⟨_, rfl⟩
  have h_mem : .ofBytes 0 header.encode ∈ s.imageSegments modules header.encode directory :=
    LayoutSettings.header_mem
  rw [h_rest, h_signature] at consists h_mem
  rw [isRoot_eq consists h_mem]
  exact beq_self_eq_true _

theorem readDirectory_front {entries : List DirectoryEntry} {front : Bytes}
    (consists :
      img.Consists (s.imageSegments modules front (entries.flatMap DirectoryEntry.encode)))
    (accepted : s.Accepted) (h_fits : 12 * entries.length ≤ s.alignment) :
    readDirectory img s.base (UInt32.ofNat (12 * entries.length)) =
      if s.base ≤ img.size then .ok entries
      else .error (.truncated s.base (12 * entries.length) img.size) :=
  readDirectory_eq consists (LayoutSettings.copy_mem accepted.copies_pos)
    (UInt32.toNat_ofNat_of_lt (Nat.lt_of_le_of_lt h_fits s.alignment_lt))

end Front

/-! ### The header and the directory of the modules -/

theorem record_header (consists : img.Consists (s.rootSegments modules)) :
    record RootHeader.decode? img 0 RootHeader.width = .ok (s.rootHeader modules.length) :=
  record_front consists

theorem isRoot_eq_true (consists : img.Consists (s.rootSegments modules)) : isRoot img = true :=
  isRoot_front consists (rfl : (s.rootHeader modules.length).signature = RootHeader.magic)

theorem readDirectory_modules (consists : img.Consists (s.rootSegments modules))
    (accepted : s.Accepted) (h_fits : 12 * modules.length ≤ s.alignment) :
    readDirectory img s.base (s.rootHeader modules.length).sizeOfDirectory =
      if s.base ≤ img.size then .ok (s.directory modules)
      else .error (.truncated s.base (12 * modules.length) img.size) := by
  have h_length : (s.directory modules).length = modules.length := by
    rw [LayoutSettings.directory, List.length_map, length_pinnedFirst]
  rw [← h_length] at h_fits ⊢
  exact readDirectory_front consists accepted h_fits

theorem digestEntry_placed (consists : img.Consists (s.rootSegments modules)) {m : PlacedModule}
    (sound : m.Sound s) (h_mem : m ∈ modules) :
    digestEntry digest img s.base moduleKind (m.entryIn s) =
      if m.placement.offset.toNat ≤ img.size then .ok (m.inspected digest)
      else .error (.entryOutOfBounds m.placement.identifier m.placement.offset.toNat
        m.placement.size img.size) := by
  have h_kind : moduleKind m.placement.identifier = some m.attempt.category.label := by
    rw [moduleKind, ModuleCategory.classify?_eq_some_iff.mpr sound.in_range, sound.category_eq]
    rfl
  have h_start : s.base + m.placement.directoryOffset.toNat = m.placement.offset.toNat :=
    sound.offset_eq.symm
  have h_segment : m.segment ∈ s.rootSegments modules := LayoutSettings.segment_mem h_mem
  rw [PlacedModule.segment, ← h_start] at h_segment
  rw [← sound.entry_eq, digestEntry_eq (e := m.placement.entry) consists h_segment sound.size_eq]
  simp only [ModulePlacement.entry, h_start, h_kind, PlacedModule.inspected]

theorem mapM_directory_eq_ok_iff (consists : img.Consists (s.rootSegments modules))
    (sound : ∀ m ∈ modules, m.Sound s) {entries : List InspectedEntry} :
    (s.directory modules).mapM (digestEntry digest img s.base moduleKind) = .ok entries ↔
      (∀ m ∈ modules, m.placement.offset.toNat ≤ img.size) ∧
        entries = (s.inspected digest modules).entries := by
  have h_step : ∀ m ∈ pinnedFirst (·.placement.identifier) s.bootIdentifier modules,
      (digestEntry digest img s.base moduleKind ∘ (·.entryIn s)) m =
        if m.placement.offset.toNat ≤ img.size then .ok (m.inspected digest)
        else .error (.entryOutOfBounds m.placement.identifier m.placement.offset.toNat
          m.placement.size img.size) := by
    intro m h_mem
    rw [mem_pinnedFirst] at h_mem
    exact digestEntry_placed consists (sound m h_mem) h_mem
  rw [LayoutSettings.directory, List.mapM_map, mapM_eq_ok_iff h_step]
  simp only [mem_pinnedFirst, LayoutSettings.inspected]

/-- An image that is made up of modules, header and copies is decoded exactly
when its directory and all its modules begin inside the file. -/
theorem inspectRoot_eq_ok_iff (consists : img.Consists (s.rootSegments modules))
    (accepted : s.Accepted) (sound : ∀ m ∈ modules, m.Sound s)
    (h_fits : 12 * modules.length ≤ s.alignment) {r : RootInspection} :
    inspectRoot digest img = .ok r ↔
      (s.base ≤ img.size ∧ ∀ m ∈ modules, m.placement.offset.toNat ≤ img.size) ∧
        r = s.inspected digest modules := by
  have h_signature : (s.rootHeader modules.length).signature = RootHeader.magic := rfl
  have h_width : (s.rootHeader modules.length).directoryEntrySize.toNat =
      DirectoryEntry.width := rfl
  have h_base : (s.rootHeader modules.length).startOfDirectory.toNat = s.base := rfl
  unfold inspectRoot
  rw [record_header consists]
  simp only [bind, Except.bind, h_signature, h_width, h_base, ne_eq, not_true_eq_false, if_false,
    readDirectory_modules consists accepted h_fits]
  by_cases h_inside : s.base ≤ img.size
  · rw [if_pos h_inside]
    dsimp only
    cases h_mapM : (s.directory modules).mapM (digestEntry digest img s.base moduleKind) with
    | error e =>
      refine iff_of_false (fun h => by cases h) ?_
      rintro ⟨⟨-, h_all⟩, -⟩
      rw [(mapM_directory_eq_ok_iff consists sound).mpr ⟨h_all, rfl⟩] at h_mapM
      cases h_mapM
    | ok entries =>
      obtain ⟨h_all, rfl⟩ := (mapM_directory_eq_ok_iff consists sound).mp h_mapM
      constructor
      · intro h
        cases h
        exact ⟨⟨h_inside, h_all⟩, rfl⟩
      · rintro ⟨-, rfl⟩
        rfl
  · rw [if_neg h_inside]
    simp [h_inside]

end Inspect

/-- What was built is found again: the header of the report, and every module in
the order of the directory, with the digest of the bytes that were added. -/
theorem inspect_finish (digest : Bytes → String) {medium after : Medium} {s : LayoutSettings}
    {b : RootBuilder}
    {report : RootReport} (unlimited : medium.Unlimited) (blank : medium.image = .empty)
    (h_start : RootBuilder.start medium s = .ok b) (attempts : List Attempt)
    (h_finish : (b.addAll attempts).finish = (.ok report, after)) :
    let modules := b.accepted attempts
    report.modules = modules.map (·.placement) ∧
      ((∃ r, Inspect.inspectRoot digest after.image = .ok r) ↔
        s.base ≤ after.image.size ∧ ∀ p ∈ report.modules, p.offset.toNat ≤ after.image.size) ∧
      ∀ r, Inspect.inspectRoot digest after.image = .ok r →
        Inspect.inspect digest after.image = .ok (.root r) ∧ r.header = report.header ∧
        r.entries =
          (pinnedFirst (·.placement.identifier) s.bootIdentifier modules).map
            (·.inspected digest) := by
  intro modules
  have built := built_of_finish unlimited blank h_start attempts h_finish
  have decoded : ∀ r, Inspect.inspectRoot digest after.image = .ok r ↔
      (s.base ≤ after.image.size ∧
        ∀ m ∈ modules, m.placement.offset.toNat ≤ after.image.size) ∧
          r = s.inspected digest modules :=
    fun _ => Inspect.inspectRoot_eq_ok_iff built.consists built.accepted built.sound built.fits
  refine ⟨built.modules_eq, ?_, fun r h_r => ⟨?_, ?_⟩⟩
  · rw [built.modules_eq]
    simp only [decoded, exists_and_left, exists_eq, and_true, List.forall_mem_map]
    exact Iff.rfl
  · rw [Inspect.inspect, if_pos (Inspect.isRoot_eq_true built.consists), h_r]
    rfl
  · obtain ⟨-, rfl⟩ := (decoded r).mp h_r
    exact ⟨built.header_eq.symm, rfl⟩

/-- The empty module lies inside the file here, since another one follows it. -/
theorem inspect_finish_mixed :
    ∃ b report after, RootBuilder.start {} mixedLayout = .ok b ∧
      (b.addAll mixedAttempts).finish = (.ok report, after) ∧
      ∃ r, Inspect.inspect Sha256.hexDigest after.image = .ok (.root r) ∧
        r.header = report.header ∧
        r.entries.map (fun e => (e.kind, e.absoluteOffset, e.size, e.sha256)) =
          [(some "GARD FW", 0x140, 2,
              "ee9040f65c341855e070ff438eb0ea9d5b831b2a2c270fb7ef592d750408e3b3"),
            (some "ML", 0xC0, 0x41,
              "dc7156746a46cbe6edfaceb4ccfb9b27fc7250d2608a991848cfec6f62f39932"),
            (some "App Data", 0x140, 0,
              "e3b0c44298fc1c149afbf4c8996fb92427ae41e4649b934ca495991b7852b855")] := by
  refine ⟨_, _, _, by rfl, by rfl, ?_⟩
  obtain ⟨-, h_iff, h_all⟩ :=
    @inspect_finish Sha256.hexDigest {} _ mixedLayout _ _ Medium.unlimited_empty rfl rfl
      mixedAttempts rfl
  obtain ⟨r, h_r⟩ := h_iff.mpr (by decide)
  obtain ⟨h_inspect, h_header, h_entries⟩ := h_all r h_r
  refine ⟨r, h_inspect, h_header, ?_⟩
  rw [h_entries, List.map_map]
  decide +kernel

end FlashImage
