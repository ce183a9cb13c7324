import FlashImage.Proofs.Files.Paths

/-!
# From staged file to target

A target is built beside its place.  Each step on the way there is told by what
it leaves behind: directories that are made, a staged file, and in the end the
target in its place or the staged file taken away.

* `FileTree.Replaced`: what the way to the target comes to.
-/

namespace FlashImage.FileTree

variable {t base : FileTree}

/-! ## Directories on the way -/

/-- The files of two trees are the same, and the first has the directories of the second. -/
structure Widens (t base : FileTree) : Prop where
  file?_eq : ∀ q, t.file? q = base.file? q
  directories : ∀ q, base.kind? q = some .directory → t.kind? q = some .directory

namespace Widens

theorem refl (t : FileTree) : Widens t t :=
  ⟨fun _ => rfl, fun _ h => h⟩

theorem of_kind? (h : ∀ q, t.kind? q = base.kind? q) : Widens t base :=
  ⟨fun q => file?_congr (h q), fun q h_q => (h q).trans h_q⟩

theorem trans {t' : FileTree} (h' : Widens t' t) (h : Widens t base) : Widens t' base :=
  ⟨fun q => (h'.file?_eq q).trans (h.file?_eq q), fun q h_q =>
    h'.directories q (h.directories q h_q)⟩

theorem modeAt_eq (h : Widens t base) (place : Place) : t.modeAt place = base.modeAt place := by
  rw [modeAt, modeAt, h.file?_eq]

theorem unused (h : Widens t base) {q : Place} (h_q : t.kind? q = none) : base.kind? q = none := by
  cases h_base : base.kind? q with
  | none => rfl
  | some kind =>
    cases kind with
    | file content mode =>
      rw [← file?_eq_some_iff, ← h.file?_eq, file?_eq_some_iff, h_q] at h_base
      cases h_base
    | directory =>
      rw [h.directories q h_base] at h_q
      cases h_q

end Widens

theorem widens_makeDirectory {path : NativeText} {made : FileTree}
    (h : t.makeDirectory path = .ok made) :
    Widens made t := by
  obtain ⟨-, -, h⟩ := bind_eq_ok.mp h
  obtain ⟨found, h_spot, h⟩ := bind_eq_ok.mp h
  split at h
  next place =>
    cases h
    obtain ⟨name, up, h_eq, last⟩ := lastSpot_eq_ok h_spot
    obtain ⟨rfl, h_node⟩ := Spot.mk.inj h_eq
    have h_none : t.kind? (name :: up) = none := by
      rw [kind?, ← h_node]
      rfl
    refine ⟨file?_put_directory last.parent h_none, fun q h_q => ?_⟩
    rw [kind?_put_of_not_suffix last.parent _ ?_, h_q]
    intro h_suffix
    rw [kind?_of_suffix h_none h_suffix] at h_q
    cases h_q
  next => cases h

theorem widens_makeUpTo (n : Nat) (path : NativeText) : Widens (t.makeUpTo n path).2 t := by
  induction n generalizing path with
  | zero => exact .refl t
  | succ n ih =>
    unfold makeUpTo
    split
    · exact .refl t
    · split
      next made h_made => exact widens_makeDirectory h_made
      next =>
        have h_parent := ih ((FilePath.parent? path).getD "")
        cases h_made : t.makeUpTo n ((FilePath.parent? path).getD "") with
        | mk result made =>
          rw [h_made] at h_parent
          cases result with
          -- what was made for the parent stays, whatever becomes of the path itself
          | error e => exact h_parent
          | ok =>
            dsimp only
            split
            next h_last => exact (widens_makeDirectory h_last).trans h_parent
            next => split <;> exact h_parent
      next => split <;> exact .refl t

theorem widens_makeDirectories (path : NativeText) : Widens (t.makeDirectories path).2 t :=
  widens_makeUpTo _ path

/-! ## The staged file -/

variable {staged : StagedFile} {content : Image}

/-- A tree has one file more than another one, which is a staged file. -/
structure IsStaged (base t : FileTree) (staged : StagedFile) (content : Image) : Prop where
  named : ∃ name up, staged.place = name :: up ∧ isMark name = false
  unused : base.kind? staged.place = none
  kind?_eq : ∀ q,
    t.kind? q = if q = staged.place then some (.file content staged.mode) else base.kind? q

theorem isStaged_stage {names : TemporaryNames} {target : NativeText}
    (h : t.stage names target = .ok (staged, base)) :
    IsStaged t base staged .empty ∧ staged.mode = t.modeFor target := by
  have plain := plain_components (stagingDirectory target)
  unfold stage at h
  cases h_start : startOf (stagingDirectory target) with
  | mk start components =>
  rw [h_start] at h plain
  obtain ⟨s, h_follow, h⟩ := bind_eq_ok.mp h
  have h_spot := follow_spot (List.forall_mem_append.mpr ⟨plain, by decide⟩) h_follow
  generalize (components ++ [NativeText.ofString "."]).foldl step start = up at h_spot
  subst h_spot
  split at h
  next entries h_node =>
    replace h_node : t.node? up = some (.directory entries) := h_node
    obtain ⟨name, h_name, h⟩ := bind_eq_ok.mp h
    cases h
    have unmarked := names.unmarked h_name
    have h_lookup : entries.lookup name = none := by
      rw [List.lookup_eq_none_iff]
      intro e h_mem
      rw [bne_iff_ne]
      exact fun h_eq => names.unused h_name (List.mem_map.mpr ⟨e, h_mem, h_eq.symm⟩)
    have unused : t.kind? (name :: up) = none := by
      rw [kind?, node?_cons, h_node]
      simp only [Option.bind_some, FileNode.child?, h_lookup, unmarked, Bool.false_eq_true,
        if_false]
      rfl
    have h_up : t.kind? up = some .directory := kind?_eq_directory_iff.mpr ⟨entries, h_node⟩
    exact ⟨⟨⟨name, up, rfl, unmarked⟩, unused,
      kind?_put_file h_up (by simp [unused]) _ _⟩, rfl⟩
  next => cases h
  next => cases h

theorem persist_eq_ok {target : NativeText} {done : FileTree}
    (h : t.persist staged target = .ok done) :
    ∃ name up node, LastSpot t target name up ∧ t.kind? (name :: up) ≠ some .directory ∧
      t.node? staged.place = some node ∧ checkPath target = .ok () ∧
      target.bytes.getLast? ≠ some FilePath.slash ∧
        done = (t.remove staged.place).put (name :: up) node := by
  obtain ⟨_, h_check, h⟩ := bind_eq_ok.mp h
  obtain ⟨found, h_found, h⟩ := bind_eq_ok.mp h
  have h_path : checkPath target = .ok () := by
    unfold checkTarget at h_check
    split at h_check
    · cases h_check
    · exact h_check
  cases found with
  | none => cases h
  | some s =>
    obtain ⟨name, up, rfl, last⟩ := lastSpot_eq_ok h_found
    dsimp only at h
    split at h
    · cases h
    next h_slash =>
      split at h
      · cases h
      · cases h
      next node h_node h_file =>
        cases h
        have h_target : t.kind? (name :: up) ≠ some .directory := by
          rw [ne_eq, kind?_eq_directory_iff]
          rintro ⟨entries, h_directory⟩
          exact h_file entries h_directory
        exact ⟨name, up, node, last, h_target, h_node, h_path, h_slash, rfl⟩

/-- The files while a target is built: one empty file has come up where nothing was,
and whatever could be read before still reads the same. -/
structure Building (files during : FileTree) : Prop where
  file?_eq : ∃ place mode, files.kind? place = none ∧
    ∀ q, during.file? q = if q = place then some (.empty, mode) else files.file? q
  readImage_eq : ∀ path content,
    files.readImage path = .ok content → during.readImage path = .ok content

/-- A content that is built from the files as they are meanwhile stands in the place
of a target, with the permission bits of the file that it replaces or of a new one.
Every other file is as it was, and no directory is gone. -/
structure Replaced (files done : FileTree) (target : NativeText)
    (Builds : FileTree → Image → Prop) :
    Prop where
  file?_eq : ∃ content during, Building files during ∧ Builds during content ∧
    ∀ place, done.file? place =
      if place = placeOf target then some (content, files.modeAt (placeOf target))
      else files.file? place
  directories : ∀ place, files.kind? place = some .directory → done.kind? place = some .directory

theorem Replaced.mono {files done : FileTree} {target : NativeText}
    {Builds Builds' : FileTree → Image → Prop} (h : Replaced files done target Builds)
    (h_builds : ∀ during content, Builds during content → Builds' during content) :
    Replaced files done target Builds' := by
  obtain ⟨⟨content, during, h_during, h_content, h_done⟩, directories⟩ := h
  exact ⟨⟨content, during, h_during, h_builds during content h_content, h_done⟩, directories⟩

namespace IsStaged

theorem kind?_self (h : IsStaged base t staged content) :
    t.kind? staged.place = some (.file content staged.mode) := by
  rw [h.kind?_eq, if_pos rfl]

theorem directory_iff (h : IsStaged base t staged content) {q : Place} :
    t.kind? q = some .directory ↔ base.kind? q = some .directory := by
  rw [h.kind?_eq]
  split
  next h_q =>
    rw [h_q, h.unused]
    exact iff_of_false nofun nofun
  next => exact Iff.rfl

theorem fill (h : IsStaged base t staged content) (filled : Image) :
    IsStaged base (t.fill staged filled) staged filled := by
  obtain ⟨name, up, h_place, -⟩ := h.named
  refine ⟨h.named, h.unused, fun q => ?_⟩
  have h_self := h.kind?_self
  rw [h_place] at h_self
  have h_put := kind?_put_file (kind?_parent (by rw [h_self]; exact nofun))
    (by rw [h_self]; exact nofun) filled staged.mode q
  rw [FileTree.fill, h_place, h_put, h.kind?_eq, h_place]
  split <;> rfl

/-- Taking the staged file away leaves nothing of it. -/
theorem remove (h : IsStaged base t staged content) (q : Place) :
    (t.remove staged.place).kind? q = base.kind? q := by
  obtain ⟨name, up, h_place, unmarked⟩ := h.named
  have h_self := h.kind?_self
  have unused := h.unused
  rw [h_place] at h_self unused
  rw [h_place, kind?_remove h_self unmarked, h.kind?_eq, h_place]
  by_cases h_q : q = name :: up
  · rw [if_pos h_q, h_q, unused]
  · rw [if_neg h_q, if_neg h_q]

/-- A staged file that has been moved stands in the place of its target, and nothing
else is different. -/
theorem persist (h : IsStaged base t staged content) {target : NativeText} {done : FileTree}
    (h_persist : t.persist staged target = .ok done) :
    base.kind? (placeOf target) ≠ some .directory ∧
    (∀ q, done.kind? q =
      if q = placeOf target then some (.file content staged.mode) else base.kind? q) ∧
    base.modeFor target = base.modeAt (placeOf target) := by
  obtain ⟨name, up, node, last, h_target, h_node, h_path, h_slash, rfl⟩ := persist_eq_ok h_persist
  rw [node?_of_file? (file?_eq_some_iff.mpr h.kind?_self)] at h_node
  cases h_node
  rw [ne_eq, h.directory_iff] at h_target
  refine ⟨last.placeOf_eq ▸ h_target, fun q => ?_, ?_⟩
  · -- once the staged file is off its place the tree looks like `base`, also if the
    -- target is that very place
    have h_up := h.directory_iff.mp last.parent
    rw [← h.remove] at h_up h_target
    rw [last.placeOf_eq, ← h.remove]
    exact kind?_put_file h_up h_target content staged.mode q
  · exact modeFor_eq_modeAt (fun q => h.directory_iff.mp) last h_path h_slash

theorem building (h : IsStaged base t staged .empty) {files : FileTree} (wide : Widens base files) :
    Building files t := by
  have unused := wide.unused h.unused
  have h_file (q : Place) :
      t.file? q = if q = staged.place then some (.empty, staged.mode) else files.file? q := by
    rw [← wide.file?_eq]
    exact file?_eq_ite h.kind?_eq q
  refine ⟨⟨staged.place, staged.mode, unused, h_file⟩, fun path content h_read => ?_⟩
  obtain ⟨node, h_stat, h_read⟩ := bind_eq_ok.mp h_read
  split at h_read
  next mode =>
    cases h_read
    have h_before : files.file? (placeOf path) = some (content, mode) := by
      rw [file?, node?_of_stat h_stat]
    have h_ne : placeOf path ≠ staged.place := by
      intro h_eq
      rw [h_eq, file?_eq_some_iff, unused] at h_before
      cases h_before
    have h_after : t.file? (placeOf path) = some (content, mode) := by
      rw [h_file, if_neg h_ne, h_before]
    have directories : ∀ q, files.kind? q = some .directory → t.kind? q = some .directory :=
      fun q h_q => h.directory_iff.mpr (wide.directories q h_q)
    rw [readImage, stat_mono directories h_stat h_after]
    rfl
  next => cases h_read

theorem replaced (h : IsStaged base t staged .empty) {files : FileTree} (wide : Widens base files)
    {target : NativeText} (h_mode : staged.mode = base.modeFor target)
    {Builds : FileTree → Image → Prop} (h_builds : Builds t content) {done : FileTree}
    (h_persist : (t.fill staged content).persist staged target = .ok done) :
    Replaced files done target Builds := by
  obtain ⟨h_target, h_kind, h_modeFor⟩ := (h.fill content).persist h_persist
  rw [h_mode, h_modeFor, wide.modeAt_eq] at h_kind
  refine ⟨⟨content, t, h.building wide, h_builds, fun place => ?_⟩, fun place h_directory => ?_⟩
  · rw [← wide.file?_eq]
    exact file?_eq_ite h_kind place
  · have h_base := wide.directories place h_directory
    have h_ne : place ≠ placeOf target := by
      rintro rfl
      exact h_target h_base
    rw [h_kind, if_neg h_ne, h_base]

end IsStaged

end FlashImage.FileTree
