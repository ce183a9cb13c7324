import FlashImage.CommandLine.Session
import FlashImage.Proofs.Files.Staging

/-!
# What runs do to files

A run prints, takes notes and changes files.  Of these only the files are told
here, each time from the files that a run starts with.

* `Run.replaces_stage`: a target is replaced as a whole, or no file is changed.
-/

namespace FlashImage.CommandLine.Run

open FileTree

variable {α β ε : Type} {files : FileTree}

/-- Whether `returned` holds of the value and the files of a run that has returned, or
`failed` of the files of one that has failed. -/
def Ended (returned : α → FileTree → Prop) (failed : FileTree → Prop) :
    Except Failure α × Session → Prop
  | (.ok a, s) => returned a s.files
  | (.error _, s) => failed s.files

/-- What a run leaves behind when it starts with the given files. -/
structure Leaves (x : Run α) (files : FileTree) (returned : α → FileTree → Prop)
    (failed : FileTree → Prop) : Prop where
  ended : ∀ s : Session, s.files = files → Ended returned failed (x.run s)

variable {returned : β → FileTree → Prop} {failed : FileTree → Prop}

/-! ## Rules -/

theorem run_bind (x : Run α) (f : α → Run β) (s : Session) :
    (x >>= f).run s = match x.run s with
      | (.ok a, s') => (f a).run s'
      | (.error e, s') => (.error e, s') := by
  rw [ExceptT.run_bind]
  cases h_run : x.run s with
  | mk result s' =>
    simp only [bind, StateT.bind, h_run]
    cases result with
    | ok a => rfl
    | error e => rfl

theorem run_tryCatch (x : Run α) (handle : Failure → Run α) (s : Session) :
    (tryCatch x handle).run s = match x.run s with
      | (.ok a, s') => (.ok a, s')
      | (.error failure, s') => (handle failure).run s' := by
  rw [ExceptT.run_tryCatch]
  cases h_run : x.run s with
  | mk result s' =>
    simp only [bind, StateT.bind, h_run]
    cases result with
    | ok a => rfl
    | error e => rfl

theorem files_report (setup : Setup) (tree : Except UnwritablePath Json) (summary : String)
    (s : Session) : ((report setup tree summary).run s).2.files = s.files := by
  unfold report
  split
  · cases tree <;> rfl
  · split <;> rfl

theorem report_of_error {setup : Setup} (h_json : setup.json = true) (e : UnwritablePath)
    (summary : String) (s : Session) :
    (report setup (.error e) summary).run s = (.error (.report e), s) := by
  unfold report
  rw [if_pos h_json]
  rfl

theorem Leaves.mono {returned' : β → FileTree → Prop} {failed' : FileTree → Prop} {x : Run β}
    (h : Leaves x files returned failed) (h_returned : ∀ b t, returned b t → returned' b t)
    (h_failed : ∀ t, failed t → failed' t) : Leaves x files returned' failed' := by
  refine ⟨fun s h_files => ?_⟩
  have h_run := h.ended s h_files
  cases h_eq : x.run s with
  | mk result s' =>
    rw [h_eq] at h_run
    cases result with
    | ok b => exact h_returned b s'.files h_run
    | error e => exact h_failed s'.files h_run

theorem leaves_pure {b : β} (h : returned b files) : Leaves (pure b) files returned failed := by
  refine ⟨fun s h_files => ?_⟩
  subst h_files
  exact h

theorem leaves_bind {x : Run α} {f : α → Run β}
    (h : Leaves x files (fun a t => Leaves (f a) t returned failed) failed) :
    Leaves (x >>= f) files returned failed := by
  refine ⟨fun s h_files => ?_⟩
  have h_run := h.ended s h_files
  rw [run_bind]
  cases h_eq : x.run s with
  | mk result s' =>
    rw [h_eq] at h_run
    cases result with
    | ok a => exact h_run.ended s' rfl
    | error e => exact h_run

theorem leaves_throw {failure : Failure} (h : failed files) :
    Leaves (throw failure : Run β) files returned failed := by
  refine ⟨fun s h_files => ?_⟩
  subst h_files
  exact h

theorem leaves_tryCatch {x : Run β} {handle : Failure → Run β}
    (h : Leaves x files returned fun t => ∀ failure, Leaves (handle failure) t returned failed) :
    Leaves (tryCatch x handle) files returned failed := by
  refine ⟨fun s h_files => ?_⟩
  have h_run := h.ended s h_files
  rw [run_tryCatch]
  cases h_eq : x.run s with
  | mk result s' =>
    rw [h_eq] at h_run
    cases result with
    | ok b => exact h_run
    | error failure => exact (h_run failure).ended s' rfl

theorem leaves_modify {returned : Unit → FileTree → Prop} {change : Session → Session}
    (h : ∀ s, s.files = files → returned () (change s).files) :
    Leaves (modify change) files returned failed :=
  ⟨h⟩

theorem leaves_files {returned : FileTree → FileTree → Prop} (h : returned files files) :
    Leaves Run.files files returned failed := by
  refine ⟨fun s h_files => ?_⟩
  subst h_files
  exact h

theorem leaves_attempt {failure : ε → Failure} {r : Except ε β}
    (h_ok : ∀ b, r = .ok b → returned b files) (h_error : failed files) :
    Leaves (attempt failure r) files returned failed := by
  cases r with
  | ok b => exact leaves_pure (h_ok b rfl)
  | error e => exact leaves_throw h_error

section Quiet

variable {returned : Unit → FileTree → Prop}

theorem leaves_print (lines : List String) (h : returned () files) :
    Leaves (print lines) files returned failed :=
  leaves_modify fun _ h_files => h_files ▸ h

theorem leaves_note (notes : List Note) (h : returned () files) :
    Leaves (note notes) files returned failed :=
  leaves_modify fun _ h_files => h_files ▸ h

theorem leaves_warn (setup : Setup) (message : String) (h : returned () files) :
    Leaves (warn setup message) files returned failed := by
  unfold warn
  split
  · exact leaves_pure h
  · exact leaves_modify fun _ h_files => h_files ▸ h

theorem leaves_report {setup : Setup} {tree : Except UnwritablePath Json}
    (told : setup.json = true → ∃ json, tree = .ok json) (summary : String)
    (h : returned () files) : Leaves (report setup tree summary) files returned failed := by
  unfold report
  split
  next h_json =>
    obtain ⟨json, rfl⟩ := told h_json
    exact leaves_print _ h
  · split
    · exact leaves_pure h
    · exact leaves_print _ h

end Quiet

/-! ## Staging -/

theorem leaves_prepare (target : NativeText) :
    Leaves (prepare target) files (fun _ t => Widens t files) fun t => Widens t files := by
  unfold prepare
  refine leaves_bind (leaves_files ?_)
  have h_wide := widens_makeDirectories (t := files) (stagingDirectory target)
  cases h_make : files.makeDirectories (stagingDirectory target) with
  | mk result made =>
    rw [h_make] at h_wide
    refine leaves_bind (leaves_modify fun s h_files => ?_)
    exact leaves_attempt (fun _ _ => h_wide) h_wide

theorem leaves_openStaged (setup : Setup) (target : NativeText) :
    Leaves (openStaged setup target) files
      (fun staged t => ∃ base, Widens base files ∧ IsStaged base t staged .empty ∧
        staged.mode = base.modeFor target)
      fun t => Widens t files := by
  unfold openStaged
  refine leaves_bind ((leaves_prepare target).mono (fun _ base wide => ?_) fun _ wide => wide)
  refine leaves_bind (leaves_files (leaves_bind (leaves_attempt (fun opened h_stage => ?_) wide)))
  obtain ⟨staged, t⟩ := opened
  obtain ⟨h_staged, h_mode⟩ := isStaged_stage h_stage
  exact leaves_bind (leaves_modify fun s h_files => leaves_pure ⟨base, wide, h_staged, h_mode⟩)

variable {base : FileTree} {staged : StagedFile} {old : Image}

theorem leaves_publish {Builds : FileTree → Image → Prop} {content : Image}
    (h_staged : IsStaged base files staged .empty) (h_builds : Builds files content)
    {before : FileTree} (wide : Widens base before) {target : NativeText}
    (h_mode : staged.mode = base.modeFor target) :
    Leaves (publish staged target content) files (fun _ done => Replaced before done target Builds)
      fun t => IsStaged base t staged content := by
  unfold publish
  refine leaves_bind (leaves_modify fun s h_files => ?_)
  rw [h_files]
  refine leaves_bind (leaves_files (leaves_bind (leaves_attempt ?_ (h_staged.fill content))))
  intro done h_persist
  exact leaves_modify fun _ _ => h_staged.replaced wide h_mode h_builds h_persist

theorem leaves_discard (h_staged : IsStaged base files staged old) {before : FileTree}
    (wide : Widens base before) (failure : Failure) :
    Leaves (do discard staged; throw failure : Run β) files returned (Widens · before) := by
  refine leaves_bind (leaves_modify fun s h_files => leaves_throw ?_)
  rw [h_files]
  exact (Widens.of_kind? h_staged.remove).trans wide

/-- A run replaces a target if it returns, and changes no file if it fails. -/
abbrev Replaces (x : Run α) (files : FileTree) (target : NativeText)
    (Builds : FileTree → Image → Prop) : Prop :=
  Leaves x files (fun _ done => Replaced files done target Builds) (Widens · files)

theorem replaces_stage {build : Run (Image × α)} {Builds : FileTree → Image → Prop}
    (h_build : ∀ during,
      Leaves build during (fun b t => Builds during b.1 ∧ t = during) (· = during))
    (setup : Setup) (target : NativeText) :
    Replaces (stage setup target build) files target Builds := by
  unfold stage
  refine leaves_bind ((leaves_openStaged setup target).mono ?_ fun t wide => wide)
  rintro staged during ⟨base, wide, h_staged, h_mode⟩
  -- both the build and the move may fail, with an empty or a filled staged file
  refine leaves_tryCatch (leaves_bind ((h_build during).mono ?_ ?_))
  · rintro ⟨content, result⟩ t ⟨h_builds, rfl⟩
    refine leaves_bind ((leaves_publish h_staged h_builds wide h_mode).mono ?_ ?_)
    · exact fun _ done h_done => leaves_pure h_done
    · exact fun t h_filled => leaves_discard h_filled wide
  · rintro t rfl
    exact leaves_discard h_staged wide

theorem Replaces.report {x : Run α} {target : NativeText} {Builds : FileTree → Image → Prop}
    (h : Replaces x files target Builds) {setup : Setup} {tree : α → Except UnwritablePath Json}
    (told : ∀ a, setup.json = true → ∃ json, tree a = .ok json) (summary : α → String) :
    Replaces (x >>= fun a => report setup (tree a) (summary a)) files target Builds :=
  leaves_bind <| h.mono (fun a _ h_done => leaves_report (told a) (summary a) h_done)
    fun _ h_wide => h_wide

end FlashImage.CommandLine.Run
