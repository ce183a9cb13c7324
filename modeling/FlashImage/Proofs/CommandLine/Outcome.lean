import FlashImage.CommandLine.Run
import FlashImage.Proofs.CommandLine.Builds
import FlashImage.Proofs.CommandLine.Session
import FlashImage.Proofs.Image
import FlashImage.Proofs.Utf8.Native

/-!
# What commands do to files

A command puts one finished file in the place of its target, or it changes no file at all.
It then reports what it has done.  If this fails, the file stays in its place.

* `outcome_files`: the files that a command leaves, when it ends in an error and when not.
-/

namespace FlashImage.CommandLine

open FileTree Run

/-! ## Plans -/

theorem RootPlan.leaves_build (host : Host) (p : RootPlan) (files : FileTree) :
    Leaves (p.build host) files
      (fun b t => RootBuilder.imageOf host.medium files p.layout p.modules = .ok b.1 ∧ t = files)
      (· = files) := by
  unfold build
  refine leaves_bind (leaves_attempt (fun start h_start => ?_) rfl)
  refine leaves_bind (leaves_note _ (leaves_bind (leaves_files ?_)))
  cases h_add : addModules files start p.modules with
  | mk added b =>
  refine leaves_bind (leaves_note _ (leaves_bind (leaves_attempt (fun _ h_added => ?_) rfl)))
  cases h_finish : b.finish with
  | mk result medium =>
  refine leaves_bind (leaves_note _ (leaves_bind (leaves_attempt (fun report h_report => ?_) rfl)))
  subst h_added h_report
  refine leaves_pure ⟨bind_eq_ok.mpr ⟨start, h_start, ?_⟩, rfl⟩
  exact bind_eq_ok.mpr ⟨b, foldlM_withModule h_add, by rw [h_finish]; rfl⟩

theorem RootPlan.replaces_run (p : RootPlan) (setup : Setup) (files : FileTree) :
    Replaces (p.run setup) files p.target fun during content =>
      RootBuilder.imageOf setup.medium during p.layout p.modules = .ok content := by
  have h_stage : Replaces (stage setup p.target (p.build setup.toHost)) files p.target
      fun during content =>
        RootBuilder.imageOf setup.medium during p.layout p.modules = .ok content :=
    replaces_stage (p.leaves_build setup.toHost) setup p.target
  have h_tree : ∀ r : RootReport, setup.json = true →
      ∃ json, (.ok r.toJson : Except UnwritablePath Json) = .ok json := fun r _ => ⟨r.toJson, rfl⟩
  unfold run
  dsimp only
  split
  · exact leaves_bind (leaves_warn _ _ (leaves_bind (leaves_note _ (h_stage.report h_tree _))))
  · exact leaves_bind (leaves_note _ (h_stage.report h_tree _))

theorem CameraPlan.leaves_build (host : Host) (p : CameraPlan) (files : FileTree) :
    Leaves (p.build host) files
      (fun b t => CameraBuilder.imageOf host.medium files p.info p.commands = .ok b.1 ∧ t = files)
      (· = files) := by
  unfold build
  refine leaves_bind (leaves_files ?_)
  cases h_add : addCommands files { medium := host.medium, info := p.info } p.commands with
  | mk added b =>
  refine leaves_bind (leaves_note _ (leaves_bind (leaves_attempt (fun _ h_added => ?_) rfl)))
  refine leaves_bind (leaves_note _ ?_)
  cases h_finish : b.writeDirectory (b.pack files) with
  | mk result medium =>
  refine leaves_bind (leaves_note _ (leaves_bind (leaves_attempt (fun report h_report => ?_) rfl)))
  subst h_added h_report
  refine leaves_pure ⟨bind_eq_ok.mpr ⟨b, foldlM_withCommand h_add, ?_⟩, rfl⟩
  rw [CameraBuilder.finish, h_finish]
  rfl

theorem CameraPlan.replaces_run (p : CameraPlan) (setup : Setup) (files : FileTree) :
    Replaces (p.run setup) files p.target fun during content =>
      CameraBuilder.imageOf setup.medium during p.info p.commands = .ok content := by
  have h_stage : Replaces (stage setup p.target (p.build setup.toHost)) files p.target
      fun during content =>
        CameraBuilder.imageOf setup.medium during p.info p.commands = .ok content :=
    replaces_stage (p.leaves_build setup.toHost) setup p.target
  exact h_stage.report (fun r _ => ⟨r.toJson, rfl⟩) _

/-! ## Root images and camera configurations -/

theorem RootOptions.leaves_run (setup : Setup) (o : RootOptions) (files : FileTree) :
    Leaves (o.run setup) files
      (fun _ done => ∃ target,
        Replaced files done target ((Action.root o).Builds setup.toHost files · target))
      (Widens · files) := by
  unfold run
  refine leaves_bind (leaves_files (leaves_bind ?_))
  refine leaves_attempt (fun p h_plan => ?_) (.refl files)
  obtain ⟨m, h_manifest, h_plan⟩ := bind_eq_ok.mp h_plan
  obtain ⟨layout, h_layout, h_plan⟩ := bind_eq_ok.mp h_plan
  split at h_plan
  next => cases h_plan
  next target h_target =>
    cases h_plan
    refine (RootPlan.replaces_run _ setup files).mono (fun _ done h => ⟨target, ?_⟩) fun _ h => h
    refine h.mono fun during content h_content => .root h_manifest h_layout h_target ?_
    rw [← h_content, entries_eq]
    simp only [List.append_assoc]

theorem CameraOptions.leaves_run (setup : Setup) (o : CameraOptions) (files : FileTree) :
    Leaves (o.run setup) files
      (fun _ done => ∃ target,
        Replaced files done target ((Action.camera o).Builds setup.toHost files · target))
      (Widens · files) := by
  unfold run
  refine leaves_bind (leaves_files (leaves_bind ?_))
  refine leaves_attempt (fun p h_plan => ?_) (.refl files)
  obtain ⟨m, h_manifest, h_plan⟩ := bind_eq_ok.mp h_plan
  obtain ⟨info, h_info, h_plan⟩ := bind_eq_ok.mp h_plan
  split at h_plan
  next => cases h_plan
  next target h_target =>
    cases h_plan
    refine (CameraPlan.replaces_run _ setup files).mono (fun _ done h => ⟨target, ?_⟩) fun _ h => h
    exact h.mono fun during content h_content => .camera h_manifest h_info h_target h_content

/-! ## Scripts -/

namespace ScriptOptions

theorem leaves_build (host : Host) (o : ScriptOptions) (blob : Bytes) (files : FileTree) :
    Leaves (o.build host blob) files (fun b t => Image.ofBytes blob = b.1 ∧ t = files)
      (· = files) := by
  unfold build
  refine leaves_bind (leaves_attempt (fun medium h_medium => leaves_pure ⟨?_, rfl⟩) rfl)
  obtain ⟨written, h_write, h_flush⟩ := bind_eq_ok.mp h_medium
  rw [Medium.flush_eq_ok h_flush, Medium.write_eq_ok h_write]
  rfl

theorem replaces_write (setup : Setup) (o : ScriptOptions) (files : FileTree) :
    Replaces (o.write setup) files o.outfile
      ((Action.script o).Builds setup.toHost files · o.outfile) := by
  unfold write
  refine leaves_bind (leaves_files (leaves_bind ?_))
  refine leaves_attempt (fun lines h_lines => ?_) (.refl files)
  refine leaves_bind (leaves_note _ (leaves_bind ?_))
  refine leaves_attempt (fun blob h_blob => leaves_bind ?_) (.refl files)
  refine (replaces_stage (o.leaves_build setup.toHost blob) setup o.outfile).mono ?_ fun _ h => h
  refine fun _ done h => leaves_pure (h.mono fun during content h_content => ?_)
  subst h_content
  exact .script (bind_eq_ok.mpr ⟨lines, h_lines, h_blob⟩)

/-- The report holds both paths as texts. -/
theorem exists_toJson_iff {o : ScriptOptions} {lines : List Script.Line} {blob : Bytes} :
    (∃ json, o.toJson lines blob = .ok json) ↔ o.input.IsText ∧ o.outfile.IsText := by
  simp only [toJson, bind_eq_ok, NativeText.written_eq_ok_iff, NativeText.isText_iff,
    NativeText.toString?_eq_some_iff]
  constructor
  · rintro ⟨_, input, h_input, output, h_output, -⟩
    exact ⟨⟨input, h_input⟩, output, h_output⟩
  · rintro ⟨⟨input, h_input⟩, output, h_output⟩
    exact ⟨_, input, h_input, output, h_output, rfl⟩

end ScriptOptions

/-! ## Actions -/

/-- A report for other programs can be written unless it is on a script and one of the paths
in it is no text. -/
def Action.Reportable (flags : Flags) (a : Action) : Prop :=
  flags.json = true → ∀ o, a = .script o → o.input.IsText ∧ o.outfile.IsText

theorem ScriptOptions.leaves_run (setup : Setup) (o : ScriptOptions)
    (told : setup.json = true → o.input.IsText ∧ o.outfile.IsText) (files : FileTree) :
    Replaces (o.run setup) files o.outfile
      ((Action.script o).Builds setup.toHost files · o.outfile) :=
  (o.replaces_write setup files).report (fun _ h_json => exists_toJson_iff.mpr (told h_json)) _

theorem leaves_inspectFile (setup : Setup) (path : NativeText) (files : FileTree) :
    Leaves (inspectFile setup path) files (fun _ done => done = files) (· = files) := by
  unfold inspectFile
  refine leaves_bind (leaves_files (leaves_bind (leaves_attempt (fun image _ => ?_) rfl)))
  refine leaves_bind (leaves_attempt (fun inspection _ => ?_) rfl)
  split
  · exact leaves_print _ rfl
  · exact leaves_print _ rfl

section Outcome

variable {host : Host} {flags : Flags} {files : FileTree}

theorem Action.leaves_run {a : Action} (told : a.Reportable flags) :
    Leaves (a.run (.ofFlags host flags)) files
      (fun _ done => ((∃ path, a = .inspect path) ∧ done = files) ∨
        ∃ target, Replaced files done target (a.Builds host files · target))
      (Widens · files) := by
  cases a with
  | root o => exact (o.leaves_run _ files).mono (fun _ _ h => .inr h) fun _ h => h
  | camera o => exact (o.leaves_run _ files).mono (fun _ _ h => .inr h) fun _ h => h
  | script o =>
    exact (o.leaves_run _ (fun h_json => told h_json o rfl) files).mono
      (fun _ _ h => .inr ⟨o.outfile, h⟩) fun _ h => h
  | inspect path =>
    refine (leaves_inspectFile _ path files).mono (fun _ _ h => .inl ⟨⟨path, rfl⟩, h⟩) ?_
    rintro done rfl
    exact .refl done

theorem Action.outcome_of_ok {a : Action} {s : Session}
    (h_run : (a.run (.ofFlags host flags)).run { files } = (.ok (), s)) :
    (a.outcome host flags files).exitCode = 0 ∧ (a.outcome host flags files).files = s.files := by
  unfold outcome
  rw [h_run]
  exact ⟨rfl, rfl⟩

theorem Action.outcome_of_error {a : Action} {failure : Failure} {s : Session}
    (h_run : (a.run (.ofFlags host flags)).run { files } = (.error failure, s)) :
    (a.outcome host flags files).exitCode = 1 ∧ (a.outcome host flags files).files = s.files := by
  unfold outcome
  rw [h_run]
  exact ⟨rfl, rfl⟩

theorem Action.files_outcome (a : Action) :
    (a.outcome host flags files).files = ((a.run (.ofFlags host flags)).run { files }).2.files := by
  cases h_run : (a.run (.ofFlags host flags)).run { files } with
  | mk result s =>
    cases result with
    | ok => exact (outcome_of_ok h_run).2
    | error failure => exact (outcome_of_error h_run).2

theorem Action.outcome_of_reportable {a : Action} (told : a.Reportable flags) :
    let outcome := a.outcome host flags files
    (outcome.exitCode ≠ 0 → outcome.files.Widens files) ∧
    (outcome.exitCode = 0 →
      ((∃ path, a = .inspect path) ∧ outcome.files = files) ∨
      ∃ target, Replaced files outcome.files target (a.Builds host files · target)) := by
  have h_leaves : Leaves (a.run (.ofFlags host flags)) files _ _ := leaves_run told
  have h_ended := h_leaves.ended { files } rfl
  dsimp only
  cases h_run : (a.run (.ofFlags host flags)).run { files } with
  | mk result s =>
    rw [h_run] at h_ended
    cases result with
    | ok =>
      obtain ⟨h_code, h_files⟩ := outcome_of_ok h_run
      rw [h_code, h_files]
      exact ⟨fun h => absurd rfl h, fun _ => h_ended⟩
    | error failure =>
      obtain ⟨h_code, h_files⟩ := outcome_of_error h_run
      rw [h_code, h_files]
      exact ⟨fun _ => h_ended, nofun⟩

theorem ScriptOptions.files_run (setup : Setup) (o : ScriptOptions) (s : Session) :
    ((o.run setup).run s).2.files = ((o.write setup).run s).2.files := by
  unfold run
  rw [run_bind]
  cases h : (o.write setup).run s with
  | mk result s' =>
    cases result with
    | error e => rfl
    | ok written => exact files_report _ _ _ s'

theorem ScriptOptions.run_of_not_text {setup : Setup} {o : ScriptOptions}
    (h_json : setup.json = true) (untold : ¬ (o.input.IsText ∧ o.outfile.IsText)) (s : Session) :
    ∃ failure s', (o.run setup).run s = (.error failure, s') := by
  unfold run
  rw [run_bind]
  cases (o.write setup).run s with
  | mk result s' =>
    cases result with
    | error e => exact ⟨e, s', rfl⟩
    | ok written =>
      obtain ⟨lines, blob⟩ := written
      have h_tree : ∀ json, o.toJson lines blob ≠ .ok json := fun json h_ok =>
        untold (exists_toJson_iff.mp ⟨json, h_ok⟩)
      obtain ⟨e, h_error⟩ := exists_eq_error h_tree
      dsimp only
      rw [h_error, report_of_error h_json]
      exact ⟨.report e, s', rfl⟩

theorem Action.outcome_of_not_reportable {a : Action} (untold : ¬ a.Reportable flags) :
    let outcome := a.outcome host flags files
    outcome.exitCode = 1 ∧
      outcome.files = (a.outcome host { flags with json := false } files).files := by
  simp only [Reportable, not_forall] at untold
  obtain ⟨h_json, o, rfl, untold⟩ := untold
  have h_setup : (Setup.ofFlags host flags).json = true := h_json
  obtain ⟨failure, s, h_run⟩ := ScriptOptions.run_of_not_text h_setup untold { files }
  have h_outcome := outcome_of_error (a := .script o) h_run
  refine ⟨h_outcome.1, ?_⟩
  rw [files_outcome, files_outcome]
  -- the blob is written in the same way, whoever the report is for
  have h_plain := o.files_run (.ofFlags host { flags with json := false }) { files }
  exact (o.files_run (.ofFlags host flags) { files }).trans h_plain.symm

end Outcome

end FlashImage.CommandLine
