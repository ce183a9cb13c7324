import FlashImage.CommandLine.Run
import FlashImage.Proofs.Files.Staging

/-!
# What commands build

The builds behind the commands, over files and without a session.

* `Action.Builds.unique`: an action builds one content for one target.
-/

namespace FlashImage

open FileTree (Building)

/-! ## Builds over files -/

def RootBuilder.withModule (files : FileTree) (b : RootBuilder) (m : ModuleEntry) :
    Except LayoutError RootBuilder :=
  match b.addFile files m.category m.id m.path with
  | (.ok _, b) => .ok b
  | (.error e, _) => .error e

/-- The root image of the modules in files, added in the given order to what a medium holds. -/
def RootBuilder.imageOf (medium : Medium) (files : FileTree) (layout : LayoutSettings)
    (modules : List ModuleEntry) : Except LayoutError Image := do
  let b ← modules.foldlM (withModule files) (← start medium layout)
  let (result, medium) := b.finish
  result.map fun _ => medium.image

def CameraBuilder.withCommand (files : FileTree) (b : CameraBuilder) (c : CommandEntry) :
    Except CameraError CameraBuilder :=
  (b.addSource files c.id (.ofPath c.path)).map (·.2)

/-- The camera container of the commands in files, added in the given order. -/
def CameraBuilder.imageOf (medium : Medium) (files : FileTree) (info : CameraInfo)
    (commands : List CommandEntry) : Except CameraError Image := do
  let b ← commands.foldlM (withCommand files) { medium, info }
  let (result, medium) := b.finish files
  result.map fun _ => medium.image

/-! ## While a target is staged -/

theorem FileTree.isFile_iff {t : FileTree} {path : NativeText} :
    t.isFile path = true ↔ ∃ content, t.readImage path = .ok content := by
  unfold FileTree.isFile FileTree.readImage
  cases t.stat path with
  | error e => simp [bind, Except.bind]
  | ok node => cases node <;> simp [bind, Except.bind]

theorem foldlM_of_step {α β ε : Type} {f g : β → α → Except ε β}
    (h_step : ∀ b a next, f b a = .ok next → g b a = .ok next) {as : List α} {b built : β}
    (h : as.foldlM f b = .ok built) : as.foldlM g b = .ok built := by
  induction as generalizing b with
  | nil => exact h
  | cons a as ih =>
    rw [List.foldlM_cons] at h ⊢
    obtain ⟨next, h_next, h_rest⟩ := bind_eq_ok.mp h
    exact bind_eq_ok.mpr ⟨next, h_step b a next h_next, ih h_rest⟩

section Building

variable {files during : FileTree} (staging : Building files during)

include staging

theorem FileTree.Building.isFile {path : NativeText} (h : files.isFile path = true) :
    during.isFile path = true := by
  obtain ⟨content, h_read⟩ := isFile_iff.mp h
  exact isFile_iff.mpr ⟨content, staging.readImage_eq path content h_read⟩

theorem FileTree.Building.read {path : NativeText} {bytes : Bytes}
    (h : files.read path = .ok bytes) :
    during.read path = .ok bytes := by
  obtain ⟨content, h_read, h_bytes⟩ := bind_eq_ok.mp h
  exact bind_eq_ok.mpr ⟨content, staging.readImage_eq path content h_read, h_bytes⟩

theorem Script.transcodeFile_during {path : NativeText} {blob : Bytes}
    (h : Script.transcodeFile files path = .ok blob) :
    Script.transcodeFile during path = .ok blob := by
  obtain ⟨lines, h_lines, h_blob⟩ := bind_eq_ok.mp h
  refine bind_eq_ok.mpr ⟨lines, ?_, h_blob⟩
  unfold Script.ofFile at h_lines ⊢
  cases h_read : files.read path with
  | error e => rw [h_read] at h_lines; cases h_lines
  | ok content => rwa [staging.read h_read, ← h_read]

theorem CommandSource.load_during {source : CommandSource} {bytes : Bytes}
    (h : source.load files = .ok bytes) : source.load during = .ok bytes := by
  unfold CommandSource.load at h ⊢
  split at h
  next h_file =>
    rw [if_pos (staging.isFile h_file)]
    cases source with
    | binary path =>
      dsimp only at h ⊢
      cases h_read : files.read path with
      | error e => rw [h_read] at h; cases h
      | ok content => rwa [staging.read h_read, ← h_read]
    | script path =>
      dsimp only at h ⊢
      cases h_blob : Script.transcodeFile files path with
      | error e => rw [h_blob] at h; cases h
      | ok blob => rwa [Script.transcodeFile_during staging h_blob, ← h_blob]
  next => cases h

theorem Payload.load_during {payload : Payload} {bytes : Bytes}
    (h : payload.load files = .ok bytes) : payload.load during = .ok bytes := by
  cases payload with
  | source source => exact CommandSource.load_during staging h
  | inline bytes => exact h

theorem RootBuilder.withModule_during {b next : RootBuilder} {m : ModuleEntry}
    (h : b.withModule files m = .ok next) : b.withModule during m = .ok next := by
  unfold RootBuilder.withModule RootBuilder.addFile at h ⊢
  cases h_id : m.category.validate m.id with
  | error e => rw [h_id] at h; cases h
  | ok =>
    rw [h_id] at h
    dsimp only at h ⊢
    by_cases h_file : files.isFile m.path = true
    · rw [if_pos h_file] at h
      rw [if_pos (staging.isFile h_file)]
      cases h_read : files.read m.path with
      | error e => rw [h_read] at h; cases h
      | ok content => rwa [staging.read h_read, ← h_read]
    · rw [if_neg h_file] at h
      cases h

theorem RootBuilder.imageOf_during {medium : Medium} {layout : LayoutSettings}
    {modules : List ModuleEntry} {content : Image}
    (h : imageOf medium files layout modules = .ok content) :
    imageOf medium during layout modules = .ok content := by
  obtain ⟨start, h_start, h⟩ := bind_eq_ok.mp h
  obtain ⟨b, h_added, h_finish⟩ := bind_eq_ok.mp h
  have h_added' := foldlM_of_step (fun _ _ _ => withModule_during staging) h_added
  exact bind_eq_ok.mpr ⟨start, h_start, bind_eq_ok.mpr ⟨b, h_added', h_finish⟩⟩

theorem CameraBuilder.withCommand_during {b next : CameraBuilder} {c : CommandEntry}
    (h : b.withCommand files c = .ok next) : b.withCommand during c = .ok next := by
  unfold CameraBuilder.withCommand CameraBuilder.addSource at h ⊢
  cases h_id : b.reserve c.id with
  | error e => rw [h_id] at h; cases h
  | ok identifier =>
    rw [h_id] at h
    by_cases h_file : files.isFile (CommandSource.ofPath c.path).path = true
    · simp only [bind, Except.bind, h_file, if_true] at h
      simp only [bind, Except.bind, staging.isFile h_file, if_true]
      exact h
    · simp only [bind, Except.bind, h_file] at h
      cases h

theorem CameraBuilder.placeAll_during {payloads : List (UInt32 × Payload)} {p packed : Packing}
    (h : p.placeAll files payloads = (.ok (), packed)) :
    p.placeAll during payloads = (.ok (), packed) := by
  induction payloads generalizing p with
  | nil => exact h
  | cons entry payloads ih =>
    obtain ⟨identifier, payload⟩ := entry
    unfold Packing.placeAll at h ⊢
    cases h_load : payload.load files with
    | error e => rw [h_load] at h; cases h
    | ok bytes =>
      rw [h_load] at h
      rw [Payload.load_during staging h_load]
      dsimp only at h ⊢
      cases h_place : p.place identifier bytes with
      | error e => rw [h_place] at h; cases h
      | ok next =>
        rw [h_place] at h
        exact ih h

theorem CameraBuilder.imageOf_during {medium : Medium} {info : CameraInfo}
    {commands : List CommandEntry} {content : Image}
    (h : imageOf medium files info commands = .ok content) :
    imageOf medium during info commands = .ok content := by
  obtain ⟨b, h_added, h⟩ := bind_eq_ok.mp h
  have h_added' := foldlM_of_step (fun _ _ _ => withCommand_during staging) h_added
  refine bind_eq_ok.mpr ⟨b, h_added', ?_⟩
  cases h_pack : b.pack files with
  | mk result packed =>
    unfold finish at h ⊢
    cases result with
    | error e => rw [h_pack] at h; cases h
    | ok =>
      have h_pack' : b.pack during = (.ok (), packed) := by
        unfold pack at h_pack ⊢
        split at h_pack
        next h_fits => exact (if_pos h_fits).trans (placeAll_during staging h_pack)
        next => cases h_pack
      rwa [h_pack', ← h_pack]

end Building

namespace CommandLine

theorem foldlM_withModule {files : FileTree} {b built : RootBuilder} {ms : List ModuleEntry}
    (h : addModules files b ms = (.ok (), built)) :
    ms.foldlM (RootBuilder.withModule files) b = .ok built := by
  induction ms generalizing b with
  | nil => cases h; rfl
  | cons m ms ih =>
    rw [addModules] at h
    split at h
    next => cases h
    next p next h_add =>
      rw [List.foldlM_cons, RootBuilder.withModule, h_add]
      exact ih h

theorem foldlM_withCommand {files : FileTree} {b built : CameraBuilder} {cs : List CommandEntry}
    (h : addCommands files b cs = (.ok (), built)) :
    cs.foldlM (CameraBuilder.withCommand files) b = .ok built := by
  induction cs generalizing b with
  | nil => cases h; rfl
  | cons c cs ih =>
    rw [addCommands] at h
    split at h
    next => cases h
    next p next h_add =>
      rw [List.foldlM_cons, CameraBuilder.withCommand, h_add]
      exact ih h

/-! ## Actions -/

/-- The modules of a category that are given as options, in the order in which they are given. -/
def RootOptions.given (o : RootOptions) (category : ModuleCategory) : List ModuleEntry :=
  (o.modules.filter fun m => m.1 = category).map fun (_, id, path) => { category, id, path }

theorem RootOptions.entries_eq (o : RootOptions) :
    o.entries = o.given .ml ++ o.given .appProfile ++ o.given .appData ++ o.given .firmware ++
      o.given .cameraConfig := by
  rw [entries, ModuleCategory.layoutOrder]
  simp only [List.flatMap_cons, List.flatMap_nil, List.append_nil, List.append_assoc]
  rfl

/-- What an action builds, and for which target.  Manifests and scripts are read before
the build begins, modules and payloads while it goes on. -/
inductive Action.Builds (host : Host) (files during : FileTree) :
    Action → NativeText → Image → Prop where
  | root {o : RootOptions} {m : RootManifest} {layout : LayoutSettings} {target : NativeText}
      {content : Image} :
      o.readManifest host files = .ok m →
      o.applyLayout m = .ok layout →
      o.outfile.or m.output = some target →
      RootBuilder.imageOf host.medium during layout
        (m.modules ++ o.given .ml ++ o.given .appProfile ++ o.given .appData ++
          o.given .firmware ++ o.given .cameraConfig) = .ok content →
      Builds host files during (.root o) target content
  | camera {o : CameraOptions} {m : CameraManifest} {info : CameraInfo} {target : NativeText}
      {content : Image} :
      o.readManifest host files = .ok m →
      o.applyInfo m = .ok info →
      o.outfile.or m.output = some target →
      CameraBuilder.imageOf host.medium during info
        (m.commands ++ o.commands.map fun (id, path) => ⟨id, path⟩) = .ok content →
      Builds host files during (.camera o) target content
  | script {o : ScriptOptions} {blob : Bytes} :
      Script.transcodeFile files o.input = .ok blob →
      Builds host files during (.script o) o.outfile (Image.ofBytes blob)

namespace Action.Builds

variable {host : Host} {files during : FileTree} {a : Action} {target : NativeText}
  {content : Image}

theorem staged (h : a.Builds host files files target content)
    (staging : Building files during) : a.Builds host files during target content := by
  cases h with
  | root h_manifest h_layout h_target h_image =>
    exact .root h_manifest h_layout h_target (RootBuilder.imageOf_during staging h_image)
  | camera h_manifest h_info h_target h_image =>
    exact .camera h_manifest h_info h_target (CameraBuilder.imageOf_during staging h_image)
  | script h_blob => exact .script h_blob

theorem unique {target' : NativeText} {content' : Image}
    (h : a.Builds host files during target content)
    (h' : a.Builds host files during target' content') :
    target' = target ∧ content' = content := by
  cases h with
  | root h_manifest h_layout h_target h_image =>
    cases h' with
    | root h_manifest' h_layout' h_target' h_image' =>
      cases h_manifest.symm.trans h_manifest'
      cases h_layout.symm.trans h_layout'
      cases h_target.symm.trans h_target'
      cases h_image.symm.trans h_image'
      exact ⟨rfl, rfl⟩
  | camera h_manifest h_info h_target h_image =>
    cases h' with
    | camera h_manifest' h_info' h_target' h_image' =>
      cases h_manifest.symm.trans h_manifest'
      cases h_info.symm.trans h_info'
      cases h_target.symm.trans h_target'
      cases h_image.symm.trans h_image'
      exact ⟨rfl, rfl⟩
  | script h_blob =>
    cases h' with
    | script h_blob' =>
      cases h_blob.symm.trans h_blob'
      exact ⟨rfl, rfl⟩

end Action.Builds

end CommandLine

end FlashImage
