import FlashImage.CommandLine.Narration
import FlashImage.CommandLine.Options
import FlashImage.CommandLine.Session
import FlashImage.Report.Forms

/-!
# Building camera configurations from the command line

The manifest and the options are joined into a plan first, without touching any
output.  Carrying out the plan then creates the directory of the target, packs
the commands and puts the file in the place of the target.

* `CameraOptions.plan` is the plan;
* `CameraPlan.run` carries it out.
-/

namespace FlashImage.CommandLine

/-- What is to be built. -/
structure CameraPlan where
  info : CameraInfo
  target : NativeText
  commands : List CommandEntry
  deriving DecidableEq, Repr

namespace CameraOptions

/-- The manifest named by the options, if there is one. -/
def readManifest (o : CameraOptions) (host : Host) (files : FileTree) :
    Except Failure CameraManifest :=
  match o.manifest with
  | none => .ok {}
  | some path =>
      (CameraManifest.load host.codec files host.environment path).mapError (.manifestFile path)

/-- The basic information record of a manifest, changed by the options. -/
def applyInfo (o : CameraOptions) (m : CameraManifest) : Except Failure CameraInfo := do
  let info ← m.basicInfo.mapError fun e => .manifest (.settings e)
  match o.basicconf with
  | none => .ok info
  | some input =>
      let (result, info) := Settings.applyCamera info input
      (result.mapError (.option "basicconf")).map fun () => info

def plan (o : CameraOptions) (host : Host) (files : FileTree) : Except Failure CameraPlan := do
  let m ← o.readManifest host files
  let info ← o.applyInfo m
  match o.outfile.or m.output with
  | none => .error (.manifest .missingOutput)
  | some target =>
      .ok { info, target
            commands := m.commands ++ o.commands.map fun (id, path) => { id, path } }

end CameraOptions

/-- Queues commands whose payloads are in files, up to the first that is refused. -/
def addCommands (files : FileTree) (b : CameraBuilder) :
    List CommandEntry → Except Failure Unit × CameraBuilder
  | [] => (.ok (), b)
  | c :: cs =>
      match b.addSource files c.id (.ofPath c.path) with
      | .error e => (.error (.command c.id c.path e), b)
      | .ok (_, b) => addCommands files b cs

namespace CameraPlan

/-- Builds the container of a plan from the files as they are while it is built. -/
def build (host : Host) (p : CameraPlan) : Run (Image × CameraReport) := do
  let files ← Run.files
  let (added, b) := addCommands files { medium := host.medium, info := p.info } p.commands
  Run.note (Narration.queued p.commands b.commands)
  Run.attempt id added
  let packed := b.pack files
  Run.note (Narration.payloads files b.payloads packed.2.table.entries)
  let (result, medium) := b.writeDirectory packed
  Run.note (Narration.cameraFinished result)
  let report ← Run.attempt .camera result
  return (medium.image, report)

def run (setup : Setup) (p : CameraPlan) : Run Unit := do
  let report ← Run.stage setup p.target (p.build setup.toHost)
  Run.report setup (.ok report.toJson)
    ("Wrote " ++ p.target.display ++ " (" ++ toString report.entries.length ++ " entries, " ++
      toString report.totalSize.toNat ++ " bytes)")

end CameraPlan

def CameraOptions.run (setup : Setup) (o : CameraOptions) : Run Unit := do
  let plan ← Run.attempt id (o.plan setup.toHost (← Run.files))
  plan.run setup

end FlashImage.CommandLine
