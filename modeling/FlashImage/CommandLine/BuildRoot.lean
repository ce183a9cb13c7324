import FlashImage.CommandLine.Narration
import FlashImage.CommandLine.Options
import FlashImage.CommandLine.Session
import FlashImage.Report.Forms

/-!
# Building root images from the command line

The manifest and the options are joined into a plan first, without touching any
output.  Carrying out the plan then creates the directory of the target, builds
the image and puts it in the place of the target.

* `RootOptions.plan` is the plan;
* `RootPlan.run` carries it out.
-/

namespace FlashImage.CommandLine

/-- What is to be built. -/
structure RootPlan where
  layout : LayoutSettings
  target : NativeText
  modules : List ModuleEntry
  deriving DecidableEq, Repr

namespace RootOptions

/-- The modules given as options, in the order in which they are laid out. -/
def entries (o : RootOptions) : List ModuleEntry :=
  ModuleCategory.layoutOrder.flatMap fun category =>
    (o.modules.filter fun m => m.1 = category).map fun (_, id, path) => { category, id, path }

/-- The manifest named by the options, if there is one. -/
def readManifest (o : RootOptions) (host : Host) (files : FileTree) :
    Except Failure RootManifest :=
  match o.manifest with
  | none => .ok {}
  | some path =>
      (RootManifest.load host.codec files host.environment path).mapError (.manifestFile path)

/-- The layout settings of a manifest, changed by the options. -/
def applyLayout (o : RootOptions) (m : RootManifest) : Except Failure LayoutSettings := do
  let layout ← m.effectiveLayout.mapError fun e => .manifest (.settings e)
  let layout :=
    { layout with
      eraseBlockAlignment := o.alignment.getD layout.eraseBlockAlignment
      directoryCopies := o.directoryCopies.getD layout.directoryCopies }
  match o.rfsconf with
  | none => .ok layout
  | some input =>
      let (result, layout) := Settings.applyRoot layout input
      (result.mapError (.option "rfsconf")).map fun () => layout

def plan (o : RootOptions) (host : Host) (files : FileTree) : Except Failure RootPlan := do
  let m ← o.readManifest host files
  let layout ← o.applyLayout m
  match o.outfile.or m.output with
  | none => .error (.manifest .missingOutput)
  | some target => .ok { layout, target, modules := m.modules ++ o.entries }

end RootOptions

/-- Adds the modules in files to a build, up to the first that cannot be added. -/
def addModules (files : FileTree) (b : RootBuilder) :
    List ModuleEntry → Except Failure Unit × RootBuilder
  | [] => (.ok (), b)
  | m :: ms =>
      match b.addFile files m.category m.id m.path with
      | (.error e, b) => (.error (.module m.category m.id e), b)
      | (.ok _, b) => addModules files b ms

namespace RootPlan

/-- Builds the image of a plan from the files as they are while it is built. -/
def build (host : Host) (p : RootPlan) : Run (Image × RootReport) := do
  let b ← Run.attempt .layout (RootBuilder.start host.medium p.layout)
  Run.note [Narration.layout b.cursor]
  let files ← Run.files
  let (added, b) := addModules files b p.modules
  Run.note (Narration.modules files p.modules b.placements)
  Run.attempt id added
  let (result, medium) := b.finish
  Run.note (Narration.rootFinished b result)
  let report ← Run.attempt .layout result
  return (medium.image, report)

def run (setup : Setup) (p : RootPlan) : Run Unit := do
  if p.modules.isEmpty then
    Run.warn setup "No modules given; the image holds only the header and directory"
  Run.note [⟨.info, "Building root image " ++ p.target.display⟩]
  let report ← Run.stage setup p.target (p.build setup.toHost)
  Run.report setup (.ok report.toJson)
    ("Wrote " ++ p.target.display ++ " (" ++ toString report.modules.length ++ " modules, " ++
      toString report.imageSize.toNat ++ " bytes)")

end RootPlan

def RootOptions.run (setup : Setup) (o : RootOptions) : Run Unit := do
  let plan ← Run.attempt id (o.plan setup.toHost (← Run.files))
  plan.run setup

end FlashImage.CommandLine
