import FlashImage.Camera.Builder
import FlashImage.CommandLine.Log
import FlashImage.Layout.Builder
import FlashImage.Manifest.Camera
import FlashImage.Manifest.Root

/-!
# Narration

The notes that tell how a build went, taken from what the build left behind.
-/

namespace FlashImage.CommandLine.Narration

open Text (hex)

def layout (c : Cursor) : Note :=
  ⟨.debug, "Layout: alignment " ++ hex 0 c.alignment.toNat ++ ", " ++
    toString c.directoryCopies.toNat ++ " directory copies at " ++ hex 0 c.directoryBase.toNat ++
    ", modules from " ++ hex 0 c.nextOffset.toNat⟩

/-- The reading of the file of a module, if it came to that. -/
def moduleRead (files : FileTree) (m : ModuleEntry) : List Note :=
  if m.category.contains m.id && files.isFile m.path then
    match files.readImage m.path with
    | .ok content =>
        [⟨.debug, "Read " ++ toString content.size ++ " bytes from " ++ m.path.display⟩]
    | .error _ => []
  else []

def modulePlaced (p : ModulePlacement) : Note :=
  ⟨.info, "Placed " ++ p.category.label ++ " " ++ hex 4 p.identifier.toNat ++ " at " ++
    hex 0 p.offset.toNat ++ " (" ++ toString p.size.toNat ++ " bytes)"⟩

/-- The adding of modules up to the first that could not be placed. -/
def modules (files : FileTree) : List ModuleEntry → List ModulePlacement → List Note
  | [], _ => []
  | m :: _, [] => moduleRead files m
  | m :: ms, p :: ps => moduleRead files m ++ modulePlaced p :: modules files ms ps

/-- The warning that no module has the boot identifier. -/
def strayBoot (id : UInt32) : Note :=
  ⟨.warn, "Boot identifier " ++ hex 4 id.toNat ++ " is not in the directory; order unchanged"⟩

def copyWritten (c : Cursor) (index : Nat) : Note :=
  ⟨.debug, "Wrote directory copy " ++ toString index ++ " at " ++
    hex 0 (c.copyOffset (UInt32.ofNat index)).toNat⟩

def rootFinished (b : RootBuilder) (result : Except LayoutError RootReport) : List Note :=
  b.strayBootIdentifier?.toList.map strayBoot ++
    match result with
    | .error _ => []
    | .ok r =>
        (List.range b.cursor.directoryCopies.toNat).map (copyWritten b.cursor) ++
          [⟨.info, "Root image complete: " ++ toString r.modules.length ++ " modules, " ++
            toString r.header.sizeOfDirectory.toNat ++ " byte directory"⟩]

def group : List Script.Line → List Note
  | [] => []
  | l :: ls =>
      let what :=
        match l.record with
        | .row bytes =>
            "group of " ++ toString (l :: ls).length ++ " rows x " ++ toString bytes.length ++
              " bytes"
        | .special selector payload =>
            "special record selector " ++ hex 0 selector.toNat ++ ", " ++
              toString payload.length ++ " bytes"
      [⟨.debug, "line " ++ toString l.number ++ ": " ++ what⟩]

/-- The writing of a script up to the first group that does not fit. -/
def script (lines : List Script.Line) : List Note :=
  ((Script.groups lines).takeWhile fun g => (Script.tooLong? g).isNone).flatMap group

/-- The reading of a payload, of which only scripts are noted. -/
def payloadRead (files : FileTree) : Payload → List Note
  | .source (.script path) =>
      if files.isFile path then
        ⟨.debug, "Transcoding register script " ++ path.display⟩ ::
          match Script.ofFile files path with
          | .ok lines => script lines
          | .error _ => []
      else []
  | _ => []

/-- The queueing of commands up to the first that was refused. -/
def queued (commands : List CommandEntry) (queue : List (UInt32 × Payload)) : List Note :=
  (commands.zip queue).map fun (c, (identifier, _)) =>
    ⟨.debug, "Queued command " ++ hex 4 identifier.toNat ++ " from " ++ c.path.display⟩

def payloadPlaced (e : DirectoryEntry) : Note :=
  ⟨.debug, "Command " ++ hex 4 e.identifier.toNat ++ " at " ++ hex 0 e.offset.toNat ++ " (" ++
    toString e.size.toNat ++ " bytes)"⟩

/-- The placing of payloads up to the first that could not be placed. -/
def payloads (files : FileTree) : List (UInt32 × Payload) → List DirectoryEntry → List Note
  | [], _ => []
  | (_, p) :: _, [] => payloadRead files p
  | (_, p) :: ps, e :: es => payloadRead files p ++ payloadPlaced e :: payloads files ps es

def cameraFinished : Except CameraError CameraReport → List Note
  | .error _ => []
  | .ok r =>
      [⟨.info, "Camera configuration complete: " ++ toString r.entries.length ++ " entries, " ++
        toString r.totalSize.toNat ++ " bytes"⟩]

end FlashImage.CommandLine.Narration
