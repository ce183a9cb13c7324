import FlashImage.Camera.Error
import FlashImage.Camera.CommandId
import FlashImage.Inspect
import FlashImage.Layout.Error
import FlashImage.Manifest.Error

/-!
# Failures

Why a command ends early.  A failure says what the command was about, and its
causes say what went wrong there.
-/

namespace FlashImage.CommandLine

/-- Why a command ends early. -/
inductive Failure where
  | manifest (error : ManifestError)
  | manifestFile (path : NativeText) (error : ManifestError)
  /-- The settings string of an option cannot be applied. -/
  | option (name : String) (error : Settings.SettingsError)
  | layout (error : LayoutError)
  | module (category : ModuleCategory) (id : UInt32) (error : LayoutError)
  | camera (error : CameraError)
  | command (id : CommandId) (path : NativeText) (error : CameraError)
  | script (error : Script.ScriptError)
  | transcoding (path : NativeText) (error : Script.ScriptError)
  | decoding (path : NativeText) (error : InspectError)
  | directory (path : NativeText) (error : FileError)
  /-- No temporary file can be created in a directory. -/
  | staging (path : NativeText) (error : FileError)
  | writing (path : NativeText) (error : FileError)
  | reading (path : NativeText) (error : FileError)
  /-- The blob of a script cannot be written to its staged file. -/
  | blob (path : NativeText) (fault : WriteFault)
  /-- What has been done cannot be reported, because a path is no UTF-8. -/
  | report (error : UnwritablePath)
  deriving DecidableEq, Repr

namespace Failure

def message : Failure → String
  | manifest error => error.message
  | manifestFile path _ => "Failed to load manifest " ++ path.display
  | option name _ => "Invalid --" ++ name ++ " settings"
  | layout error => error.message
  | module category id _ =>
      "Failed to add " ++ category.label ++ " module " ++ Text.hex 4 id.toNat
  | camera error => error.message
  | command id path _ => "Failed to add command " ++ id.display ++ " from " ++
      path.display
  | script error => error.message
  | transcoding path _ => "Failed to transcode " ++ path.display
  | decoding path _ => "Failed to decode " ++ path.display
  | directory path error => "Failed to create directory '" ++ path.display ++ "': " ++ error.message
  | staging path error =>
      "Failed to create temporary file in '" ++ path.display ++ "': " ++ error.message
  | writing path error => "Failed to write file '" ++ path.display ++ "': " ++ error.message
  | reading path error => "Failed to read file '" ++ path.display ++ "': " ++ error.message
  | blob path _ => "Failed to write " ++ path.display
  | report error => error.message

/-- The texts of what lies behind a failure, nearest first. -/
def causes : Failure → List String
  | manifest error => error.causes
  | manifestFile _ error => error.message :: error.causes
  | option _ error => [error.message]
  | layout error => error.causes
  | module _ _ error => error.message :: error.causes
  | camera error => error.causes
  | command _ _ error => error.message :: error.causes
  | script error => error.causes
  | transcoding _ error => error.message :: error.causes
  | decoding _ error => [error.message]
  | directory .. => []
  | staging .. => []
  | writing .. => []
  | reading .. => []
  | blob _ fault => [fault.message]
  | report _ => []

def lines (f : Failure) : List String :=
  ("✗ " ++ f.message) :: f.causes.map ("  caused by: " ++ ·)

end Failure

end FlashImage.CommandLine
