import FlashImage.Layout.DirectoryTable
import FlashImage.Medium
import FlashImage.Script.File

/-!
# Camera configuration errors

Why a camera configuration cannot be built, and how that is told.
-/

namespace FlashImage

/-- Why a camera configuration cannot be built. -/
inductive CameraError where
  /-- The file of a command is not there. -/
  | missingInput (path : NativeText)
  | unknownCommand (name : String)
  /-- A payload would reach past 32-bit offsets. -/
  | beyondAddressSpace (offset : Nat)
  | duplicate (error : DuplicateIdentifier)
  | script (error : Script.ScriptError)
  | unreadable (path : NativeText) (error : FileError)
  | unwritable (fault : WriteFault)
  deriving DecidableEq, Repr

namespace CameraError

def message : CameraError → String
  | missingInput path => "Camera configuration command file '" ++ path.display ++ "' does not exist"
  | unknownCommand name => "Unknown camera configuration command '" ++ name ++ "'"
  | beyondAddressSpace offset =>
      "Camera configuration grew past 4 GiB at offset " ++ Text.hex 0 offset
  | duplicate error => error.message
  | script error => error.message
  | unreadable path error => "Failed to read command payload '" ++ path.display ++ "': " ++
    error.message
  | unwritable fault => "Failed to write camera configuration: " ++ fault.message

/-- The texts of what lies behind the error, nearest first. -/
def causes : CameraError → List String
  | script error => error.causes
  | unreadable _ error => [error.message]
  | unwritable fault => [fault.message]
  | _ => []

end CameraError

end FlashImage
