import FlashImage.Camera.Error
import FlashImage.Inspect
import FlashImage.Layout.Error
import FlashImage.Manifest.Error

/-!
# Errors

Everything that can go wrong in the library, told with the part of the library
that it went wrong in.
-/

namespace FlashImage

/-- An error of any part of the library. -/
inductive Error where
  | layout (error : LayoutError)
  | camera (error : CameraError)
  | script (error : Script.ScriptError)
  | manifest (error : ManifestError)
  | inspect (error : InspectError)
  deriving DecidableEq, Repr

/-- The text of an error, behind the name of its part of the library. -/
def Error.message : Error → String
  | layout error => "Layout error: " ++ error.message
  | camera error => "Camera configuration error: " ++ error.message
  | script error => "Register script error: " ++ error.message
  | manifest error => "Manifest error: " ++ error.message
  | inspect error => "Inspect error: " ++ error.message

end FlashImage
