import FlashImage.Bytes.Native
import FlashImage.Files.Error
import FlashImage.Settings.Items

/-!
# Manifest errors

Why a manifest does not describe a build, and how that is told.
-/

namespace FlashImage

/-- Why a manifest does not describe a build. -/
inductive ManifestError where
  | settings (error : Settings.SettingsError)
  | unreadable (path : NativeText) (error : FileError)
  /-- The text is no manifest: it is not well-formed, or a field is unknown,
  missing or of the wrong kind. -/
  | unparsable
  /-- Neither the manifest nor the command line names the output. -/
  | missingOutput
  deriving DecidableEq, Repr

namespace ManifestError

def message : ManifestError → String
  | settings error => error.message
  | unreadable path error => "Failed to read manifest '" ++ path.display ++ "': " ++ error.message
  | unparsable => "Failed to parse manifest: not a manifest of the expected form"
  | missingOutput =>
      "No output file given (set `output` in the manifest or pass --outfile)"

def causes : ManifestError → List String
  | unreadable _ error => [error.message]
  | _ => []

end ManifestError

end FlashImage
