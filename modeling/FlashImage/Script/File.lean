import FlashImage.Files.Access
import FlashImage.Script.Blob

/-!
# Script files

Reading a register script from a file and turning it into its blob.
-/

namespace FlashImage.Script

/-- Why a script makes no blob. -/
inductive ScriptError where
  | rowTooLong (error : RowTooLong)
  | unreadable (path : NativeText) (error : FileError)
  deriving DecidableEq, Repr

namespace ScriptError

def message : ScriptError → String
  | rowTooLong error =>
      "Register row on line " ++ toString error.line ++ " has " ++ toString error.length ++
        " bytes (max 255)"
  | unreadable path error =>
      "Failed to read register script '" ++ path.display ++ "': " ++ error.message

def causes : ScriptError → List String
  | unreadable _ error => [error.message]
  | rowTooLong _ => []

end ScriptError

def ofFile (files : FileTree) (path : NativeText) : Except ScriptError (List Line) :=
  match files.read path with
  | .ok content => .ok (ofBytes content)
  | .error e => .error (.unreadable path e)

def blob (lines : List Line) : Except ScriptError Bytes :=
  match encode lines with
  | .ok bytes => .ok bytes
  | .error e => .error (.rowTooLong e)

def transcode (text : String) : Except ScriptError Bytes :=
  blob (parse text)

def transcodeFile (files : FileTree) (path : NativeText) : Except ScriptError Bytes := do
  blob (← ofFile files path)

end FlashImage.Script
