import FlashImage.Camera.Error

/-!
# Command payloads from files

A payload comes from a file.  A file whose name ends in `.txt` is a register
script and is turned into its blob; any other file is taken as it is.
-/

namespace FlashImage

/-- The file that a command payload comes from. -/
inductive CommandSource where
  | binary (path : NativeText)
  | script (path : NativeText)
  deriving DecidableEq, Repr

namespace CommandSource

def ofPath (path : NativeText) : CommandSource :=
  if FilePath.hasExtension path "txt" then script path else binary path

def path : CommandSource → NativeText
  | binary path => path
  | script path => path

def load (files : FileTree) (s : CommandSource) : Except CameraError Bytes :=
  if files.isFile s.path then
    match s with
    | binary path =>
        match files.read path with
        | .ok bytes => .ok bytes
        | .error e => .error (.unreadable path e)
    | script path =>
        match Script.transcodeFile files path with
        | .ok bytes => .ok bytes
        | .error e => .error (.script e)
  else .error (.missingInput s.path)

end CommandSource

end FlashImage
