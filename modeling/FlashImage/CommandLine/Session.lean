import FlashImage.CommandLine.Failure
import FlashImage.CommandLine.Log
import FlashImage.Digest.Sha256
import FlashImage.Files.Staging
import FlashImage.Manifest.Substitution
import FlashImage.Report.Json
import FlashImage.Toml.Codec

/-!
# Sessions

A command runs in a session: it sees and changes files, prints lines and takes
notes, and it may end early with a failure.  What it did until then stays, except
for a file that it was still building.
-/

namespace FlashImage.CommandLine

/-- What a command has done so far. -/
structure Session where
  files : FileTree
  /-- The lines on standard output, oldest first. -/
  output : List String := []
  /-- The lines on standard error, oldest first. -/
  errors : List String := []
  notes : List Note := []
  deriving Repr

/-- What commands run on besides files. -/
structure Host where
  environment : Environment := []
  temporaries : TemporaryNames := .numbered
  /-- What a staged file is written to, while nothing is in it. -/
  limit : Option Nat := none
  verdicts : List (Option WriteFault) := []
  codec : Toml.Codec := .standard
  digest : Bytes → String := Sha256.hexDigest

def Host.medium (h : Host) : Medium where
  limit := h.limit
  verdicts := h.verdicts

/-- What a command is told besides its options. -/
structure Setup extends Host where
  quiet : Bool := false
  json : Bool := false

/-- A run of a command that returns a value or fails. -/
abbrev Run := ExceptT Failure (StateM Session)

namespace Run

def files : Run FileTree := do
  return (← get).files

/-- Goes on with a result, or ends with a failure. -/
def attempt {ε α : Type} (failure : ε → Failure) : Except ε α → Run α
  | .ok a => pure a
  | .error e => throw (failure e)

def print (lines : List String) : Run Unit :=
  modify fun s => { s with output := s.output ++ lines }

/-- Prints a warning on standard error, unless reports are printed for other
programs. -/
def warn (setup : Setup) (message : String) : Run Unit :=
  if setup.json then pure ()
  else modify fun s => { s with errors := s.errors ++ ["⚠ " ++ message] }

def note (notes : List Note) : Run Unit :=
  modify fun s => { s with notes := s.notes ++ notes }

/-- Creates the directory that the file at a path is to stand in. -/
def prepare (path : NativeText) : Run Unit := do
  let directory := FileTree.stagingDirectory path
  let (result, files) := (← files).makeDirectories directory
  modify fun s => { s with files }
  attempt (.directory directory) result

/-- Creates an empty file beside a target, and its directory if need be. -/
def openStaged (setup : Setup) (target : NativeText) : Run StagedFile := do
  prepare target
  let (staged, files) ← attempt (.staging (FileTree.stagingDirectory target))
    ((← files).stage setup.temporaries target)
  modify fun s => { s with files }
  return staged

def publish (staged : StagedFile) (target : NativeText) (content : Image) : Run Unit := do
  modify fun s => { s with files := s.files.fill staged content }
  let files ← attempt (.writing target) ((← files).persist staged target)
  modify fun s => { s with files }

/-- Takes a staged file away. -/
def discard (staged : StagedFile) : Run Unit :=
  modify fun s => { s with files := s.files.remove staged.place }

/-- Builds the content of a target beside it and then moves it over the target.  If
either fails, the staged file is taken away again. -/
def stage {α : Type} (setup : Setup) (target : NativeText) (build : Run (Image × α)) :
    Run α := do
  let staged ← openStaged setup target
  try
    let (content, result) ← build
    publish staged target content
    pure result
  catch failure =>
    discard staged
    throw failure

/-- Prints a report: as a tree for other programs, if it can be written so, or as one line,
which `quiet` leaves out. -/
def report (setup : Setup) (tree : Except UnwritablePath Json) (summary : String) : Run Unit :=
  if setup.json then do print [(← attempt .report tree).render 0]
  else if setup.quiet then pure ()
  else print ["✓ " ++ summary]

end Run

end FlashImage.CommandLine
