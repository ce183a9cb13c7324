import FlashImage.CommandLine.BuildCamera
import FlashImage.CommandLine.BuildRoot
import FlashImage.CommandLine.Invocation
import FlashImage.CommandLine.SingleFile

/-!
# Running command lines

A command line is read and its command run on files; what comes out is an exit
code, the lines printed, the notes taken and the files as they are then.

* `run` runs a command line;
* `Action.manifest?` and `Action.paths` tell which files a command has to do
  with.
-/

namespace FlashImage.CommandLine

def Action.run (setup : Setup) : Action → Run Unit
  | root options => options.run setup
  | camera options => options.run setup
  | script options => options.run setup
  | inspect file => inspectFile setup file

def Action.manifest? : Action → Option NativeText
  | root options => options.manifest
  | camera options => options.manifest
  | _ => none

/-- The other files that an action reads or writes, if its manifest can be read. -/
def Action.paths (host : Host) (files : FileTree) : Action → List NativeText
  | root options =>
      match options.plan host files with
      | .ok plan => plan.target :: plan.modules.map (·.path)
      | .error _ => []
  | camera options =>
      match options.plan host files with
      | .ok plan => plan.target :: plan.commands.map (·.path)
      | .error _ => []
  | script options => [options.input, options.outfile]
  | inspect file => [file]

/-- What a command leaves behind. -/
structure Outcome where
  exitCode : Nat
  output : List String
  errors : List String
  notes : List Note
  files : FileTree
  deriving Repr

def Setup.ofFlags (host : Host) (flags : Flags) : Setup :=
  { host with quiet := flags.quiet, json := flags.json }

/-- Runs a command on files.  A failure is told on standard error. -/
def Action.outcome (host : Host) (flags : Flags) (files : FileTree) (a : Action) : Outcome :=
  let (result, s) := (a.run (.ofFlags host flags)).run { files }
  let shown := s.notes.filter (·.isShown (.ofFlags flags))
  match result with
  | .ok () => ⟨0, s.output, s.errors, shown, s.files⟩
  | .error failure => ⟨1, s.output, s.errors ++ failure.lines, shown, s.files⟩

/-- What becomes of a command line. -/
inductive Reply where
  | refused (error : UsageError)
  /-- No command is named, so the usage is shown. -/
  | usage
  | done (outcome : Outcome)

def run (host : Host) (files : FileTree) (arguments : List NativeText) : Reply :=
  match Invocation.parse arguments with
  | .error e => .refused e
  | .ok ⟨_, none⟩ => .usage
  | .ok ⟨flags, some action⟩ => .done (action.outcome host flags files)

end FlashImage.CommandLine
