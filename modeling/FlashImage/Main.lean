import FlashImage.CommandLine.Run
import FlashImage.Files.Changes

/-!
# Command line program

The files that a command has to do with are loaded, the command is run on them
as values, and what has changed is written back.
-/

namespace FlashImage.Program

/-- What stands at a path of the file system.  The permission bits are not
looked at, because files are overwritten where they stand. -/
def nodeAt (path : NativeText) : IO (Option FileNode) := do
  let target := (← IO.currentDir) / path.display
  if ← target.isDir then return some (.directory [])
  else if ← target.pathExists then
    let content ← IO.FS.readBinFile target
    return some (.file (Image.ofBytes content.toList) FileTree.newFileMode)
  else return none

def loadPlace (files : FileTree) (place : Place) : IO FileTree := do
  if place.all FileTree.isMark then return files
  else
    match ← nodeAt (FileTree.pathOf place) with
    | some node => return if (files.node? place).isSome then files else files.put place node
    | none => return files

/-- The files with what stands at a path and on the way to it. -/
def loadPath (files : FileTree) (path : NativeText) : IO FileTree := do
  let (start, components) := FileTree.startOf path
  let mut place := start
  let mut files := files
  for component in components do
    place := FileTree.step place component
    files ← loadPlace files place
  return files

/-- The variables of the environment that a manifest refers to. -/
def loadEnvironment (host : CommandLine.Host) (files : FileTree) (manifest : NativeText) :
    IO Environment := do
  match files.readText manifest with
  | .error _ => return []
  | .ok text =>
      let mut environment : Environment := []
      for name in Manifest.referenced host.codec text do
        if let some value ← IO.getEnv name then
          environment := environment ++ [(name, .ofString value)]
      return environment

/-- The files that an action has to do with, and a host with the variables. -/
def load (action : CommandLine.Action) : IO (FileTree × CommandLine.Host) := do
  let mut files : FileTree := {}
  let mut host : CommandLine.Host := {}
  if let some manifest := action.manifest? then
    files ← loadPath files manifest
    host := { host with environment := ← loadEnvironment host files manifest }
  for path in action.paths host files do
    files ← loadPath files path
  return (files, host)

def store (place : Place) : FileNode → IO Unit
  | .directory _ => do IO.FS.createDirAll ((← IO.currentDir) / (FileTree.pathOf place).display)
  | .file content _ => do
      IO.FS.writeBinFile ((← IO.currentDir) / (FileTree.pathOf place).display)
        ⟨content.toBytes.toArray⟩

/-- Runs a command and writes back what it has changed. -/
def runAction (flags : CommandLine.Flags) (action : CommandLine.Action) : IO UInt32 := do
  let (files, host) ← load action
  let outcome := action.outcome host flags files
  for (place, node) in outcome.files.changedNodes files do
    store place node
  for note in outcome.notes do
    IO.eprintln note.line
  for line in outcome.errors do
    IO.eprintln line
  for line in outcome.output do
    IO.println line
  return UInt32.ofNat outcome.exitCode

def refuse (e : CommandLine.UsageError) : IO UInt32 := do
  match e with
  | .help => IO.println CommandLine.usage
  | .version => IO.println CommandLine.version
  | e => do
      IO.eprintln ("error: " ++ e.message)
      IO.eprintln CommandLine.usage
  return UInt32.ofNat e.exitCode

end FlashImage.Program

def main (arguments : List String) : IO UInt32 := do
  match FlashImage.CommandLine.Invocation.parse (arguments.map .ofString) with
  | .error e => FlashImage.Program.refuse e
  | .ok ⟨_, none⟩ => FlashImage.Program.refuse .help
  | .ok ⟨flags, some action⟩ => FlashImage.Program.runAction flags action
