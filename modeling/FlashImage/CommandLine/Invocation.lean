import FlashImage.CommandLine.Options

/-!
# Command lines

A command line is a list of flags, the name of a command, and what the command
takes.

* `Invocation.parse` reads a command line.
-/

namespace FlashImage.CommandLine

/-- A command with its options. -/
inductive Action where
  | root (options : RootOptions)
  | camera (options : CameraOptions)
  | script (options : ScriptOptions)
  | inspect (file : NativeText)
  deriving DecidableEq, Repr

/-- A command line. -/
structure Invocation where
  flags : Flags
  action : Option Action
  deriving DecidableEq, Repr

/-- The name of a command, or the word that asks for help. -/
inductive Subcommand where
  | root
  | camera
  | script
  | inspect
  | help
  deriving DecidableEq, Repr

namespace Subcommand

def named? : String → Option Subcommand
  | "root" => some root
  | "camera" => some camera
  | "i2c" => some script
  | "inspect" => some inspect
  | "help" => some help
  | _ => none

/-- What the words behind `help` ask for: help on nothing or on one command. -/
def helpOn : List NativeText → UsageError
  | [] => .help
  | name :: names =>
      match name.toString?.bind named?, names with
      | none, _ => .unknownSubcommand name.display
      | some _, [] => .help
      | some _, next :: _ => .unknownSubcommand next.display

def read (arguments : List NativeText) : Subcommand → Except UsageError (Action × Flags)
  | root => do
      let (options, flags) ← rootGrammar.read {} arguments
      .ok (.root options, flags)
  | camera => do
      let (options, flags) ← cameraGrammar.read {} arguments
      .ok (.camera options, flags)
  | script => do
      let (collected, flags) ← scriptGrammar.read {} arguments
      .ok (.script (← collected.complete), flags)
  | inspect => do
      let (file, flags) ← inspectGrammar.read none arguments
      .ok (.inspect (← completeFile file), flags)
  | help => .error (helpOn arguments)

end Subcommand

/-- What stands in front of the name of a command: flags only. -/
def outerGrammar : Grammar Empty Unit where
  option? _ := none
  place? _ := none
  assign key := nomatch key
  stray escaped argument :=
    if escaped ∧ (argument.toString?.bind Subcommand.named?).isSome then
      .unknownArgument argument.display
    else .unknownSubcommand argument.display

namespace Invocation

/-- Reads a command line of which the flags in front have been read. -/
def parseFrom (p : Progress Empty Unit) : List NativeText → Except UsageError Invocation
  | [] => .ok ⟨p.flags, none⟩
  | argument :: arguments =>
      match if p.escaped then none else argument.toString?.bind Subcommand.named? with
      | some subcommand => do
          let (action, flags) ← subcommand.read arguments
          .ok ⟨p.flags.join flags, some action⟩
      | none => do parseFrom (← outerGrammar.step p argument) arguments

def parse (arguments : List NativeText) : Except UsageError Invocation :=
  parseFrom { collected := () } arguments

end Invocation

end FlashImage.CommandLine
