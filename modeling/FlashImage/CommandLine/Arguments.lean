import FlashImage.Bytes.Native
import FlashImage.CommandLine.Usage
import FlashImage.Text.Basic

/-!
# Reading arguments

Arguments are read one by one.  An argument names options, ends the options
(`--`), is the value of the option before it, or is a value in its own right.
An option `--name` may have its value behind an equals sign, and an option `-n`
directly behind its letter; flags of one letter may be joined.

The value of an option or of a place is kept until the next option or place
begins, and is checked then, so that the first mistake in the order of the
arguments is the one that is told, except that an argument which nothing is
known about is told at once.

* `Grammar` is what a command takes;
* `Grammar.step` reads one argument and `Grammar.read` all of them.
-/

namespace FlashImage.CommandLine

open Text

/-- The name of an option as it is written. -/
inductive OptionName where
  | long (name : String)
  | short (letter : Char)
  deriving DecidableEq, Repr

/-- The options that every command takes and that have no value. -/
inductive Flag where
  | verbose
  | quiet
  | json
  | help
  | version
  deriving DecidableEq, Repr

def Flag.named? : OptionName → Option Flag
  | .long "verbose" => some verbose
  | .short 'v' => some verbose
  | .long "quiet" => some quiet
  | .short 'q' => some quiet
  | .long "json" => some json
  | .long "help" => some help
  | .short 'h' => some help
  | .long "version" => some version
  | .short 'V' => some version
  | _ => none

/-- The flags that have been given. -/
structure Flags where
  verbose : Nat := 0
  quiet : Bool := false
  json : Bool := false
  deriving DecidableEq, Repr

namespace Flags

/-- The flags with one more.  Only `verbose` counts. -/
def raise (f : Flags) : Flag → Except UsageError Flags
  | .verbose => .ok { f with verbose := f.verbose + 1 }
  | .quiet => if f.quiet then .error .repeated else .ok { f with quiet := true }
  | .json => if f.json then .error .repeated else .ok { f with json := true }
  | .help => .error .help
  | .version => .error .version

/-- The flags before and behind the name of a command, taken together. -/
def join (outer inner : Flags) : Flags where
  verbose := if inner.verbose = 0 then outer.verbose else inner.verbose
  quiet := outer.quiet || inner.quiet
  json := outer.json || inner.json

end Flags

/-- What a command takes: options and places with keys of type `κ`, which are
collected in a value of type `σ`. -/
structure Grammar (κ σ : Type) where
  /-- The option with the given name, which takes a value. -/
  option? : OptionName → Option κ
  /-- The place for the value that comes after the given number of values. -/
  place? : Nat → Option κ
  /-- Takes in the value of an option or a place. -/
  assign : κ → NativeText → σ → Except UsageError σ
  /-- What a value without a place is; the flag tells whether it stands behind
  the end of the options. -/
  stray : Bool → NativeText → UsageError

/-- What has been read so far. -/
structure Progress (κ σ : Type) where
  collected : σ
  flags : Flags := {}
  /-- The last option or place and its value, if it has one already. -/
  pending : Option (κ × Option NativeText) := none
  escaped : Bool := false
  placed : Nat := 0

/-- The form of an argument. -/
inductive Form where
  /-- The end of the options. -/
  | escape
  | long (name : Bytes) (value : Option Bytes)
  /-- A joined list of letters. -/
  | short (letters : Bytes)
  | plain
  deriving DecidableEq, Repr

@[match_pattern]
abbrev dash : UInt8 := 0x2D

@[match_pattern]
abbrev equals : UInt8 := 0x3D

def Form.ofArgument : Bytes → Form
  | [dash, dash] => escape
  | dash :: dash :: s =>
      match cutAt equals s with
      | some (name, value) => long name (some value)
      | none => long s none
  | dash :: b :: s => short (b :: s)
  | _ => plain

namespace Grammar

variable {κ σ : Type}

/-- Takes in what is pending. -/
def settle (g : Grammar κ σ) (p : Progress κ σ) : Except UsageError (Progress κ σ) :=
  match p.pending with
  | none => .ok p
  | some (_, none) => .error .missingValue
  | some (key, some value) => do
      .ok { p with collected := ← g.assign key value p.collected, pending := none }

/-- Raises a flag. -/
def raise (g : Grammar κ σ) (p : Progress κ σ) (f : Flag) : Except UsageError (Progress κ σ) := do
  let p ← g.settle p
  .ok { p with flags := ← p.flags.raise f }

/-- Begins an option, which takes in its value at once if that is attached. -/
def begin (g : Grammar κ σ) (p : Progress κ σ) (key : κ) :
    Option Bytes → Except UsageError (Progress κ σ)
  | none => do
      let p ← g.settle p
      .ok { p with pending := some (key, none) }
  | some value => do
      let p ← g.settle p
      .ok { p with collected := ← g.assign key ⟨value⟩ p.collected }

/-- The value directly behind the letter of an option. -/
def attached : Bytes → Option Bytes
  | [] => none
  | equals :: s => some s
  | s => some s

def readLong (g : Grammar κ σ) (p : Progress κ σ) (name : Bytes) (value : Option Bytes) :
    Except UsageError (Progress κ σ) :=
  let name := NativeText.display ⟨name⟩
  match Flag.named? (.long name), g.option? (.long name) with
  | some f, _ => if value.isSome then .error (.unexpectedValue ("--" ++ name)) else g.raise p f
  | none, some key => g.begin p key value
  | none, none => .error (.unknownArgument ("--" ++ name))

/-- Reads options of one letter each, the last of which may have a value. -/
def readShort (g : Grammar κ σ) (p : Progress κ σ) :
    Bytes → Except UsageError (Progress κ σ)
  | [] => .ok p
  | lead :: s =>
      match Utf8.piece lead s with
      | (.broken, _) => .error (.unknownArgument ("-" ++ NativeText.display ⟨lead :: s⟩))
      | (.char c, n) =>
          match Flag.named? (.short c), g.option? (.short c) with
          | some f, _ => do readShort g (← g.raise p f) (s.drop n)
          | none, some key => g.begin p key (attached (s.drop n))
          | none, none => .error (.unknownArgument (String.ofList ['-', c]))
  termination_by letters => letters.length
  decreasing_by simp only [List.length_drop, List.length_cons]; omega

def readPlaced (g : Grammar κ σ) (p : Progress κ σ) (argument : NativeText) :
    Except UsageError (Progress κ σ) :=
  match g.place? p.placed with
  | some key => do
      let p ← g.settle p
      .ok { p with pending := some (key, some argument), placed := p.placed + 1 }
  | none => .error (g.stray p.escaped argument)

def step (g : Grammar κ σ) (p : Progress κ σ) (argument : NativeText) :
    Except UsageError (Progress κ σ) :=
  if p.escaped then g.readPlaced p argument
  else
    match Form.ofArgument argument.bytes with
    | .escape => .ok { p with escaped := true }
    | .long name value => g.readLong p name value
    | .short letters => g.readShort p letters
    | .plain =>
        -- an option that waits for its value takes it before any place does
        match p.pending with
        | some (key, none) => .ok { p with pending := some (key, some argument) }
        | _ => g.readPlaced p argument

def read (g : Grammar κ σ) (start : σ) (arguments : List NativeText) :
    Except UsageError (σ × Flags) := do
  let p ← arguments.foldlM g.step { collected := start }
  let p ← g.settle p
  .ok (p.collected, p.flags)

end Grammar

end FlashImage.CommandLine
