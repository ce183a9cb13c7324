import FlashImage.CommandLine.Arguments
import FlashImage.Layout.Category

/-!
# Options of the commands

What each command takes, and the options as they are collected.
-/

namespace FlashImage.CommandLine

/-- Takes in a value that may be given once. -/
def once {α : Type} (old : Option α) (read : Except UsageError α) :
    Except UsageError (Option α) :=
  if old.isSome then .error .repeated else read.map some

def readPath (value : NativeText) : Except UsageError NativeText :=
  if value.bytes = [] then .error .missingValue else .ok value

def readText (value : NativeText) : Except UsageError String :=
  match value.toString? with
  | some s => .ok s
  | none => .error .notText

def readValue {α : Type} (parse : String → Except ValueError α) (value : NativeText) :
    Except UsageError α := do
  (parse (← readText value)).mapError .refusedValue

/-- What a value without a place is where there are no subcommands. -/
def strayValue (_ : Bool) (argument : NativeText) : UsageError :=
  .unknownArgument argument.display

/-! ## Building root images -/

/-- The options for building a root image. -/
structure RootOptions where
  manifest : Option NativeText := none
  outfile : Option NativeText := none
  rfsconf : Option String := none
  alignment : Option UInt32 := none
  directoryCopies : Option UInt32 := none
  /-- Modules with their categories, in the order in which they were given. -/
  modules : List (ModuleCategory × UInt32 × NativeText) := []
  deriving DecidableEq, Repr

/-- An option for building a root image. -/
inductive RootOption where
  | manifest
  | outfile
  | rfsconf
  | alignment
  | directoryCopies
  | module (category : ModuleCategory)
  deriving DecidableEq, Repr

def RootOption.named? : OptionName → Option RootOption
  | .long "manifest" => some manifest
  | .short 'm' => some manifest
  | .long "outfile" => some outfile
  | .short 'o' => some outfile
  | .long "rfsconf" => some rfsconf
  | .long "alignment" => some alignment
  | .long "dircopies" => some directoryCopies
  | .long "gard" => some (module .firmware)
  | .long "mlfile" => some (module .ml)
  | .long "camconf" => some (module .cameraConfig)
  | .long "app" => some (module .appProfile)
  | .long "appdata" => some (module .appData)
  | _ => none

def RootOptions.assign (key : RootOption) (value : NativeText) (o : RootOptions) :
    Except UsageError RootOptions := do
  match key with
  | .manifest => .ok { o with manifest := ← once o.manifest (readPath value) }
  | .outfile => .ok { o with outfile := ← once o.outfile (readPath value) }
  | .rfsconf => .ok { o with rfsconf := ← once o.rfsconf (readText value) }
  | .alignment => .ok { o with alignment := ← once o.alignment (readValue parseWord value) }
  | .directoryCopies =>
      .ok { o with directoryCopies := ← once o.directoryCopies (readValue parseWord value) }
  | .module category => do
      let (id, path) ← readValue parseModule value
      .ok { o with modules := o.modules ++ [(category, id, .ofString path)] }

def rootGrammar : Grammar RootOption RootOptions where
  option? := RootOption.named?
  place? _ := none
  assign := RootOptions.assign
  stray := strayValue

/-! ## Building camera configurations -/

/-- The options for building a camera configuration. -/
structure CameraOptions where
  manifest : Option NativeText := none
  outfile : Option NativeText := none
  basicconf : Option String := none
  commands : List (CommandId × NativeText) := []
  deriving DecidableEq, Repr

/-- An option for building a camera configuration. -/
inductive CameraOption where
  | manifest
  | outfile
  | basicconf
  | command
  deriving DecidableEq, Repr

def CameraOption.named? : OptionName → Option CameraOption
  | .long "manifest" => some manifest
  | .short 'm' => some manifest
  | .long "outfile" => some outfile
  | .short 'o' => some outfile
  | .long "basicconf" => some basicconf
  | .long "camconfcmnd" => some command
  | _ => none

def CameraOptions.assign (key : CameraOption) (value : NativeText) (o : CameraOptions) :
    Except UsageError CameraOptions := do
  match key with
  | .manifest => .ok { o with manifest := ← once o.manifest (readPath value) }
  | .outfile => .ok { o with outfile := ← once o.outfile (readPath value) }
  | .basicconf => .ok { o with basicconf := ← once o.basicconf (readText value) }
  | .command => do
      let (id, path) ← readValue parseCommand value
      .ok { o with commands := o.commands ++ [(id, .ofString path)] }

def cameraGrammar : Grammar CameraOption CameraOptions where
  option? := CameraOption.named?
  place? _ := none
  assign := CameraOptions.assign
  stray := strayValue

/-! ## Turning a script into its blob -/

/-- The options for turning a script into its blob, as they are collected. -/
structure ScriptArguments where
  input : Option NativeText := none
  outfile : Option NativeText := none
  deriving DecidableEq, Repr

/-- The options for turning a script into its blob. -/
structure ScriptOptions where
  input : NativeText
  outfile : NativeText
  deriving DecidableEq, Repr

/-- An option or place for turning a script into its blob. -/
inductive ScriptOption where
  | input
  | outfile
  deriving DecidableEq, Repr

def ScriptArguments.assign (key : ScriptOption) (value : NativeText) (o : ScriptArguments) :
    Except UsageError ScriptArguments := do
  match key with
  | .input => .ok { o with input := ← once o.input (readPath value) }
  | .outfile => .ok { o with outfile := ← once o.outfile (readPath value) }

def ScriptArguments.complete : ScriptArguments → Except UsageError ScriptOptions
  | ⟨some input, some outfile⟩ => .ok ⟨input, outfile⟩
  | ⟨none, _⟩ => .error (.missingArgument "INPUT")
  | ⟨_, none⟩ => .error (.missingArgument "--outfile")

def scriptGrammar : Grammar ScriptOption ScriptArguments where
  option? name :=
    if name = .long "outfile" ∨ name = .short 'o' then some .outfile else none
  place? n := if n = 0 then some .input else none
  assign := ScriptArguments.assign
  stray := strayValue

/-! ## Inspecting files -/

/-- What inspecting a file takes: one place, for the file. -/
def inspectGrammar : Grammar Unit (Option NativeText) where
  option? _ := none
  place? n := if n = 0 then some () else none
  assign _ value file := once file (readPath value)
  stray := strayValue

def completeFile : Option NativeText → Except UsageError NativeText
  | some file => .ok file
  | none => .error (.missingArgument "FILE")

end FlashImage.CommandLine
