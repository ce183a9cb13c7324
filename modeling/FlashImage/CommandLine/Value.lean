import FlashImage.Camera.CommandId
import FlashImage.Text.Basic
import FlashImage.Text.Literal

/-!
# Argument values

The values of command line options: integers, and files that are given with an
identifier in front, as `ID=FILE`.
-/

namespace FlashImage.CommandLine

open Text

/-- Why a value is refused. -/
inductive ValueError where
  | notWord (value : String)
  | notIdFile (value : String)
  deriving DecidableEq, Repr

def ValueError.message : ValueError → String
  | notWord value => "'" ++ value ++ "' is not a 32-bit integer"
  | notIdFile value => "'" ++ value ++ "' is not of the form ID=FILE"

/-- A file and the text of its identifier. -/
structure IdFile where
  id : String
  file : String
  deriving DecidableEq, Repr

def parseWord (value : String) : Except ValueError UInt32 :=
  match Literal.word? value with
  | some w => .ok w
  | none => .error (.notWord value)

/-- Cuts a value at its first equals sign; both parts are trimmed and neither
may be empty. -/
def parseIdFile (value : String) : Except ValueError IdFile :=
  match cutAt '=' value.toList with
  | none => .error (.notIdFile value)
  | some (id, file) =>
      let id := trim id
      let file := trim file
      if id = [] ∨ file = [] then .error (.notIdFile value)
      else .ok ⟨String.ofList id, String.ofList file⟩

def parseModule (value : String) : Except ValueError (UInt32 × String) := do
  let f ← parseIdFile value
  .ok (← parseWord f.id, f.file)

/-- Reads a command: a file with a number or a name. -/
def parseCommand (value : String) : Except ValueError (CommandId × String) := do
  let f ← parseIdFile value
  .ok (CommandId.parse f.id, f.file)

end FlashImage.CommandLine
