import FlashImage.Camera.CommandTable
import FlashImage.Camera.Error
import FlashImage.Text.Literal

/-!
# Command identifiers

A command is given by number or by name.  A name that reads as an integer
literal means that number.
-/

namespace FlashImage

/-- A command identifier as its user wrote it. -/
inductive CommandId where
  | numeric (value : UInt32)
  | named (name : String)
  deriving DecidableEq, Repr

namespace CommandId

/-- Reads an identifier: a literal is a number and everything else a name. -/
def parse (text : String) : CommandId :=
  match Literal.word? text with
  | some value => numeric value
  | none => named (String.ofList (Text.trim text.toList))

def resolve : CommandId → Except CameraError UInt32
  | numeric value => .ok value
  | named name =>
      match (Literal.word? name).or (Command.lookup? name) with
      | some value => .ok value
      | none => .error (.unknownCommand name)

def display : CommandId → String
  | numeric value => Text.hex 4 value.toNat
  | named name => name

end CommandId

end FlashImage
