import FlashImage.Text.Basic
import FlashImage.Text.Digits

/-!
# Fields of a register script

A field is one byte.  It is written in hexadecimal, with or without the mark
`0x`, or as a signed decimal; `30` consists of hexadecimal digits and therefore
reads as `0x30`.  Literals of any length are read; the byte is the value modulo
256.
-/

namespace FlashImage.Script

open Text

/-- The value of a run of digits modulo 256, behind the value `acc` read so far. -/
def foldDigits? (radix : Nat) (acc : UInt8) : List Char → Option UInt8
  | [] => some acc
  | c :: s =>
      match digit? radix c with
      | some d => foldDigits? radix (acc * UInt8.ofNat radix + UInt8.ofNat d) s
      | none => none

/-- The value of a non-empty run of digits modulo 256. -/
def digitsByte? (radix : Nat) : List Char → Option UInt8
  | [] => none
  | s => foldDigits? radix 0 s

def allHex (s : List Char) : Bool :=
  s.all fun c => (digit? 16 c).isSome

def readField? : List Char → Option UInt8
  | '0' :: 'x' :: s => digitsByte? 16 s
  | '0' :: 'X' :: s => digitsByte? 16 s
  | s =>
      if allHex s then digitsByte? 16 s
      else
        match s with
        | '-' :: s => (digitsByte? 10 s).map fun b => 0 - b
        | '+' :: s => digitsByte? 10 s
        | _ => none

def parseField? (field : List Char) : Option UInt8 :=
  readField? (trim field)

end FlashImage.Script
