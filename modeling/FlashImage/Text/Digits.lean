/-!
# Digits

Numbers are read and written digit by digit.

* `digit?` is the value of one digit in a radix of at most thirty-six;
* `number?` is the value of a run of digits, most significant first;
* `cappedNumber?` is that value up to a cap, which keeps long runs cheap;
* `hex` writes a number with the mark `0x` and at least a given number of digits.
-/

namespace FlashImage.Text

/-- The value of an ASCII digit or letter in the given radix. -/
def digit? (radix : Nat) (c : Char) : Option Nat :=
  let n := c.toNat
  let value :=
    if 0x30 ≤ n ∧ n ≤ 0x39 then n - 0x30
    else if 0x61 ≤ n ∧ n ≤ 0x7A then n - 0x61 + 10
    else if 0x41 ≤ n ∧ n ≤ 0x5A then n - 0x41 + 10
    else radix
  if value < radix then some value else none

/-- The value of a non-empty run of digits. -/
def number? (radix : Nat) : List Char → Option Nat
  | [] => none
  | s => s.foldlM (fun acc c => (digit? radix c).map (acc * radix + ·)) 0

/-- The value of a non-empty run of digits, or `cap` if that is less. -/
def cappedNumber? (cap radix : Nat) : List Char → Option Nat
  | [] => none
  | s => s.foldlM (fun acc c => (digit? radix c).map fun d => min cap (acc * radix + d)) 0

/-- A number in lower-case hexadecimal behind `0x`, filled up with zeros to at
least `width` digits. -/
def hex (width n : Nat) : String :=
  let digits := Nat.toDigits 16 n
  "0x" ++ String.ofList (List.replicate (width - digits.length) '0' ++ digits)

def hexBytes (bytes : List UInt8) : String :=
  String.ofList <| bytes.flatMap fun b =>
    [Nat.digitChar (b.toNat / 16), Nat.digitChar (b.toNat % 16)]

/-- The text followed by blanks up to the given width. -/
def padRight (width : Nat) (s : String) : String :=
  s ++ String.ofList (List.replicate (width - s.length) ' ')

def padLeft (width : Nat) (s : String) : String :=
  String.ofList (List.replicate (width - s.length) ' ') ++ s

end FlashImage.Text
