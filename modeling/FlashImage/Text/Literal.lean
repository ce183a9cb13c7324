import FlashImage.Text.Basic
import FlashImage.Text.Digits

/-!
# Integer literals

Settings, identifiers and arguments write unsigned integers in radix 2, 8, 10
or 16.  A literal is read in steps: blanks around it and one plus sign are
dropped, the radix mark is taken off, the underscores are checked and removed,
and the digits that remain are valued.

* `Literal.parse?` reads a literal below `2 ^ 64`;
* `Literal.word?` reads one that fits in 32 bits.
-/

namespace FlashImage.Literal

open Text

def dropPlus : List Char → List Char
  | '+' :: s => s
  | s => s

/-- The radix that the first two characters announce, and the text after them. -/
def radix : List Char → Nat × List Char
  | '0' :: 'x' :: s => (16, s)
  | '0' :: 'X' :: s => (16, s)
  | '0' :: 'o' :: s => (8, s)
  | '0' :: 'O' :: s => (8, s)
  | '0' :: 'b' :: s => (2, s)
  | '0' :: 'B' :: s => (2, s)
  | s => (10, s)

/-- The digits without the one underscore that may follow a radix mark. -/
def dropMarkUnderscore (radix : Nat) : List Char → List Char
  | '_' :: s => if radix = 10 then '_' :: s else s
  | s => s

def hasDoubleUnderscore : List Char → Bool
  | a :: b :: s => (a == '_' && b == '_') || hasDoubleUnderscore (b :: s)
  | _ => false

/-- Whether the text is not empty and its underscores stand singly and inside it. -/
def wellSeparated (s : List Char) : Bool :=
  !s.isEmpty && s.head? != some '_' && s.getLast? != some '_' && !hasDoubleUnderscore s

/-- Whether a zero is followed by anything but zeros, which decimals may not do. -/
def hasLeadingZero (s : List Char) : Bool :=
  s.head? == some '0' && s.any (· != '0')

def read? (s : List Char) : Option Nat :=
  let (base, rest) := radix (dropPlus s)
  let digits := dropMarkUnderscore base rest
  if wellSeparated digits then
    let plain := digits.filter (· != '_')
    -- a plus sign may stand once more, directly before the digits
    if base = 10 && hasLeadingZero plain then none
    else (cappedNumber? (1 <<< 64) base (dropPlus plain)).filter (· < 1 <<< 64)
  else none

/-- The value of an unsigned integer literal below `2 ^ 64`. -/
def parse? (s : String) : Option Nat :=
  read? (trim s.toList)

/-- The value of an integer literal that fits in 32 bits. -/
def word? (s : String) : Option UInt32 :=
  ((parse? s).filter (· < 1 <<< 32)).map UInt32.ofNat

end FlashImage.Literal
