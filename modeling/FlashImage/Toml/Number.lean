import FlashImage.Text.Basic
import FlashImage.Text.Literal

/-!
# Numbers of a document

Integers are signed 64-bit numbers in decimal, or unsigned ones in radix 16, 8
or 2 behind a lower-case mark.  Underscores stand singly between digits, and a
decimal begins with a zero only if it has no other digit.

A floating-point number has a fraction, an exponent or both, or is an infinity or
no number.  Its value is not kept, but a decimal that is so large that it would
round to infinity is refused.
-/

namespace FlashImage.Toml

open Text

/-- The value of digits with single underscores between them, up to the cap
`2 ^ 64`, which is more than any integer or exponent that matters. -/
def separatedNumber? (radix : Nat) (s : List Char) : Option Nat :=
  if Literal.wellSeparated s then cappedNumber? (1 <<< 64) radix (s.filter (· != '_')) else none

def decimal? (s : List Char) : Option Nat :=
  if s.head? = some '0' ∧ s.length ≠ 1 then none else separatedNumber? 10 s

/-- The text behind one sign, and whether the sign is a minus. -/
def dropSign : List Char → Bool × List Char
  | '+' :: s => (false, s)
  | '-' :: s => (true, s)
  | s => (false, s)

/-- Reads an integer that may be too large. -/
def wideInteger? : List Char → Option Int
  | '0' :: 'x' :: s => (separatedNumber? 16 s).map Int.ofNat
  | '0' :: 'o' :: s => (separatedNumber? 8 s).map Int.ofNat
  | '0' :: 'b' :: s => (separatedNumber? 2 s).map Int.ofNat
  | s =>
      let (negative, digits) := dropSign s
      (decimal? digits).map fun n => if negative then -Int.ofNat n else Int.ofNat n

def integer? (s : List Char) : Option Int :=
  (wideInteger? s).filter fun n => -0x8000000000000000 ≤ n ∧ n < 0x8000000000000000

def cutExponent (s : List Char) : List Char × Option (List Char) :=
  match cutAt 'e' (s.map fun c => if c = 'E' then 'e' else c) with
  | some (mantissa, exponent) => (mantissa, some exponent)
  | none => (s, none)

def cutPoint (s : List Char) : List Char × Option (List Char) :=
  match cutAt '.' s with
  | some (whole, fraction) => (whole, some fraction)
  | none => (s, none)

def exponent? (s : List Char) : Option Int :=
  let (negative, digits) := dropSign s
  (separatedNumber? 10 digits).map fun n => if negative then -Int.ofNat n else Int.ofNat n

/-- Whether a text consists of digits with single underscores between them. -/
def isSeparated (s : List Char) : Bool :=
  Literal.wellSeparated s && s.all fun c => c.isDigit || c == '_'

/-- The smallest number that rounds to infinity in double precision: half a step
above the largest finite one. -/
def roundsToInfinity : Nat := 1 <<< 1024 - 1 <<< 970

/-- Whether the number with the given digits, times a power of ten, rounds to
infinity.  It is worked out only where its order of magnitude does not decide,
and then from its whole part, because the bound is whole. -/
def isHuge (digits : List Char) (power : Int) : Bool :=
  let digits := digits.dropWhile (· == '0')
  let magnitude := digits.length + power
  if digits = [] || magnitude < 308 then false
  else if 310 < magnitude then true
  else
    match number? 10 ((digits ++ List.replicate 310 '0').take magnitude.toNat) with
    | some whole => roundsToInfinity ≤ whole
    | none => false

/-- Whether a text is a decimal with a fraction or an exponent that does not round
to infinity.  Behind a minus it may. -/
def isFractional (s : List Char) : Bool :=
  let (negative, body) := dropSign s
  let (mantissa, exponent) := cutExponent body
  let (whole, fraction) := cutPoint mantissa
  let power := exponent.map exponent?
  let wellFormed :=
    isSeparated whole && (whole.head? != some '0' || whole.length == 1) &&
      (fraction.isSome || exponent.isSome) && fraction.all isSeparated && power != some none
  let fraction := (fraction.getD []).filter (· != '_')
  wellFormed &&
    (negative ||
      !isHuge (whole.filter (· != '_') ++ fraction) ((power.join).getD 0 - fraction.length))

def isFloat (s : List Char) : Bool :=
  let body := (dropSign s).2
  body = ['i', 'n', 'f'] || body = ['n', 'a', 'n'] || isFractional s

end FlashImage.Toml
