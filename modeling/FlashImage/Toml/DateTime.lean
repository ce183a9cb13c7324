import FlashImage.Text.Digits

/-!
# Dates and times

A date or time is read digit by digit and checked against the calendar and the
clock.  Its text is uniform: `T` between date and time, `Z` for the zero
offset, no zeros at the end of a fraction.
-/

namespace FlashImage.Toml

open Text

/-- A day of the calendar. -/
structure Date where
  year : Nat
  month : Nat
  day : Nat
  deriving DecidableEq, Repr

/-- A time of day.  The fraction is at most nine digits, none of them a zero at
the end. -/
structure Time where
  hour : Nat
  minute : Nat
  second : Nat
  fraction : List Char
  deriving DecidableEq, Repr

/-- How far local time is from universal time. -/
inductive Offset where
  /-- Written as the letter Z. -/
  | universal
  | hours (behind : Bool) (hour minute : Nat)
  deriving DecidableEq, Repr

/-- A date, a time of day, or both, and then maybe an offset. -/
inductive DateTime where
  | date (d : Date)
  | time (t : Time)
  | both (d : Date) (t : Time) (offset : Option Offset)
  deriving DecidableEq, Repr

def isLeapYear (year : Nat) : Bool :=
  year % 4 == 0 && (year % 100 != 0 || year % 400 == 0)

def daysIn (year month : Nat) : Nat :=
  if month = 2 then if isLeapYear year then 29 else 28
  else if month = 4 ∨ month = 6 ∨ month = 9 ∨ month = 11 then 30
  else 31

def Date.read? : List Char → Option (Date × List Char)
  | a :: b :: c :: d :: '-' :: e :: f :: '-' :: g :: h :: rest => do
      let year ← number? 10 [a, b, c, d]
      let month ← number? 10 [e, f]
      let day ← number? 10 [g, h]
      if 1 ≤ month ∧ month ≤ 12 ∧ 1 ≤ day ∧ day ≤ daysIn year month then
        some (⟨year, month, day⟩, rest)
      else none
  | _ => none

def readClock? : List Char → Option (Nat × Nat × List Char)
  | a :: b :: ':' :: c :: d :: rest => do
      let hour ← number? 10 [a, b]
      let minute ← number? 10 [c, d]
      if hour < 24 ∧ minute < 60 then some (hour, minute, rest) else none
  | _ => none

/-- A fraction as it is kept: the first nine digits, without zeros at the end. -/
def keptFraction (digits : List Char) : List Char :=
  ((digits.take 9).reverse.dropWhile (· == '0')).reverse

/-- Reads the time that a text begins with.  The second may be a leap second. -/
def Time.read? (s : List Char) : Option (Time × List Char) := do
  match ← readClock? s with
  | (hour, minute, ':' :: a :: b :: rest) => do
      let second ← number? 10 [a, b]
      if second ≤ 60 then
        match rest with
        | '.' :: rest =>
            let digits := rest.takeWhile Char.isDigit
            if digits = [] then none
            else some (⟨hour, minute, second, keptFraction digits⟩, rest.dropWhile Char.isDigit)
        | _ => some (⟨hour, minute, second, []⟩, rest)
      else none
  | _ => none

/-- Reads a whole text as an offset, if there is any text. -/
def Offset.parse? : List Char → Option (Option Offset)
  | [] => some none
  | ['Z'] => some (some .universal)
  | ['z'] => some (some .universal)
  | sign :: rest => do
      match ← readClock? rest with
      | (hour, minute, []) =>
          if sign = '+' then some (some (.hours false hour minute))
          else if sign = '-' then some (some (.hours (hour + minute ≠ 0) hour minute))
          else none
      | _ => none

def DateTime.parse? (s : List Char) : Option DateTime :=
  match Date.read? s with
  | some (d, []) => some (.date d)
  | some (d, separator :: rest) =>
      if separator = 'T' ∨ separator = 't' ∨ separator = ' ' then do
        let (t, rest) ← Time.read? rest
        some (.both d t (← Offset.parse? rest))
      else none
  | none =>
      match Time.read? s with
      | some (t, []) => some (.time t)
      | _ => none

/-- A number in decimal, filled up with zeros to the given number of digits. -/
def decimal (width n : Nat) : String :=
  let digits := Nat.toDigits 10 n
  String.ofList (List.replicate (width - digits.length) '0' ++ digits)

def Date.text (d : Date) : String :=
  decimal 4 d.year ++ "-" ++ decimal 2 d.month ++ "-" ++ decimal 2 d.day

def Time.text (t : Time) : String :=
  decimal 2 t.hour ++ ":" ++ decimal 2 t.minute ++ ":" ++ decimal 2 t.second ++
    (if t.fraction = [] then "" else "." ++ String.ofList t.fraction)

def Offset.text : Offset → String
  | universal => "Z"
  | hours behind hour minute =>
      (if behind then "-" else "+") ++ decimal 2 hour ++ ":" ++ decimal 2 minute

def DateTime.text : DateTime → String
  | date d => d.text
  | time t => t.text
  | both d t offset => d.text ++ "T" ++ t.text ++ (offset.map Offset.text).getD ""

end FlashImage.Toml
