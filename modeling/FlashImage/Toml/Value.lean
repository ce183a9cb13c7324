import FlashImage.Toml.DateTime

/-!
# Values of a document

A document is a tree of tables, arrays and scalars.  A table remembers how it
was opened, because that decides how later lines may add to it.
-/

namespace FlashImage.Toml

/-- How a table was opened. -/
inductive TableForm where
  /-- Written in braces, and complete. -/
  | inline
  /-- Opened by its own header. -/
  | header
  /-- Known only as a parent in a header. -/
  | implied
  /-- Opened by a dotted key. -/
  | dotted
  deriving DecidableEq, Repr

/-- How an array was written. -/
inductive ArrayForm where
  /-- Written in brackets, and complete. -/
  | listed
  /-- Made of tables that each have a header in double brackets. -/
  | headers
  deriving DecidableEq, Repr

/-- A value of a document. -/
inductive Value where
  | string (text : String)
  | integer (n : Int)
  /-- A floating-point number, kept as it was written. -/
  | float (text : String)
  | boolean (b : Bool)
  | dateTime (d : DateTime)
  | array (form : ArrayForm) (items : List Value)
  | table (form : TableForm) (entries : List (String × Value))
  deriving Repr

/-- The entries of a table, in the order in which they were written. -/
abbrev Entries := List (String × Value)

mutual

/-- The value with a function applied to every string in it.  Keys are left
alone. -/
def Value.mapStrings (f : String → String) : Value → Value
  | .string text => .string (f text)
  | .array form items => .array form (mapStringsOfItems f items)
  | .table form entries => .table form (mapStringsOfEntries f entries)
  | v => v

/-- The items with a function applied to every string in them. -/
def mapStringsOfItems (f : String → String) : List Value → List Value
  | [] => []
  | v :: vs => v.mapStrings f :: mapStringsOfItems f vs

/-- The entries with a function applied to every string in their values. -/
def mapStringsOfEntries (f : String → String) : List (String × Value) → List (String × Value)
  | [] => []
  | (k, v) :: es => (k, v.mapStrings f) :: mapStringsOfEntries f es

end

mutual

/-- All strings in a value, in order.  Keys are left out. -/
def Value.strings : Value → List String
  | .string text => [text]
  | .array _ items => stringsOfItems items
  | .table _ entries => stringsOfEntries entries
  | _ => []

def stringsOfItems : List Value → List String
  | [] => []
  | v :: vs => v.strings ++ stringsOfItems vs

def stringsOfEntries : List (String × Value) → List String
  | [] => []
  | (_, v) :: es => v.strings ++ stringsOfEntries es

end

/-- The text of a string, or of a date or time, which may stand for one. -/
def Value.text? : Value → Option String
  | .string text => some text
  | .dateTime d => some d.text
  | _ => none

/-- The value of an integer that fits in 32 bits. -/
def Value.word? : Value → Option UInt32
  | .integer n => if 0 ≤ n ∧ n < 0x100000000 then some (UInt32.ofNat n.toNat) else none
  | _ => none

def Value.items? : Value → Option (List Value)
  | .array _ items => some items
  | _ => none

end FlashImage.Toml
