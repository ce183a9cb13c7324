import FlashImage.Toml.DateTable
import FlashImage.Toml.Entries
import FlashImage.Toml.Number
import FlashImage.Toml.Quoted.Reading

/-!
# Reading documents

Text is read from the front: each reader takes what it is for off a list of
characters and returns it with the rest.  Where readers call each other, a number
that bounds how often they do so is passed down; the length of the text is
enough.  A second number is how many brackets and braces may still be opened
inside each other.

* `statements?` reads the lines of a document;
* `parse?` reads a document.

A byte order mark at the start is passed over, and a carriage return may stand
in front of a line feed only, which it then belongs to.
-/

namespace FlashImage.Toml

open Quoted (isGap isLineChar)

def dropGaps (s : List Char) : List Char :=
  s.dropWhile isGap

/-- Whether a character may stand in a key without quotes. -/
def isBareChar (c : Char) : Bool :=
  c.isAlphanum || c == '-' || c == '_'

/-- Whether a character may stand in a value without quotes. -/
def isScalarChar (c : Char) : Bool :=
  isBareChar c || c == '+' || c == '.' || c == ':'

/-- Passes over blanks, line breaks and comments; `comment` tells whether the
text begins inside a comment. -/
def dropLayout (comment : Bool) : List Char → Option (List Char)
  | [] => some []
  | c :: r =>
      if c = '\n' then dropLayout false r
      else if comment then if isLineChar c then dropLayout true r else none
      else if c = '#' then dropLayout true r
      else if isGap c then dropLayout false r
      else some (c :: r)

/-- Passes over the end of a line, which may hold blanks and a comment. -/
def endLine? (s : List Char) : Option (List Char) :=
  match dropGaps s with
  | [] => some []
  | '\n' :: r => some r
  | '#' :: r =>
      if (r.takeWhile (· != '\n')).all isLineChar then some ((r.dropWhile (· != '\n')).drop 1)
      else none
  | _ => none

def key? (s : List Char) : Option (String × List Char) :=
  match s.takeWhile isBareChar with
  | [] => (Quoted.line? s).map fun (name, rest) => (String.ofList name, rest)
  | name => some (String.ofList name, s.dropWhile isBareChar)

/-- The number of brackets and braces that may be open at once. -/
def maxDepth : Nat := 79

/-- The number of keys that may be joined by dots. -/
def maxKeys : Nat := 79

/-- Reads at most the given number of keys with dots between them, and the blanks
around them. -/
def keysUpTo? : Nat → List Char → Option (KeyPath × List Char)
  | 0, _ => none
  | n + 1, s => do
      let (key, r) ← key? (dropGaps s)
      match dropGaps r with
      | '.' :: r => do
          let (path, r) ← keysUpTo? n r
          some (⟨key :: path.parents, path.last⟩, r)
      | r => some (⟨[], key⟩, r)

/-- Reads the keys that lead to an entry or a table. -/
def keyPath? (s : List Char) : Option (KeyPath × List Char) :=
  keysUpTo? maxKeys s

def scalar? (s : List Char) : Option Value :=
  if s = ['t', 'r', 'u', 'e'] then some (.boolean true)
  else if s = ['f', 'a', 'l', 's', 'e'] then some (.boolean false)
  else
    match integer? s, DateTime.parse? s with
    | some n, _ => some (.integer n)
    | none, some d => some (.dateTime d)
    | none, none => if isFloat s then some (.float (String.ofList s)) else none

def isDate (s : List Char) : Bool :=
  match Date.read? s with
  | some (_, []) => true
  | _ => false

def beginsTime : List Char → Bool
  | a :: b :: ':' :: _ => a.isDigit && b.isDigit
  | _ => false

/-- Reads a value without quotes.  One blank may stand between a date and a
time. -/
def readScalar? (s : List Char) : Option (Value × List Char) :=
  let word := s.takeWhile isScalarChar
  match s.dropWhile isScalarChar with
  | ' ' :: r =>
      if isDate word && beginsTime r then
        (scalar? (word ++ ' ' :: r.takeWhile isScalarChar)).map fun v =>
          (v, r.dropWhile isScalarChar)
      else (scalar? word).map fun v => (v, ' ' :: r)
  | r => (scalar? word).map fun v => (v, r)

mutual

def value? : Nat → Nat → List Char → Option (Value × List Char)
  | 0, _, _ => none
  | n + 1, depth, s =>
      match s, depth with
      | '[' :: r, depth + 1 => (items? n depth r).map fun (items, r) => (.array .listed items, r)
      | '{' :: r, depth + 1 =>
          match dropGaps r with
          | '}' :: r => some (.table .inline [], r)
          | r => do
              let (pairs, r) ← pairs? n depth r
              some (.table .inline (← Entries.ofPairs? pairs), r)
      | '"' :: _, _ => (Quoted.read? s).map fun (text, r) => (.string (String.ofList text), r)
      | '\'' :: _, _ => (Quoted.read? s).map fun (text, r) => (.string (String.ofList text), r)
      | _, _ => readScalar? s

/-- Reads the items of an array up to its bracket.  A comma may stand behind the
last of them. -/
def items? : Nat → Nat → List Char → Option (List Value × List Char)
  | 0, _, _ => none
  | n + 1, depth, s => do
      match ← dropLayout false s with
      | ']' :: r => some ([], r)
      | r =>
          let (v, r) ← value? n depth r
          match ← dropLayout false r with
          | ',' :: r => (items? n depth r).map fun (vs, r) => (v :: vs, r)
          | ']' :: r => some ([v], r)
          | _ => none

/-- Reads the pairs of a table in braces up to its brace. -/
def pairs? : Nat → Nat → List Char → Option (List (KeyPath × Value) × List Char)
  | 0, _, _ => none
  | n + 1, depth, s => do
      match ← keyPath? s with
      | (path, '=' :: r) =>
          let (v, r) ← value? n depth (dropGaps r)
          match dropGaps r with
          | ',' :: r => (pairs? n depth r).map fun (ps, r) => ((path, v) :: ps, r)
          | '}' :: r => some ([(path, v)], r)
          | _ => none
      | _ => none

end

def statement? (n : Nat) : List Char → Option (Statement × List Char)
  | '[' :: '[' :: r => do
      match ← keyPath? r with
      | (path, ']' :: ']' :: r) => some (.element path, ← endLine? r)
      | _ => none
  | '[' :: r => do
      match ← keyPath? r with
      | (path, ']' :: r) => some (.table path, ← endLine? r)
      | _ => none
  | r => do
      match ← keyPath? r with
      | (path, '=' :: r) =>
          let (v, r) ← value? n maxDepth (dropGaps r)
          some (.entry path v, ← endLine? r)
      | _ => none

def statements? : Nat → List Char → Option (List Statement)
  | 0, _ => none
  | n + 1, s => do
      match ← dropLayout false s with
      | [] => some []
      | r =>
          let (statement, r) ← statement? n r
          (statements? n r).map (statement :: ·)

/-- The text with plain line breaks: a carriage return in front of a line feed is
dropped, and any other spoils the text. -/
def plainBreaks? : List Char → Option (List Char)
  | [] => some []
  | '\x0D' :: '\n' :: r => (plainBreaks? r).map ('\n' :: ·)
  | c :: r => if c = '\x0D' then none else (plainBreaks? r).map (c :: ·)

/-- The text without a byte order mark at its start. -/
def dropMark : List Char → List Char
  | '\uFEFF' :: r => r
  | r => r

/-- Reads a document.  One that spells a date as a whole has no entries to offer. -/
def parse? (text : String) : Option Entries := do
  let s ← plainBreaks? (dropMark text.toList)
  let entries ← Entries.ofStatements? (← statements? (s.length + 1) s)
  match ← (Value.table .header entries).resolveDates? with
  | .table _ entries => some entries
  | _ => none

end FlashImage.Toml
