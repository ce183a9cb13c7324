import FlashImage.Bytes.Utf8
import FlashImage.Script.Field
import FlashImage.Text.Basic

/-!
# Register scripts

A register script is a text of byte lists, one a line.  Two slashes start a
comment, and fields that are no byte are passed over.  The first byte of a line
tells what the line is: zero drops the line, a byte below `0x80` makes a
register row of the bytes after it, and any other byte makes a special record.

* `Script.parseLine?` reads one line;
* `Script.parse` reads a text, and numbers the lines by its line feeds;
* `Script.ofBytes` reads a file, whose broken characters are left out.
-/

namespace FlashImage.Script

open Text

/-- What one line of a script asks for. -/
inductive Record where
  /-- A register row, without the byte that leads it. -/
  | row (bytes : Bytes)
  /-- A special command. -/
  | special (selector : UInt32) (payload : Bytes)
  deriving DecidableEq, Repr

/-- A record and the number of the line that it stands on, counted from one. -/
structure Line where
  number : Nat
  record : Record
  deriving DecidableEq, Repr

/-- The part of a line that holds its fields: no comment, no blanks or commas
at the end. -/
def cleanLine (line : List Char) : List Char :=
  trim (dropTrailing ',' (beforeDouble '/' (trim line)))

def parseLine? (line : List Char) : Option Bytes :=
  match ((cleanLine line).splitOn ',').filterMap parseField? with
  | [] => none
  | bytes => some bytes

def recordOf? : Bytes → Option Record
  | [] => none
  | first :: rest =>
      if first = 0 then none
      else if first < 0x80 then some (.row rest)
      else some (.special (first - 0x80).toUInt32 rest)

/-- The lines of a text with their numbers.  A carriage return also ends a line,
but only line feeds are counted. -/
def segments (text : List Char) : List (Nat × List Char) :=
  ((text.splitOn '\n').zipIdx 1).flatMap fun (line, number) =>
    (line.splitOn '\r').map fun part => (number, part)

/-- The record of a numbered line, if it has one. -/
def lineOf? : Nat × List Char → Option Line
  | (number, text) => ((parseLine? text).bind recordOf?).map (Line.mk number)

def parse (text : String) : List Line :=
  (segments text.toList).filterMap lineOf?

def ofBytes (content : Bytes) : List Line :=
  parse (Utf8.decodeValid content)

end FlashImage.Script
