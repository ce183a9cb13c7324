import FlashImage.Bytes.Word
import FlashImage.Script.Record

/-!
# Command blobs

The camera driver consumes a script as a blob.  Adjacent rows of one length
form a group, which is written as the number of rows, their length in one byte
and the rows; a special record is written as a marker, its selector and its
bytes.

The encoder goes through the records once.  A row waits until its group is
complete, which a row of another length, a special record or the end of the
script tells; only then is its length looked at.

* `Script.encode` is the blob, or the first row that is too long for it;
* `Script.groups` cuts the records into special records and maximal runs of
  rows of one length.
-/

namespace FlashImage.Script

/-- Whether two adjacent records belong to one group. -/
def joins (a b : Line) : Bool :=
  match a.record, b.record with
  | .row r, .row s => r.length == s.length
  | _, _ => false

def groups (lines : List Line) : List (List Line) :=
  lines.splitBy joins

/-- The bytes that open a special record. -/
def specialMarker : Bytes :=
  [0xFF, 0xFF, 0xFF, 0xFF, 0x04]

/-- The bytes of a row; a special record has none. -/
def Line.rowBytes (l : Line) : Bytes :=
  match l.record with
  | .row bytes => bytes
  | .special .. => []

/-- The first row of a script that does not fit in one length byte. -/
def tooLong? (lines : List Line) : Option (Nat × Nat) :=
  lines.findSome? fun l =>
    if l.rowBytes.length > 255 then some (l.number, l.rowBytes.length) else none

/-- A row is too long: its line and the number of its bytes. -/
structure RowTooLong where
  line : Nat
  length : Nat
  deriving DecidableEq, Repr

/-- A row that waits for its group to be complete. -/
structure PendingRow where
  number : Nat
  bytes : Bytes
  deriving DecidableEq, Repr

/-- The bytes of a row in a given number: cut off, or filled up with zeros. -/
def PendingRow.resized (row : PendingRow) (width : Nat) : Bytes :=
  row.bytes.take width ++ List.replicate (width - row.bytes.length) 0

/-- What has been written, and the rows of the group that is not complete. -/
structure Encoder where
  out : Array UInt8 := #[]
  pending : Array PendingRow := #[]
  deriving DecidableEq, Repr

namespace Encoder

/-- Writes the pending rows as one group.  The first of them gives the length
that all are brought to. -/
def flush (e : Encoder) : Except RowTooLong Encoder :=
  match e.pending[0]? with
  | none => .ok e
  | some first =>
      let width := first.bytes.length
      if width ≤ 255 then
        let rows := e.pending.toList.flatMap (·.resized width)
        .ok { out := e.out ++
                (Word.encode (UInt32.ofNat e.pending.size) ++ [UInt8.ofNat width] ++ rows) }
      else .error ⟨first.number, width⟩

/-- Completes the group unless a row of the given length belongs to it. -/
def makeRoom (e : Encoder) (width : Nat) : Except RowTooLong Encoder :=
  match e.pending[0]? with
  | none => .ok e
  | some first => if first.bytes.length = width then .ok e else e.flush

def push (e : Encoder) (l : Line) : Except RowTooLong Encoder := do
  match l.record with
  | .row bytes =>
      let e ← e.makeRoom bytes.length
      .ok { e with pending := e.pending.push ⟨l.number, bytes⟩ }
  | .special selector payload =>
      let e ← e.flush
      .ok { e with out := e.out ++ (specialMarker ++ Word.encode selector ++ payload) }

end Encoder

def encode (lines : List Line) : Except RowTooLong Bytes := do
  let e ← lines.foldlM Encoder.push {}
  let e ← e.flush
  .ok e.out.toList

end FlashImage.Script
