import FlashImage.Bytes.Word

/-!
# Images

An image is a byte string that is written out of order.  Offsets that nothing
has been written to read as zero, and the image is as long as its last written
byte asks for: writing no bytes does not extend it, wherever it happens.

An image is kept as the list of its writes, so that four gigabytes with a few
records in them take little room.

* `Image.byteAt` and `Image.size` are the two views of an image;
* `Image.write` puts bytes at an offset;
* `Image.read` takes a range of bytes out.
-/

namespace FlashImage

/-- A run of bytes at an offset. -/
structure Segment where
  offset : Nat
  bytes : Array UInt8
  deriving DecidableEq, Repr

namespace Segment

/-- The offset behind the last byte of a run. -/
def stop (s : Segment) : Nat :=
  s.offset + s.bytes.size

/-- Whether the run holds the byte at an offset. -/
def covers (s : Segment) (i : Nat) : Bool :=
  s.offset ≤ i && i < s.stop

/-- Whether the run shares an offset with the range of `n` bytes from `start`. -/
def meets (s : Segment) (start n : Nat) : Bool :=
  s.offset < start + n && start < s.stop

end Segment

/-- A byte string written in runs; no run is empty. -/
structure Image where
  /-- The runs, the latest first: it hides the earlier ones under it. -/
  segments : List Segment := []
  deriving DecidableEq, Repr

namespace Image

def empty : Image := {}

def write (img : Image) (offset : Nat) (bytes : Bytes) : Image :=
  if bytes.isEmpty then img else ⟨⟨offset, bytes.toArray⟩ :: img.segments⟩

/-- The number of bytes of the image. -/
def size (img : Image) : Nat :=
  img.segments.foldr (fun s n => max s.stop n) 0

/-- The byte at an offset: the latest one written there, else zero. -/
def byteAt (img : Image) (i : Nat) : UInt8 :=
  match img.segments.find? (·.covers i) with
  | some s => s.bytes.getD (i - s.offset) 0
  | none => 0

/-- The part of the image that bears on a range. -/
def near (img : Image) (offset n : Nat) : Image :=
  ⟨img.segments.filter (·.meets offset n)⟩

def read (img : Image) (offset n : Nat) : Bytes :=
  let part := img.near offset n
  (List.range n).map fun i => part.byteAt (offset + i)

/-- The `n` bytes from an offset, if the image reaches so far. -/
def read? (img : Image) (offset n : Nat) : Option Bytes :=
  if offset + n ≤ img.size then some (img.read offset n) else none

def ofBytes (d : Bytes) : Image :=
  empty.write 0 d

def toBytes (img : Image) : Bytes :=
  img.read 0 img.size

end Image

end FlashImage
