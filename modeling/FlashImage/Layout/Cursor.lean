import FlashImage.Layout.Error

/-!
# Allocation

Modules are placed one behind the other, each on a multiple of the alignment,
behind the copies of the directory.  The arithmetic is that of 64-bit words.

* `LayoutSettings` is what a build is told about the layout and the header;
* `alignUp` rounds an offset up with a bit mask;
* `Cursor.start` checks the layout and places the cursor behind the last copy;
* `Cursor.advance` moves it past a module.
-/

namespace FlashImage

/-- The settings of one root image build. -/
structure LayoutSettings where
  /-- The alignment of modules and of the directory, a power of two. -/
  eraseBlockAlignment : UInt32 := 0x8000
  directoryCopies : UInt32 := 1
  layoutVersion : UInt32 := 1
  updateCount : UInt32 := 1
  controlField : UInt32 := 0xFFFFFFFE
  /-- Where the first directory goes, if not one alignment into the image. -/
  startOfDirectory : Option UInt32 := none
  bootIdentifier : Option UInt32 := none
  deriving DecidableEq, Repr

/-- Rounds an offset up to a multiple of an alignment that is a power of two. -/
def alignUp (value alignment : UInt64) : UInt64 :=
  (value + alignment - 1) &&& ~~~(alignment - 1)

/-- Whether exactly one bit of a word is set. -/
def isPowerOfTwo (w : UInt32) : Bool :=
  w != 0 && w &&& (w - 1) == 0

/-- The allocation state of one build. -/
structure Cursor where
  alignment : UInt64
  directoryCopies : UInt32
  /-- The offset of the first copy of the directory. -/
  directoryBase : UInt64
  /-- The offset of the next module. -/
  nextOffset : UInt64
  deriving DecidableEq, Repr

namespace Cursor

/-- Checks the layout and places the cursor behind the last copy of the directory. -/
def start (alignment directoryCopies : UInt32) (startOfDirectory : Option UInt32) :
    Except LayoutError Cursor :=
  let block := alignment.toUInt64
  let base := (startOfDirectory.map (·.toUInt64)).getD block
  if !isPowerOfTwo alignment then .error (.misaligned (.notPowerOfTwo alignment))
  else if directoryCopies < 1 then .error (.noDirectoryCopies directoryCopies)
  else if base % block ≠ 0 then .error (.misaligned (.unalignedDirectory base block))
  else if base < block then .error (.misaligned (.directoryInConfiguration base block))
  else if base < 40 then .error (.misaligned (.directoryInHeader base))
  else .ok { alignment := block, directoryCopies, directoryBase := base,
             nextOffset := base + block * directoryCopies.toUInt64 }

def ofSettings (s : LayoutSettings) : Except LayoutError Cursor :=
  start s.eraseBlockAlignment s.directoryCopies s.startOfDirectory

def copyOffset (c : Cursor) (index : UInt32) : UInt64 :=
  c.directoryBase + c.alignment * index.toUInt64

/-- Moves past a module of the given size to the next multiple of the alignment. -/
def advance (c : Cursor) (size : UInt64) : Cursor :=
  { c with nextOffset := alignUp (c.nextOffset + size) c.alignment }

end Cursor

end FlashImage
