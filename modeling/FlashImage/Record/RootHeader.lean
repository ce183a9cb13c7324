import FlashImage.Record.DirectoryEntry

/-!
# Root headers

A root image begins with forty bytes: ten words that say where the directory
lies, how often it is repeated and which module boots.  The checksum word is
reserved; it is always written as zero.
-/

namespace FlashImage

/-- The configuration header at the start of a root image. -/
structure RootHeader where
  signature : UInt32 := 0x4343534C
  layoutVersion : UInt32 := 1
  updateCount : UInt32 := 1
  /-- Reserved: written as zero whatever it holds. -/
  crc : UInt32 := 0
  controlField : UInt32 := 0xFFFFFFFE
  startOfDirectory : UInt32 := 0
  sizeOfDirectory : UInt32 := 0
  directoryCopyCount : UInt32 := 1
  directoryEntrySize : UInt32 := 12
  bootIdentifier : UInt32 := 0x1001
  deriving DecidableEq, Repr

namespace RootHeader

/-- The word that every root image begins with: the letters `LSCC`. -/
def magic : UInt32 := 0x4343534C

def width : Nat := 40

def encode (h : RootHeader) : Bytes :=
  [h.signature, h.layoutVersion, h.updateCount, 0, h.controlField, h.startOfDirectory,
    h.sizeOfDirectory, h.directoryCopyCount, h.directoryEntrySize, h.bootIdentifier].flatMap
    Word.encode

/-- The header in the first forty bytes, if there are so many. -/
def decode? (d : Bytes) : Option RootHeader := do
  let (signature, d) ← Word.read? d
  let (layoutVersion, d) ← Word.read? d
  let (updateCount, d) ← Word.read? d
  let (crc, d) ← Word.read? d
  let (controlField, d) ← Word.read? d
  let (startOfDirectory, d) ← Word.read? d
  let (sizeOfDirectory, d) ← Word.read? d
  let (directoryCopyCount, d) ← Word.read? d
  let (directoryEntrySize, d) ← Word.read? d
  let (bootIdentifier, _) ← Word.read? d
  some { signature, layoutVersion, updateCount, crc, controlField, startOfDirectory,
         sizeOfDirectory, directoryCopyCount, directoryEntrySize, bootIdentifier }

end RootHeader

end FlashImage
