import FlashImage.Bytes.Word

/-!
# Directory entries

A directory entry is twelve bytes: an identifier, an offset and a size.
-/

namespace FlashImage

/-- Where one payload of a container lies. -/
structure DirectoryEntry where
  identifier : UInt32
  /-- The offset of the payload from the base of the container's directory. -/
  offset : UInt32
  size : UInt32
  deriving DecidableEq, Repr

namespace DirectoryEntry

def width : Nat := 12

def encode (e : DirectoryEntry) : Bytes :=
  Word.encode e.identifier ++ Word.encode e.offset ++ Word.encode e.size

/-- The entry in the first twelve bytes, if there are so many. -/
def decode? (d : Bytes) : Option DirectoryEntry := do
  let (identifier, d) ← Word.read? d
  let (offset, d) ← Word.read? d
  let (size, _) ← Word.read? d
  some ⟨identifier, offset, size⟩

/-- The first `n` entries of a byte string, fewer if it is too short. -/
def decodeMany : Nat → Bytes → List DirectoryEntry
  | 0, _ => []
  | n + 1, d =>
      match decode? d with
      | some e => e :: decodeMany n (d.drop width)
      | none => []

end DirectoryEntry

end FlashImage
