/-!
# Little-endian words

Every number on flash is a 32-bit word, least significant byte first.

* `Word.encode` is the four bytes of a word;
* `Word.read?` takes a word off the front of a byte string.
-/

namespace FlashImage

abbrev Bytes := List UInt8

namespace Word

def width : Nat := 4

/-- The four bytes of a word, least significant first. -/
def encode (w : UInt32) : Bytes :=
  [UInt8.ofNat w.toNat, UInt8.ofNat (w.toNat / 0x100), UInt8.ofNat (w.toNat / 0x10000),
    UInt8.ofNat (w.toNat / 0x1000000)]

/-- The word in the first four bytes, and the bytes after them. -/
def read? : Bytes → Option (UInt32 × Bytes)
  | a :: b :: c :: d :: rest =>
      let value := a.toNat + 0x100 * b.toNat + 0x10000 * c.toNat + 0x1000000 * d.toNat
      some (UInt32.ofNat value, rest)
  | _ => none

end Word

/-- The first `n` bytes and the bytes after them, if there are so many. -/
def takeBytes? (n : Nat) (d : Bytes) : Option (Bytes × Bytes) :=
  if n ≤ d.length then some (d.take n, d.drop n) else none

end FlashImage
