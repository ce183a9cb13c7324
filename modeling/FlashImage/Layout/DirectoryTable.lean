import FlashImage.Record.DirectoryEntry
import FlashImage.Text.Digits

/-!
# Directory tables

A directory lists its entries in the order in which they were added, with
distinct identifiers.  One identifier may be pinned: its entry is written
first, and the others keep their order.
-/

namespace FlashImage

/-- An identifier was added twice. -/
structure DuplicateIdentifier where
  identifier : UInt32
  deriving DecidableEq, Repr

def DuplicateIdentifier.message (e : DuplicateIdentifier) : String :=
  "Identifier " ++ Text.hex 4 e.identifier.toNat ++ " is passed multiple times"

/-- The entries of a directory under construction. -/
structure DirectoryTable where
  /-- The entries in the order in which they were added. -/
  entries : List DirectoryEntry := []
  /-- The identifier to be written first. -/
  pinned : Option UInt32 := none
  deriving DecidableEq, Repr

namespace DirectoryTable

def contains (t : DirectoryTable) (identifier : UInt32) : Bool :=
  t.entries.any (·.identifier == identifier)

/-- Adds an entry behind the others, unless its identifier is taken. -/
def add (t : DirectoryTable) (e : DirectoryEntry) : Except DuplicateIdentifier DirectoryTable :=
  if t.contains e.identifier then .error ⟨e.identifier⟩
  else .ok { t with entries := t.entries ++ [e] }

/-- Pins an identifier, or none; the entries stay as they are. -/
def pin (t : DirectoryTable) (identifier : Option UInt32) : DirectoryTable :=
  { t with pinned := identifier }

def size (t : DirectoryTable) : Nat :=
  t.entries.length

def byteSize (t : DirectoryTable) : Nat :=
  t.size * DirectoryEntry.width

/-- The entries in the order in which they are written. -/
def ordered (t : DirectoryTable) : List DirectoryEntry :=
  match t.pinned with
  | none => t.entries
  | some identifier =>
      match t.entries.find? (·.identifier == identifier) with
      | none => t.entries
      | some e => e :: t.entries.eraseP (·.identifier == identifier)

def encode (t : DirectoryTable) : Bytes :=
  t.ordered.flatMap DirectoryEntry.encode

end DirectoryTable

end FlashImage
