import FlashImage.Camera.CommandTable
import FlashImage.Image
import FlashImage.Layout.Category
import FlashImage.Record.CameraInfo
import FlashImage.Record.RootHeader
import FlashImage.Text.Digits

/-!
# Inspecting images

A finished file is decoded and every payload digested, by a function that the caller
chooses.  A file that begins with the magic word of root images is one; any other file is
taken for a camera configuration.

A camera configuration does not say how long its directory is: the basic
information record comes first and stands right behind the directory, so the
offset of the first entry tells.
-/

namespace FlashImage

/-- Why a file cannot be decoded. -/
inductive InspectError where
  /-- The file is too short for a record. -/
  | truncated (offset needed available : Nat)
  | badSignature (found : UInt32)
  /-- A directory does not consist of whole entries. -/
  | raggedDirectory (size entrySize : UInt32)
  /-- An entry points past the end of the file. -/
  | entryOutOfBounds (identifier : UInt32) (offset : Nat) (size : UInt32) (available : Nat)
  deriving DecidableEq, Repr

def InspectError.message : InspectError → String
  | truncated offset needed available =>
      "Image truncated: need " ++ toString needed ++ " bytes at offset " ++ Text.hex 0 offset ++
        ", have " ++ toString available
  | badSignature found =>
      "Invalid signature: expected " ++ Text.hex 8 RootHeader.magic.toNat ++ ", found " ++
        Text.hex 8 found.toNat
  | raggedDirectory size entrySize =>
      "Directory size " ++ toString size.toNat ++ " is not a multiple of " ++
        toString entrySize.toNat
  | entryOutOfBounds identifier offset size available =>
      "Entry " ++ Text.hex 4 identifier.toNat ++ " spans " ++ Text.hex 0 offset ++ "+" ++
        toString size.toNat ++ " past the end of the file (" ++ toString available ++ " bytes)"

/-- One decoded directory entry. -/
structure InspectedEntry where
  identifier : UInt32
  /-- The category or the command name, when it is known. -/
  kind : Option String
  /-- The offset as the directory has it. -/
  offset : UInt32
  /-- The offset from the start of the file. -/
  absoluteOffset : Nat
  size : UInt32
  /-- The digest of the payload. -/
  sha256 : String
  deriving DecidableEq, Repr

/-- A decoded root image. -/
structure RootInspection where
  header : RootHeader
  entries : List InspectedEntry
  deriving DecidableEq, Repr

/-- A decoded camera configuration. -/
structure CameraInspection where
  info : CameraInfo
  entries : List InspectedEntry
  deriving DecidableEq, Repr

/-- A decoded file of either kind. -/
inductive Inspection where
  | root (inspection : RootInspection)
  | camera (inspection : CameraInspection)
  deriving DecidableEq, Repr

namespace Inspect

/-- A range of bytes that must lie inside the file. -/
def slice (img : Image) (offset needed : Nat) : Except InspectError Bytes :=
  match img.read? offset needed with
  | some bytes => .ok bytes
  | none => .error (.truncated offset needed img.size)

/-- A record that must lie inside the file. -/
def record {α : Type} (decode? : Bytes → Option α) (img : Image) (offset width : Nat) :
    Except InspectError α := do
  match decode? (← slice img offset width) with
  | some r => .ok r
  | none => .error (.truncated offset width img.size)

def readDirectory (img : Image) (offset : Nat) (size : UInt32) :
    Except InspectError (List DirectoryEntry) := do
  if size.toNat % DirectoryEntry.width ≠ 0 then
    .error (.raggedDirectory size (UInt32.ofNat DirectoryEntry.width))
  else
    let bytes ← slice img offset size.toNat
    .ok (DirectoryEntry.decodeMany (size.toNat / DirectoryEntry.width) bytes)

/-- Decodes one entry, whose offset counts from `base`, and digests its payload. -/
def digestEntry (digest : Bytes → String) (img : Image) (base : Nat)
    (kind : UInt32 → Option String) (e : DirectoryEntry) : Except InspectError InspectedEntry :=
  let start := base + e.offset.toNat
  match img.read? start e.size.toNat with
  | some payload =>
      .ok { identifier := e.identifier, kind := kind e.identifier, offset := e.offset,
            absoluteOffset := start, size := e.size, sha256 := digest payload }
  | none => .error (.entryOutOfBounds e.identifier start e.size img.size)

def moduleKind (identifier : UInt32) : Option String :=
  (ModuleCategory.classify? identifier).map (·.label)

def inspectRoot (digest : Bytes → String) (img : Image) : Except InspectError RootInspection := do
  let header ← record RootHeader.decode? img 0 RootHeader.width
  if header.signature ≠ RootHeader.magic then .error (.badSignature header.signature)
  else if header.directoryEntrySize.toNat ≠ DirectoryEntry.width then
    .error (.raggedDirectory header.sizeOfDirectory header.directoryEntrySize)
  else
    let base := header.startOfDirectory.toNat
    let directory ← readDirectory img base header.sizeOfDirectory
    let entries ← directory.mapM (digestEntry digest img base moduleKind)
    .ok { header, entries }

def inspectCamera (digest : Bytes → String) (img : Image) :
    Except InspectError CameraInspection := do
  let first ← record DirectoryEntry.decode? img 0 DirectoryEntry.width
  let directory ← readDirectory img 0 first.offset
  let info ← record CameraInfo.decode? img first.offset.toNat CameraInfo.width
  let entries ← directory.mapM (digestEntry digest img 0 Command.name?)
  .ok { info, entries }

/-- Whether a file begins with the magic word of root images. -/
def isRoot (img : Image) : Bool :=
  img.read? 0 Word.width == some (Word.encode RootHeader.magic)

def inspect (digest : Bytes → String) (img : Image) : Except InspectError Inspection :=
  if isRoot img then .root <$> inspectRoot digest img else .camera <$> inspectCamera digest img

end Inspect

end FlashImage
