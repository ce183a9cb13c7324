import FlashImage.Camera.CommandId
import FlashImage.Camera.Source
import FlashImage.Record.CameraInfo

/-!
# Building camera configurations

A camera configuration is a directory and, packed behind it without gaps, the
basic information record and the payloads of the commands in the order in
which they were added.  Offsets count from the start of the file.

Commands are queued first.  `CameraBuilder.finish` then reads the files, writes
the payloads one by one, and writes the directory last, so that a build in which a write
fails leaves no directory behind.
-/

namespace FlashImage

/-- Where the payload of a queued command comes from. -/
inductive Payload where
  | source (source : CommandSource)
  | inline (bytes : Bytes)
  deriving DecidableEq, Repr

/-- The bytes of a payload, which may have to be read from a file. -/
def Payload.load (files : FileTree) : Payload → Except CameraError Bytes
  | source s => s.load files
  | inline bytes => .ok bytes

/-- What a finished build reports. -/
structure CameraReport where
  info : CameraInfo
  directorySize : UInt32
  totalSize : UInt32
  entries : List DirectoryEntry
  deriving DecidableEq, Repr

/-- A camera configuration under construction. -/
structure CameraBuilder where
  medium : Medium := {}
  info : CameraInfo := {}
  /-- The queued commands in the order in which they were added. -/
  commands : List (UInt32 × Payload) := []
  deriving DecidableEq, Repr

namespace CameraBuilder

/-- Whether an identifier is in use; the basic information record always has one. -/
def isTaken (b : CameraBuilder) (identifier : UInt32) : Bool :=
  identifier == Command.basicInfo || b.commands.any (·.1 == identifier)

/-- The number of an identifier that is still free. -/
def reserve (b : CameraBuilder) (id : CommandId) : Except CameraError UInt32 := do
  let identifier ← id.resolve
  if b.isTaken identifier then .error (.duplicate ⟨identifier⟩) else .ok identifier

def enqueue (b : CameraBuilder) (identifier : UInt32) (payload : Payload) : CameraBuilder :=
  { b with commands := b.commands ++ [(identifier, payload)] }

/-- Queues a command whose payload is read from a file in the end. -/
def addSource (b : CameraBuilder) (files : FileTree) (id : CommandId) (source : CommandSource) :
    Except CameraError (UInt32 × CameraBuilder) := do
  let identifier ← b.reserve id
  if files.isFile source.path then .ok (identifier, b.enqueue identifier (.source source))
  else .error (.missingInput source.path)

def addBytes (b : CameraBuilder) (id : CommandId) (bytes : Bytes) :
    Except CameraError (UInt32 × CameraBuilder) := do
  let identifier ← b.reserve id
  .ok (identifier, b.enqueue identifier (.inline bytes))

/-- The number of bytes of the directory: an entry for the basic information
record and one for each command. -/
def directorySize (b : CameraBuilder) : Nat :=
  (1 + b.commands.length) * DirectoryEntry.width

def finalInfo (b : CameraBuilder) : CameraInfo :=
  { b.info with directoryEntryCount := UInt32.ofNat (1 + b.commands.length) }

/-- What has been placed: the medium, the directory so far and the offset of
the next payload. -/
structure Packing where
  medium : Medium
  table : DirectoryTable := {}
  offset : Nat
  deriving DecidableEq, Repr

def Packing.place (p : Packing) (identifier : UInt32) (bytes : Bytes) :
    Except CameraError Packing :=
  let stop := p.offset + bytes.length
  if stop < 1 <<< 32 then
    let entry : DirectoryEntry := ⟨identifier, UInt32.ofNat p.offset, UInt32.ofNat bytes.length⟩
    match p.table.add entry with
    | .error e => .error (.duplicate e)
    | .ok table =>
        match p.medium.write p.offset bytes with
        | .error fault => .error (.unwritable fault)
        | .ok medium => .ok ⟨medium, table, stop⟩
  else .error (.beyondAddressSpace p.offset)

/-- Places payloads in order until one cannot be read or placed.  What has been
placed so far is returned in any case. -/
def Packing.placeAll (p : Packing) (files : FileTree) :
    List (UInt32 × Payload) → Except CameraError Unit × Packing
  | [] => (.ok (), p)
  | (identifier, payload) :: rest =>
      match payload.load files with
      | .error e => (.error e, p)
      | .ok bytes =>
          match p.place identifier bytes with
          | .error e => (.error e, p)
          | .ok p => p.placeAll files rest

/-- All payloads of the build, the basic information record first. -/
def payloads (b : CameraBuilder) : List (UInt32 × Payload) :=
  (Command.basicInfo, .inline b.finalInfo.encode) :: b.commands

def pack (b : CameraBuilder) (files : FileTree) : Except CameraError Unit × Packing :=
  let start : Packing := { medium := b.medium, offset := b.directorySize }
  if b.directorySize < 1 <<< 32 then start.placeAll files b.payloads
  else (.error (.beyondAddressSpace b.directorySize), start)

/-- Writes the directory, if all payloads have been placed, and flushes the medium. -/
def writeDirectory (b : CameraBuilder) : Except CameraError Unit × Packing →
    Except CameraError CameraReport × Medium
  | (.error e, p) => (.error e, p.medium)
  | (.ok (), p) =>
      match p.medium.write 0 p.table.encode with
      | .error fault => (.error (.unwritable fault), p.medium)
      | .ok written =>
          match written.flush with
          | .error fault => (.error (.unwritable fault), written)
          | .ok medium =>
              (.ok { info := b.finalInfo, directorySize := UInt32.ofNat b.directorySize,
                     totalSize := UInt32.ofNat p.offset, entries := p.table.entries }, medium)

/-- Writes the payloads and then the directory.  The medium is returned in any
case, with what has been written to it. -/
def finish (b : CameraBuilder) (files : FileTree) : Except CameraError CameraReport × Medium :=
  b.writeDirectory (b.pack files)

end CameraBuilder

end FlashImage
