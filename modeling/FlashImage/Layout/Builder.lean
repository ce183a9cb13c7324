import FlashImage.Files.Access
import FlashImage.Layout.Cursor
import FlashImage.Record.RootHeader

/-!
# Building root images

A root image begins with the header.  The copies of the directory follow, one
alignment apart, and behind the last copy come the modules, each on a multiple
of the alignment.  Directory entries count their offsets from the first copy.

Modules are written as they are added; `RootBuilder.finish` writes the header
and the copies of the directory.
-/

namespace FlashImage

/-- Where one module lies. -/
structure ModulePlacement where
  category : ModuleCategory
  identifier : UInt32
  /-- The offset from the start of the image. -/
  offset : UInt64
  /-- The offset from the first copy of the directory. -/
  directoryOffset : UInt32
  size : UInt32
  deriving DecidableEq, Repr

/-- What a finished build reports. -/
structure RootReport where
  header : RootHeader
  alignment : UInt64
  directoryBase : UInt64
  imageSize : UInt64
  modules : List ModulePlacement
  deriving DecidableEq, Repr

/-- A root image under construction. -/
structure RootBuilder where
  medium : Medium
  settings : LayoutSettings
  cursor : Cursor
  directory : DirectoryTable := {}
  /-- The modules in the order in which they were placed. -/
  placements : List ModulePlacement := []
  /-- The end of the furthest write so far. -/
  imageEnd : UInt64 := 0
  deriving DecidableEq, Repr

namespace RootBuilder

def start (medium : Medium) (settings : LayoutSettings) : Except LayoutError RootBuilder := do
  let cursor ← Cursor.ofSettings settings
  .ok { medium, settings, cursor }

/-- Application data comes in multiples of this many bytes. -/
def appDataGranule : Nat := 4

/-- Checks a module before anything is done with it: its identifier must lie in
the range of its category, and application data must not be ragged. -/
def checkModule (category : ModuleCategory) (identifier : UInt32) (size : Nat) :
    Except LayoutError Unit := do
  category.validate identifier
  if category = .appData ∧ size % appDataGranule ≠ 0 then
    .error (.misaligned (.raggedAppData identifier size))

/-- Where the next module would go, if it fits in 32-bit offsets. -/
def allocate (b : RootBuilder) (category : ModuleCategory) (identifier : UInt32) (size : Nat) :
    Except LayoutError ModulePlacement :=
  let offset := b.cursor.nextOffset
  let directoryOffset := offset - b.cursor.directoryBase
  if directoryOffset.toNat < 1 <<< 32 ∧ size < 1 <<< 32 ∧ offset.toNat + size ≤ 1 <<< 32 then
    .ok { category, identifier, offset, directoryOffset := directoryOffset.toUInt32,
          size := UInt32.ofNat size }
  else .error (.beyondAddressSpace offset)

/-- Adds a module.  The identifier is entered into the directory before the
bytes are written, and stays there if they cannot be. -/
def addBytes (b : RootBuilder) (category : ModuleCategory) (identifier : UInt32)
    (bytes : Bytes) : Except LayoutError ModulePlacement × RootBuilder :=
  match checkModule category identifier bytes.length with
  | .error e => (.error e, b)
  | .ok () =>
      match b.allocate category identifier bytes.length with
      | .error e => (.error e, b)
      | .ok p =>
          match b.directory.add ⟨identifier, p.directoryOffset, p.size⟩ with
          | .error e => (.error (.duplicate e), b)
          | .ok directory =>
              match b.medium.write p.offset.toNat bytes with
              -- the identifier is taken although the module is not placed
              | .error fault => (.error (.unwritable fault), { b with directory })
              | .ok medium =>
                  (.ok p,
                   { b with
                     medium, directory
                     cursor := b.cursor.advance p.size.toUInt64
                     placements := b.placements ++ [p]
                     imageEnd := max b.imageEnd (p.offset + p.size.toUInt64) })

def addFile (b : RootBuilder) (files : FileTree) (category : ModuleCategory)
    (identifier : UInt32) (path : NativeText) : Except LayoutError ModulePlacement × RootBuilder :=
  match category.validate identifier with
  | .error e => (.error e, b)
  | .ok () =>
      if files.isFile path then
        match files.read path with
        | .ok bytes => b.addBytes category identifier bytes
        | .error e => (.error (.unreadable path e), b)
      else (.error (.missingInput category path), b)

/-- The boot identifier, if one is set that no module has. -/
def strayBootIdentifier? (b : RootBuilder) : Option UInt32 :=
  b.settings.bootIdentifier.filter fun id => !b.directory.contains id

/-- The bytes of the directory, the boot module first. -/
def directoryBytes (b : RootBuilder) : Bytes :=
  (b.directory.pin b.settings.bootIdentifier).encode

def header (b : RootBuilder) : RootHeader :=
  { layoutVersion := b.settings.layoutVersion
    updateCount := b.settings.updateCount
    controlField := b.settings.controlField
    startOfDirectory := b.cursor.directoryBase.toUInt32
    sizeOfDirectory := UInt32.ofNat b.directoryBytes.length
    directoryCopyCount := b.cursor.directoryCopies
    bootIdentifier := b.settings.bootIdentifier.getD 0x1001 }

/-- Writes one range of bytes and notes how far the image reaches. -/
def write (b : RootBuilder) (offset : UInt64) (bytes : Bytes) : Except LayoutError RootBuilder :=
  match b.medium.write offset.toNat bytes with
  | .error fault => .error (.unwritable fault)
  | .ok medium =>
      .ok { b with medium, imageEnd := max b.imageEnd (offset + UInt64.ofNat bytes.length) }

/-- Writes the copies of the directory from the given one on, `n` of them.
What has been written is returned in any case. -/
def writeCopies (directory : Bytes) (b : RootBuilder) (index : UInt32) :
    Nat → Except LayoutError Unit × RootBuilder
  | 0 => (.ok (), b)
  | n + 1 =>
      match b.write (b.cursor.copyOffset index) directory with
      | .error e => (.error e, b)
      | .ok b => writeCopies directory b (index + 1) n

/-- Writes the header and the copies of the directory, and flushes the medium.  This is
returned in any case, with what has been written to it. -/
def finish (b : RootBuilder) : Except LayoutError RootReport × Medium :=
  let directory := b.directoryBytes
  let base := b.cursor.directoryBase
  if b.cursor.alignment.toNat < directory.length then
    (.error (.directoryTooLarge directory.length b.settings.eraseBlockAlignment), b.medium)
  else if 1 <<< 32 ≤ base.toNat then (.error (.beyondAddressSpace base), b.medium)
  else
    match b.write 0 b.header.encode with
    | .error e => (.error e, b.medium)
    | .ok headed =>
        match writeCopies directory headed 0 b.cursor.directoryCopies.toNat with
        | (.error e, done) => (.error e, done.medium)
        | (.ok (), done) =>
            match done.medium.flush with
            | .error fault => (.error (.unwritable fault), done.medium)
            | .ok medium =>
                (.ok { header := b.header, alignment := b.cursor.alignment, directoryBase := base,
                       imageSize := done.imageEnd, modules := b.placements }, medium)

end RootBuilder

end FlashImage
