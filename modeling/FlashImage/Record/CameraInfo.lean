import FlashImage.Bytes.Utf8

/-!
# Camera information

A camera configuration carries one record of sixty bytes about the camera: a
version, three name fields, the number of directory entries and the mask of
the interfaces that the camera offers.

A name is stored in sixteen bytes: at most fifteen bytes of UTF-8, filled up
with zeros, so that a terminator always follows.  A longer name is cut at
fifteen bytes, even inside a character.
-/

namespace FlashImage

namespace NameField

def width : Nat := 16

/-- The sixteen bytes of a name. -/
def encode (name : String) : Bytes :=
  let kept := (Utf8.encode name).take (width - 1)
  kept ++ List.replicate (width - kept.length) 0

/-- The name in front of the first zero byte. -/
def decode (field : Bytes) : String :=
  Utf8.decodeLossy (field.takeWhile (· != 0))

end NameField

/-- The basic information record of a camera configuration. -/
structure CameraInfo where
  layoutVersion : UInt32 := 1
  vendorName : String := "Lattice"
  modelName : String := "Model 1"
  driverVersion : String := "1.0.0"
  /-- The number of entries of the directory that the record is stored behind. -/
  directoryEntryCount : UInt32 := 0
  interfaces : UInt32 := 0
  deriving DecidableEq, Repr

namespace CameraInfo

def width : Nat := 60

def encode (i : CameraInfo) : Bytes :=
  Word.encode i.layoutVersion ++ NameField.encode i.vendorName ++ NameField.encode i.modelName ++
    NameField.encode i.driverVersion ++ Word.encode i.directoryEntryCount ++
    Word.encode i.interfaces

/-- The record in the first sixty bytes, if there are so many. -/
def decode? (d : Bytes) : Option CameraInfo := do
  let (layoutVersion, d) ← Word.read? d
  let (vendor, d) ← takeBytes? NameField.width d
  let (model, d) ← takeBytes? NameField.width d
  let (driver, d) ← takeBytes? NameField.width d
  let (directoryEntryCount, d) ← Word.read? d
  let (interfaces, _) ← Word.read? d
  some { layoutVersion, vendorName := NameField.decode vendor, modelName := NameField.decode model,
         driverVersion := NameField.decode driver, directoryEntryCount, interfaces }

end CameraInfo

end FlashImage
