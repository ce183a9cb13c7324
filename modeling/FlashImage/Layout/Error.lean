import FlashImage.Bytes.Native
import FlashImage.Files.Error
import FlashImage.Layout.Category
import FlashImage.Layout.DirectoryTable
import FlashImage.Medium

/-!
# Layout errors

Why a root image cannot be laid out, and how that is told.
-/

namespace FlashImage

/-- An alignment rule that does not hold. -/
inductive AlignmentFault where
  | notPowerOfTwo (alignment : UInt32)
  | unalignedDirectory (start alignment : UInt64)
  | directoryInConfiguration (start alignment : UInt64)
  | directoryInHeader (start : UInt64)
  | raggedAppData (identifier : UInt32) (size : Nat)
  deriving DecidableEq, Repr

def AlignmentFault.message : AlignmentFault → String
  | notPowerOfTwo alignment =>
      "alignment " ++ Text.hex 0 alignment.toNat ++ " is not a power of two"
  | unalignedDirectory start alignment =>
      "start of directory " ++ Text.hex 0 start.toNat ++ " is not a multiple of " ++
        Text.hex 0 alignment.toNat
  | directoryInConfiguration start alignment =>
      "start of directory " ++ Text.hex 0 start.toNat ++
        " overlaps the configuration region ending at " ++ Text.hex 0 alignment.toNat
  | directoryInHeader start =>
      "directory base " ++ Text.hex 0 start.toNat ++ " is inside the 40-byte header"
  | raggedAppData identifier size =>
      "App Data " ++ Text.hex 4 identifier.toNat ++ " is " ++ toString size ++
        " bytes, not a multiple of 4"

/-- Why a root image cannot be laid out. -/
inductive LayoutError where
  /-- An identifier lies outside the range of its category. -/
  | outOfRange (category : ModuleCategory) (identifier : UInt32)
  | misaligned (fault : AlignmentFault)
  /-- The file of a module is not there. -/
  | missingInput (category : ModuleCategory) (path : NativeText)
  | noDirectoryCopies (copies : UInt32)
  /-- The directory does not fit between two of its copies. -/
  | directoryTooLarge (size : Nat) (alignment : UInt32)
  /-- A module would reach past 32-bit offsets. -/
  | beyondAddressSpace (offset : UInt64)
  | duplicate (error : DuplicateIdentifier)
  | unreadable (path : NativeText) (error : FileError)
  | unwritable (fault : WriteFault)
  deriving DecidableEq, Repr

namespace LayoutError

def message : LayoutError → String
  | outOfRange category identifier =>
      "Invalid " ++ category.label ++ " ID " ++ Text.hex 4 identifier.toNat ++
        ". Valid range is " ++ Text.hex 4 category.range.1.toNat ++ " to " ++
        Text.hex 4 category.range.2.toNat
  | misaligned fault => "Alignment violation: " ++ fault.message
  | missingInput category path => category.label ++ " file '" ++ path.display ++ "' does not exist"
  | noDirectoryCopies copies =>
      "Number of directory copies " ++ toString copies.toNat ++ " is less than 1"
  | directoryTooLarge size alignment =>
      "Directory of " ++ toString size ++ " bytes does not fit in a " ++
        Text.hex 0 alignment.toNat ++ " byte region"
  | beyondAddressSpace offset =>
      "Module at offset " ++ Text.hex 0 offset.toNat ++
        " exceeds the 32-bit flash address space"
  | duplicate error => error.message
  | unreadable path error => "Failed to read module '" ++ path.display ++ "': " ++ error.message
  | unwritable fault => "Failed to write image: " ++ fault.message

/-- The texts of what lies behind the error, nearest first. -/
def causes : LayoutError → List String
  | unreadable _ error => [error.message]
  | unwritable fault => [fault.message]
  | _ => []

end LayoutError

def ModuleCategory.validate (c : ModuleCategory) (identifier : UInt32) :
    Except LayoutError Unit :=
  if c.contains identifier then .ok () else .error (.outOfRange c identifier)

end FlashImage
