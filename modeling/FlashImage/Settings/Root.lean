import FlashImage.Layout.Cursor
import FlashImage.Settings.Items

/-!
# Root image settings

The header of a root image is set up by the keys `LayoutVersion`,
`UpdateCount`, `ControlField`, `StartOfDirectory` and `UIDOfFirmwareToBoot`.
What follows from the build, such as the size of the directory, cannot be set.
-/

namespace FlashImage.Settings

/-- The bit of the control field that is clear when the configuration is valid. -/
def configValidBit : UInt32 := 0x1

/-- The bit of the control field that is clear when the checksum is valid. -/
def crcValidBit : UInt32 := 0x2

/-- Replaces the control field by an integer, or sets or clears one of its bits
by the name of a flag. -/
def applyControlFlag? (controlField : UInt32) (value : String) : Option UInt32 :=
  match Literal.word? value with
  | some w => some w
  | none =>
      match String.ofList (Text.lower (Text.trim value.toList)) with
      | "config-valid" => some (controlField &&& ~~~configValidBit)
      | "config-not-valid" => some (controlField ||| configValidBit)
      | "crc-valid" => some (controlField &&& ~~~crcValidBit)
      | "crc-not-valid" => some (controlField ||| crcValidBit)
      | _ => none

/-- Applies one item to the settings of a root image. -/
def setRootItem (s : LayoutSettings) (i : Item) : Except SettingsError LayoutSettings := do
  match i.key with
  | "layoutversion" => .ok { s with layoutVersion := ← i.word }
  | "updatecount" => .ok { s with updateCount := ← i.word }
  | "controlfield" =>
      match applyControlFlag? s.controlField i.value with
      | some controlField => .ok { s with controlField }
      | none => .error (.invalidValue i.key i.value)
  | "startofdirectory" => .ok { s with startOfDirectory := some (← i.word) }
  | "uidoffirmwaretoboot" => .ok { s with bootIdentifier := some (← i.word) }
  | _ => .error (.unknownKey "rfs configuration" i.key)

/-- Applies a settings string to the settings of a root image. -/
def applyRoot (s : LayoutSettings) (input : String) : Except SettingsError Unit × LayoutSettings :=
  applyWith setRootItem s input

end FlashImage.Settings
