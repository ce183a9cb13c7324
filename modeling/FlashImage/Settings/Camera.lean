import FlashImage.Record.CameraInfo
import FlashImage.Record.Interface
import FlashImage.Settings.Items

/-!
# Camera settings

The basic information record is set up by the keys `LayoutVersion`,
`VendorName`, `ModelNo`, `DriverVersion` and `Interfaces`, the last of which may
also be called `Interface`.
-/

namespace FlashImage.Settings

/-- Replaces an interface mask by an integer, or adds the interfaces whose names
stand between bars. -/
def applyInterfaces? (mask : UInt32) (value : String) : Option UInt32 :=
  match Literal.word? value with
  | some w => some w
  | none => (Interface.addNamed mask (value.toList.splitOn '|')).toOption

def setCameraItem (s : CameraInfo) (i : Item) : Except SettingsError CameraInfo := do
  match i.key with
  | "layoutversion" => .ok { s with layoutVersion := ← i.word }
  | "vendorname" => .ok { s with vendorName := i.value }
  | "modelno" => .ok { s with modelName := i.value }
  | "driverversion" => .ok { s with driverVersion := i.value }
  | "interfaces" | "interface" =>
      match applyInterfaces? s.interfaces i.value with
      | some interfaces => .ok { s with interfaces }
      | none => .error (.invalidValue i.key i.value)
  | _ => .error (.unknownKey "basic configuration" i.key)

def applyCamera (s : CameraInfo) (input : String) : Except SettingsError Unit × CameraInfo :=
  applyWith setCameraItem s input

end FlashImage.Settings
