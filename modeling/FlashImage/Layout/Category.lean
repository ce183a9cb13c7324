/-!
# Module categories

Each module of a root image belongs to one of five categories, and each
category owns a range of identifiers.  The ranges are disjoint, so that the
identifier alone tells the category.
-/

namespace FlashImage

/-- The category a module is added under. -/
inductive ModuleCategory where
  | firmware
  | ml
  | cameraConfig
  | appProfile
  /-- Application data, whose size is a multiple of four bytes. -/
  | appData
  deriving DecidableEq, Repr

namespace ModuleCategory

/-- The categories in the order in which modules given as flags are laid out. -/
def layoutOrder : List ModuleCategory :=
  [ml, appProfile, appData, firmware, cameraConfig]

def range : ModuleCategory → UInt32 × UInt32
  | firmware => (0x1001, 0x1FFE)
  | ml => (0x2001, 0x2FFF)
  | cameraConfig => (0x3001, 0x3FFF)
  | appProfile => (0x4001, 0x4FFF)
  | appData => (0x5001, 0x5FFF)

/-- The name of a category in messages and reports. -/
def label : ModuleCategory → String
  | firmware => "GARD FW"
  | ml => "ML"
  | cameraConfig => "Camera Configuration"
  | appProfile => "App Profile"
  | appData => "App Data"

/-- The name of a category in manifests. -/
def name : ModuleCategory → String
  | firmware => "firmware"
  | ml => "ml"
  | cameraConfig => "camera-config"
  | appProfile => "app-profile"
  | appData => "app-data"

/-- The category that a manifest calls by the given name. -/
def named? : String → Option ModuleCategory
  | "firmware" => some firmware
  | "gard" => some firmware
  | "ml" => some ml
  | "camera-config" => some cameraConfig
  | "camera" => some cameraConfig
  | "app-profile" => some appProfile
  | "app-data" => some appData
  | _ => none

/-- Whether an identifier lies in the range of a category. -/
def contains (c : ModuleCategory) (identifier : UInt32) : Bool :=
  c.range.1 ≤ identifier && identifier ≤ c.range.2

/-- The category whose range holds an identifier. -/
def classify? (identifier : UInt32) : Option ModuleCategory :=
  layoutOrder.find? (·.contains identifier)

end ModuleCategory

end FlashImage
