import FlashImage.Text.Basic

/-!
# Camera commands

The commands that a camera configuration may hold have names.  A name may be
given with or without the mark `CAM_CFG_CMND_`, with spaces for underscores and
in any case.

* `Command.lookup?` is the identifier of a name;
* `Command.name?` is the first name of an identifier.
-/

namespace FlashImage.Command

def basicInfo : UInt32 := 0x1001

def table : List (String × UInt32) :=
  [("BASIC_CAMERA_CONFIG", basicInfo),
   ("START_STREAM", 0x1011),
   ("STOP_STREAM", 0x1012),
   ("SET_FPS", 0x1013),
   ("WHITE_BALANCE", 0x1014),
   ("SET_EXPOSURE", 0x1015),
   ("SET_AUTO_FOCUS", 0x1016),
   ("SET_GAIN", 0x1016),
   ("SET_CONTRAST", 0x1017),
   ("SET_BRIGHTNESS", 0x1018),
   ("SET_SATURATION", 0x1019),
   ("SET_SHARPNESS", 0x101A),
   ("SET_HUE", 0x101B),
   ("SET_AUTO_EXPOSURE", 0x101C),
   ("SET_AUTO_WHITE_BALANCE", 0x101D),
   ("SET_AUTO_GAIN", 0x101F),
   ("SET_AUTO_BRIGHTNESS", 0x1020),
   ("SET_AUTO_CONTRAST", 0x1021),
   ("SET_AUTO_SATURATION", 0x1022),
   ("SET_AUTO_SHARPNESS", 0x1023),
   ("SET_AUTO_HUE", 0x1024),
   ("LAST_VALID_CMND", 0xEFFF),
   ("DEVELOPER_START", 0xF000),
   ("DEVELOPER_END", 0xFFFF)]

/-- The mark that may stand in front of a command name. -/
def mark : List Char :=
  "CAM_CFG_CMND_".toList

/-- The spelling of a name that the table is searched for: trimmed, with
underscores for spaces and in upper case. -/
def normalize (name : List Char) : List Char :=
  Text.upper ((Text.trim name).map fun c => if c = ' ' then '_' else c)

/-- The name without one mark. -/
def dropMark (name : List Char) : List Char :=
  (mark.isPrefixOf? name).getD name

def lookup? (name : String) : Option UInt32 :=
  let key := dropMark (normalize name.toList)
  (table.find? (·.1.toList == key)).map (·.2)

/-- The first name of a command identifier. -/
def name? (identifier : UInt32) : Option String :=
  (table.find? (·.2 == identifier)).map (·.1)

end FlashImage.Command
