import FlashImage.Bytes.Native
import FlashImage.Inspect

/-!
# Listings

A decoded file as lines for its reader: what the header or the basic
information record says, and a table of the entries.
-/

namespace FlashImage.Listing

open Text

def row (identifier kind offset size sha256 : String) : String :=
  "  " ++ padRight 8 identifier ++ " " ++ padRight 22 kind ++ " " ++ padLeft 10 offset ++ " " ++
    padLeft 10 size ++ "  " ++ sha256

def entryRow (e : InspectedEntry) : String :=
  "  " ++ hex 4 e.identifier.toNat ++ "   " ++ padRight 22 (e.kind.getD "-") ++ " " ++
    padLeft 10 (hex 0 e.absoluteOffset) ++ " " ++ padLeft 10 (toString e.size.toNat) ++ "  " ++
    e.sha256

def table (entries : List InspectedEntry) : List String :=
  row "id" "kind" "offset" "size" "sha256" :: entries.map entryRow

/-- A line of a label, filled up to the given width, and a text. -/
def field (width : Nat) (label text : String) : String :=
  "  " ++ padRight width label ++ text

def ofRoot (path : NativeText) (r : RootInspection) : List String :=
  let h := r.header
  let field := field 20
  ["Root image " ++ path.display,
   field "layout version" (toString h.layoutVersion.toNat),
   field "update count" (toString h.updateCount.toNat),
   field "control field" (hex 8 h.controlField.toNat),
   field "start of directory" (hex 0 h.startOfDirectory.toNat),
   field "size of directory" (toString h.sizeOfDirectory.toNat),
   field "directory copies" (toString h.directoryCopyCount.toNat),
   field "boot identifier" (hex 4 h.bootIdentifier.toNat)] ++ table r.entries

def ofCamera (path : NativeText) (r : CameraInspection) : List String :=
  let i := r.info
  let field := field 16
  ["Camera configuration " ++ path.display,
   field "layout version" (toString i.layoutVersion.toNat),
   field "vendor" i.vendorName,
   field "model" i.modelName,
   field "driver version" i.driverVersion,
   field "entries" (toString i.directoryEntryCount.toNat),
   field "interfaces" (hex 0 i.interfaces.toNat)] ++ table r.entries

def ofInspection (path : NativeText) : Inspection → List String
  | .root r => ofRoot path r
  | .camera r => ofCamera path r

end FlashImage.Listing
