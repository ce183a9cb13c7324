import FlashImage.Camera.Builder
import FlashImage.Inspect
import FlashImage.Layout.Builder
import FlashImage.Report.Json

/-!
# Reports as trees

The reports of builds and inspections in the form in which they are printed for
other programs.
-/

namespace FlashImage

def Json.word (w : UInt32) : Json :=
  .number w.toNat

def RootHeader.toJson (h : RootHeader) : Json :=
  .object
    [("signature", .word h.signature), ("layout_version", .word h.layoutVersion),
     ("update_count", .word h.updateCount), ("crc", .word h.crc),
     ("control_field", .word h.controlField), ("start_of_directory", .word h.startOfDirectory),
     ("size_of_directory", .word h.sizeOfDirectory),
     ("directory_copy_count", .word h.directoryCopyCount),
     ("directory_entry_size", .word h.directoryEntrySize),
     ("boot_identifier", .word h.bootIdentifier)]

def CameraInfo.toJson (i : CameraInfo) : Json :=
  .object
    [("layout_version", .word i.layoutVersion), ("vendor_name", .string i.vendorName),
     ("model_name", .string i.modelName), ("driver_version", .string i.driverVersion),
     ("directory_entry_count", .word i.directoryEntryCount), ("interfaces", .word i.interfaces)]

def DirectoryEntry.toJson (e : DirectoryEntry) : Json :=
  .object [("identifier", .word e.identifier), ("offset", .word e.offset), ("size", .word e.size)]

def ModulePlacement.toJson (p : ModulePlacement) : Json :=
  .object
    [("category", .string p.category.name), ("identifier", .word p.identifier),
     ("offset", .number p.offset.toNat), ("directory_offset", .word p.directoryOffset),
     ("size", .word p.size)]

def RootReport.toJson (r : RootReport) : Json :=
  .object
    [("header", r.header.toJson), ("alignment", .number r.alignment.toNat),
     ("directory_base", .number r.directoryBase.toNat), ("image_size", .number r.imageSize.toNat),
     ("modules", .list (r.modules.map ModulePlacement.toJson))]

def CameraReport.toJson (r : CameraReport) : Json :=
  .object
    [("info", r.info.toJson), ("directory_size", .word r.directorySize),
     ("total_size", .word r.totalSize), ("entries", .list (r.entries.map DirectoryEntry.toJson))]

def InspectedEntry.toJson (e : InspectedEntry) : Json :=
  .object
    [("identifier", .word e.identifier),
     ("kind", match e.kind with
      | some kind => .string kind
      | none => .null),
     ("offset", .word e.offset), ("absolute_offset", .number e.absoluteOffset),
     ("size", .word e.size), ("sha256", .string e.sha256)]

def Inspection.toJson : Inspection → Json
  | root r =>
      .object
        [("kind", .string "root-image"), ("header", r.header.toJson),
         ("entries", .list (r.entries.map InspectedEntry.toJson))]
  | camera r =>
      .object
        [("kind", .string "camera-config"), ("info", r.info.toJson),
         ("entries", .list (r.entries.map InspectedEntry.toJson))]

end FlashImage
