import FlashImage.Layout.Category
import FlashImage.Manifest.Document
import FlashImage.Manifest.Fields
import FlashImage.Settings.Root

/-!
# Root image manifests

A manifest of a root image names the output file, the layout settings and the
modules in the order in which they are laid out.

* `RootManifest.parse` reads the text of a manifest, `RootManifest.load` a file;
* `RootManifest.toToml` is the manifest as text;
* `RootManifest.effectiveLayout` is its layout with its settings string applied.
-/

namespace FlashImage

open Toml (Codec Entries Plain Value)
open Fields

/-- One module of a root image manifest. -/
structure ModuleEntry where
  category : ModuleCategory
  id : UInt32
  path : NativeText
  deriving DecidableEq, Repr

/-- The manifest of a root image. -/
structure RootManifest where
  output : Option NativeText := none
  layout : LayoutSettings := {}
  /-- A settings string that is applied to the layout. -/
  rfsconf : Option String := none
  modules : List ModuleEntry := []
  deriving DecidableEq, Repr

/-- Reads a category: its name, or a table in which the name stands before an
empty array or table. -/
def ModuleCategory.ofValue? : Value → Option ModuleCategory
  | .string name => named? name
  | .table _ [(name, .array _ [])] => named? name
  | .table _ [(name, .table _ [])] => named? name
  | _ => none

def LayoutSettings.ofValue? (v : Value) : Option LayoutSettings := do
  let d : LayoutSettings := {}
  let word (default : UInt32) := defaulted default Value.word?
  match ← Fields.read? [["erase_block_alignment", "alignment"], ["directory_copies"],
      ["layout_version"], ["update_count"], ["control_field"], ["start_of_directory"],
      ["boot_identifier", "boot_uid"]] v with
  | [alignment, copies, version, count, control, start, boot] =>
      some { eraseBlockAlignment := ← word d.eraseBlockAlignment alignment
             directoryCopies := ← word d.directoryCopies copies
             layoutVersion := ← word d.layoutVersion version
             updateCount := ← word d.updateCount count
             controlField := ← word d.controlField control
             startOfDirectory := ← optional Value.word? start
             bootIdentifier := ← optional Value.word? boot }
  | _ => none

def LayoutSettings.toEntries (s : LayoutSettings) : List (String × Plain) :=
  let word (w : UInt32) : Plain := .number w.toNat
  [("erase_block_alignment", word s.eraseBlockAlignment),
   ("directory_copies", word s.directoryCopies),
   ("layout_version", word s.layoutVersion),
   ("update_count", word s.updateCount),
   ("control_field", word s.controlField)] ++
    (s.startOfDirectory.map fun w => ("start_of_directory", word w)).toList ++
    (s.bootIdentifier.map fun w => ("boot_identifier", word w)).toList

namespace ModuleEntry

def ofValue? (v : Value) : Option ModuleEntry := do
  match ← Fields.read? [["category"], ["id"], ["path"]] v with
  | [category, id, path] =>
      some { category := ← required ModuleCategory.ofValue? category
             id := ← required Value.word? id
             path := ← required Value.path? path }
  | _ => none

def toEntries (m : ModuleEntry) : Except UnwritablePath (List (String × Plain)) := do
  .ok [("category", .text m.category.name), ("id", .number m.id.toNat),
    ("path", .text (← m.path.written))]

end ModuleEntry

namespace RootManifest

def ofEntries? (entries : Entries) : Option RootManifest := do
  match ← Fields.read? [["output"], ["layout"], ["rfsconf"], ["module"]]
      (.table .header entries) with
  | [output, layout, rfsconf, modules] =>
      some { output := ← optional Value.path? output
             layout := ← defaulted {} LayoutSettings.ofValue? layout
             rfsconf := ← optional Value.text? rfsconf
             modules := ← defaulted []
               (fun v => do (← v.items?).mapM ModuleEntry.ofValue?) modules }
  | _ => none

def parse (codec : Codec) (env : Environment) (text : String) :
    Except ManifestError RootManifest :=
  Manifest.parseWith ofEntries? codec env text

def draft (m : RootManifest) : Except UnwritablePath Draft := do
  .ok { output := ← m.output.mapM NativeText.written
        settingsKey := "rfsconf", settings := m.rfsconf
        tableKey := "layout", table := m.layout.toEntries
        elementKey := "module", elements := ← m.modules.mapM ModuleEntry.toEntries }

def toToml (codec : Codec) (m : RootManifest) : Except UnwritablePath String := do
  .ok (codec.write (← m.draft).outline)

/-- The manifest with its relative paths put behind a base. -/
def resolve (base : NativeText) (m : RootManifest) : RootManifest :=
  { m with
    output := m.output.map (FilePath.join base)
    modules := m.modules.map fun e => { e with path := FilePath.join base e.path } }

def load (codec : Codec) (files : FileTree) (env : Environment) (path : NativeText) :
    Except ManifestError RootManifest :=
  Manifest.loadWith (parse codec env) resolve files path

def effectiveLayout (m : RootManifest) : Except Settings.SettingsError LayoutSettings :=
  match m.rfsconf with
  | none => .ok m.layout
  | some input =>
      let (result, layout) := Settings.applyRoot m.layout input
      result.map fun () => layout

end RootManifest

end FlashImage
