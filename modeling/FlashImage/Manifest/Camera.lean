import FlashImage.Camera.CommandId
import FlashImage.Manifest.Document
import FlashImage.Manifest.Fields
import FlashImage.Settings.Camera

/-!
# Camera manifests

A manifest of a camera configuration names the output file, what the basic
information record says and the commands in the order in which they are packed.

* `CameraManifest.parse` reads the text of a manifest, `CameraManifest.load` a
  file;
* `CameraManifest.toToml` is the manifest as text;
* `CameraManifest.basicInfo` is the basic information record with the settings
  string applied.
-/

namespace FlashImage

open Toml (Codec Entries Plain Value)
open Fields

/-- Interfaces as a mask or as a list of names. -/
inductive InterfaceList where
  | mask (value : UInt32)
  | names (list : List String)
  deriving DecidableEq, Repr

namespace InterfaceList

def toMask : InterfaceList → Except Settings.SettingsError UInt32
  | mask value => .ok value
  | names list =>
      match Interface.addNamed 0 (list.map String.toList) with
      | .ok value => .ok value
      | .error name => .error (.invalidValue "interfaces" (String.ofList name))

def ofValue? (v : Value) : Option InterfaceList :=
  match v.word? with
  | some value => some (.mask value)
  | none => do some (.names (← (← v.items?).mapM Value.text?))

def toPlain : InterfaceList → Plain
  | mask value => .number value.toNat
  | names list => .texts list

end InterfaceList

/-- What a manifest says about the basic information record. -/
structure BasicInfo where
  layoutVersion : UInt32 := 1
  vendorName : String := "Lattice"
  modelName : String := "Model 1"
  driverVersion : String := "1.0.0"
  interfaces : InterfaceList := .mask 0
  deriving DecidableEq, Repr

namespace BasicInfo

/-- Reads what a manifest says about the basic information record. -/
def ofValue? (v : Value) : Option BasicInfo := do
  let d : BasicInfo := {}
  let text (default : String) := defaulted default Value.text?
  match ← Fields.read? [["layout_version"], ["vendor_name"], ["model_name", "model_no"],
      ["driver_version"], ["interfaces"]] v with
  | [version, vendor, model, driver, interfaces] =>
      some { layoutVersion := ← defaulted d.layoutVersion Value.word? version
             vendorName := ← text d.vendorName vendor
             modelName := ← text d.modelName model
             driverVersion := ← text d.driverVersion driver
             interfaces := ← defaulted d.interfaces InterfaceList.ofValue? interfaces }
  | _ => none

def toEntries (b : BasicInfo) : List (String × Plain) :=
  [("layout_version", .number b.layoutVersion.toNat), ("vendor_name", .text b.vendorName),
    ("model_name", .text b.modelName), ("driver_version", .text b.driverVersion),
    ("interfaces", b.interfaces.toPlain)]

end BasicInfo

/-- One command of a camera manifest. -/
structure CommandEntry where
  id : CommandId
  path : NativeText
  deriving DecidableEq, Repr

namespace CommandId

/-- Reads a command identifier.  A name is kept as it is. -/
def ofValue? (v : Value) : Option CommandId :=
  match v.word? with
  | some value => some (.numeric value)
  | none => v.text?.map .named

def toPlain : CommandId → Plain
  | numeric value => .number value.toNat
  | named name => .text name

end CommandId

namespace CommandEntry

def ofValue? (v : Value) : Option CommandEntry := do
  match ← Fields.read? [["id"], ["path"]] v with
  | [id, path] =>
      some { id := ← required CommandId.ofValue? id, path := ← required Value.path? path }
  | _ => none

def toEntries (c : CommandEntry) : Except UnwritablePath (List (String × Plain)) := do
  .ok [("id", c.id.toPlain), ("path", .text (← c.path.written))]

end CommandEntry

/-- The manifest of a camera configuration. -/
structure CameraManifest where
  output : Option NativeText := none
  basic : BasicInfo := {}
  /-- A settings string that is applied to the basic information. -/
  basicconf : Option String := none
  commands : List CommandEntry := []
  deriving DecidableEq, Repr

namespace CameraManifest

def ofEntries? (entries : Entries) : Option CameraManifest := do
  match ← Fields.read? [["output"], ["basic"], ["basicconf"], ["command"]]
      (.table .header entries) with
  | [output, basic, basicconf, commands] =>
      some { output := ← optional Value.path? output
             basic := ← defaulted {} BasicInfo.ofValue? basic
             basicconf := ← optional Value.text? basicconf
             commands := ← defaulted []
               (fun v => do (← v.items?).mapM CommandEntry.ofValue?) commands }
  | _ => none

def parse (codec : Codec) (env : Environment) (text : String) :
    Except ManifestError CameraManifest :=
  Manifest.parseWith ofEntries? codec env text

def draft (m : CameraManifest) : Except UnwritablePath Draft := do
  .ok { output := ← m.output.mapM NativeText.written
        settingsKey := "basicconf", settings := m.basicconf
        tableKey := "basic", table := m.basic.toEntries
        elementKey := "command", elements := ← m.commands.mapM CommandEntry.toEntries }

def toToml (codec : Codec) (m : CameraManifest) : Except UnwritablePath String := do
  .ok (codec.write (← m.draft).outline)

/-- The manifest with its relative paths put behind a base. -/
def resolve (base : NativeText) (m : CameraManifest) : CameraManifest :=
  { m with
    output := m.output.map (FilePath.join base)
    commands := m.commands.map fun e => { e with path := FilePath.join base e.path } }

def load (codec : Codec) (files : FileTree) (env : Environment) (path : NativeText) :
    Except ManifestError CameraManifest :=
  Manifest.loadWith (parse codec env) resolve files path

def basicInfo (m : CameraManifest) : Except Settings.SettingsError CameraInfo := do
  let info : CameraInfo :=
    { layoutVersion := m.basic.layoutVersion, vendorName := m.basic.vendorName
      modelName := m.basic.modelName, driverVersion := m.basic.driverVersion
      directoryEntryCount := 0, interfaces := ← m.basic.interfaces.toMask }
  match m.basicconf with
  | none => .ok info
  | some input =>
      let (result, info) := Settings.applyCamera info input
      result.map fun () => info

end CameraManifest

end FlashImage
