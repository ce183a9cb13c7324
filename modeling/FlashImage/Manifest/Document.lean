import FlashImage.Files.Access
import FlashImage.Manifest.Error
import FlashImage.Manifest.Substitution
import FlashImage.Toml.Codec

/-!
# Manifest documents

What the manifests of root images and of cameras have in common: they are
documents whose strings may refer to variables, and they name files relative to
the directory that they stand in.

* `Manifest.parseWith` and `Manifest.loadWith` read a manifest;
* `Draft` is a manifest as it is written.
-/

namespace FlashImage

open Toml (Codec Entries Outline Plain)

namespace Manifest

/-- Reads a document and replaces the variables in its strings. -/
def readDocument? (codec : Codec) (env : Environment) (text : String) : Option Entries :=
  (codec.read? text).map (Toml.mapStringsOfEntries (substitute env))

def referenced (codec : Codec) (text : String) : List String :=
  match codec.read? text with
  | some entries => (Toml.stringsOfEntries entries).flatMap Substitution.names
  | none => []

def parseWith {α : Type} (read : Entries → Option α) (codec : Codec) (env : Environment)
    (text : String) : Except ManifestError α :=
  match (readDocument? codec env text).bind read with
  | some m => .ok m
  | none => .error .unparsable

/-- The directory that the paths of a manifest are relative to. -/
def baseOf (path : NativeText) : NativeText :=
  (FilePath.parent? path).getD "."

def loadWith {α : Type} (parse : String → Except ManifestError α)
    (resolve : NativeText → α → α) (files : FileTree) (path : NativeText) :
    Except ManifestError α :=
  match files.readText path with
  | .error e => .error (.unreadable path e)
  | .ok text => (parse text).map (resolve (baseOf path))

end Manifest

/-- A manifest as it is written: an output, a settings string, a table and the tables of
an array. -/
structure Draft where
  output : Option String
  settingsKey : String
  settings : Option String
  tableKey : String
  table : List (String × Plain)
  elementKey : String
  elements : List (List (String × Plain))

namespace Draft

/-- The entries in front of all headers.  If there are no elements, an empty array
stands in their place. -/
def top (d : Draft) : List (String × Plain) :=
  (d.output.map fun p => ("output", Plain.text p)).toList ++
    (d.settings.map fun s => (d.settingsKey, Plain.text s)).toList ++
    if d.elements.isEmpty then [(d.elementKey, .texts [])] else []

def outline (d : Draft) : Outline where
  top := d.top
  tableKey := d.tableKey
  table := d.table
  elementKey := d.elementKey
  elements := d.elements

end Draft

end FlashImage
