import FlashImage.Bytes.Utf8
import FlashImage.Files.Error
import FlashImage.Files.Path
import FlashImage.Files.Tree

/-!
# Access to files

A path is followed component by component, and what it leads to is looked at.

* `FileTree.follow` goes from one spot of a tree to another;
* `FileTree.stat` is what a path leads to;
* `FileTree.read`, `FileTree.isFile` and `FileTree.isDirectory` look at it.
-/

namespace FlashImage

/-- A place that a path leads to, and what stands there. -/
structure Spot where
  place : Place
  node : Option FileNode
  deriving Repr

namespace FileTree

/-- The length in bytes that a path stays below. -/
def pathLimit : Nat := 4096

/-- The length in bytes that a component does not exceed. -/
def nameLimit : Nat := 255

def spot (t : FileTree) (place : Place) : Spot :=
  ⟨place, t.node? place⟩

/-- The spot that one component leads to from another spot, which holds a
directory with the given entries. -/
def next (t : FileTree) (s : Spot) (entries : List (NativeText × FileNode))
    (component : NativeText) :
    Spot :=
  if component = "" ∨ component = "." then s
  else if component = ".." then t.spot (above s.place)
  else ⟨component :: s.place, entries.lookup component⟩

/-- Follows components from a spot; each step must start in a directory. -/
def follow (t : FileTree) (s : Spot) : List NativeText → Except FileError Spot
  | [] => .ok s
  | c :: cs =>
      match s.node with
      | some (.directory entries) =>
          if nameLimit < c.bytes.length then .error .nameTooLong
          else follow t (t.next s entries c) cs
      | some (.file ..) => .error .notDirectory
      | none => .error .notFound

/-- The components of a path and the place they start from. -/
def startOf (path : NativeText) : Place × List NativeText :=
  let components := (path.bytes.splitOn FilePath.slash).map NativeText.mk
  if FilePath.isAbsolute path then (["/"], components.drop 1) else ([], components)

/-- Whether a path is one that can be followed at all. -/
def checkPath (path : NativeText) : Except FileError Unit :=
  if path = "" then .error .notFound
  else if path.bytes.contains 0 then .error .zeroInName
  else if pathLimit ≤ path.bytes.length then .error .nameTooLong
  else .ok ()

def stat (t : FileTree) (path : NativeText) : Except FileError FileNode := do
  checkPath path
  let (start, components) := startOf path
  let s ← t.follow (t.spot start) components
  match s.node with
  | some node => .ok node
  | none => .error .notFound

def isFile (t : FileTree) (path : NativeText) : Bool :=
  match t.stat path with
  | .ok (.file ..) => true
  | _ => false

def isDirectory (t : FileTree) (path : NativeText) : Bool :=
  match t.stat path with
  | .ok (.directory _) => true
  | _ => false

/-- The content of the file that a path leads to. -/
def readImage (t : FileTree) (path : NativeText) : Except FileError Image := do
  match ← t.stat path with
  | .file content _ => .ok content
  | .directory _ => .error .isDirectory

/-- The bytes of the file that a path leads to. -/
def read (t : FileTree) (path : NativeText) : Except FileError Bytes := do
  let content ← t.readImage path
  .ok content.toBytes

/-- The text of the file that a path leads to. -/
def readText (t : FileTree) (path : NativeText) : Except FileError String := do
  match Utf8.decode? (← t.read path) with
  | some text => .ok text
  | none => .error .notText

end FileTree

end FlashImage
