import FlashImage.Files.Access

/-!
# Updates of files

Directories are created one by one.  A file that takes the place of another one
takes its permission bits as well.

* `FileTree.lastSpot` is where the last component of a path leads to;
* `FileTree.makeDirectories` creates a directory and its missing parents;
* `FileTree.modeFor` is the permission bits of a file that is moved over a path.
-/

namespace FlashImage.FileTree

/-- Takes the last component off a list of components, passing over the empty
ones behind it. -/
def splitComponents (components : List NativeText) : List NativeText × Option NativeText :=
  match components.reverse.dropWhile (·.bytes.isEmpty) with
  | [] => ([], none)
  | last :: front => (front.reverse, some last)

/-- The spot of the last component of a path, whose parent must be a directory,
or `none` if the last component does not name anything of its own. -/
def lastSpot (t : FileTree) (path : NativeText) : Except FileError (Option Spot) := do
  let (start, components) := startOf path
  match splitComponents components with
  | (_, none) => .ok none
  | (front, some last) =>
      let parent ← t.follow (t.spot start) (front ++ [.ofString "."])
      if last = "." ∨ last = ".." then .ok none
      else
        let s ← t.follow parent [last]
        .ok (some s)

/-- Creates one directory; its parent must be there. -/
def makeDirectory (t : FileTree) (path : NativeText) : Except FileError FileTree := do
  checkPath path
  match ← t.lastSpot path with
  | some ⟨place, none⟩ => .ok (t.put place (.directory []))
  | _ => .error .alreadyExists

/-- Creates a directory and at most `n` missing parents.  What has been created
stays when a later step fails, so the tree is returned in any case. -/
def makeUpTo (t : FileTree) : Nat → NativeText → Except FileError Unit × FileTree
  | 0, _ => (.error .notFound, t)
  | n + 1, path =>
      if path = "" then (.ok (), t)
      else
        match t.makeDirectory path with
        | .ok made => (.ok (), made)
        -- only a missing parent is made up for; another error stands unless a directory is there
        | .error .notFound =>
            match makeUpTo t n ((FilePath.parent? path).getD "") with
            | (.ok (), t) =>
                match t.makeDirectory path with
                | .ok made => (.ok (), made)
                | .error e => if t.isDirectory path then (.ok (), t) else (.error e, t)
            | (.error e, t) => (.error e, t)
        | .error e => if t.isDirectory path then (.ok (), t) else (.error e, t)

/-- Creates a directory and its missing parents, of which there are fewer than
the path has bytes. -/
def makeDirectories (t : FileTree) (path : NativeText) : Except FileError Unit × FileTree :=
  t.makeUpTo (path.bytes.length + 1) path

def newFileMode : Nat := 0o644

/-- The permission bits that a file takes when it is moved over a path: those
of the file that it replaces, if there is one. -/
def modeFor (t : FileTree) (path : NativeText) : Nat :=
  match t.stat path with
  | .ok (.file _ mode) => mode
  | _ => newFileMode

/-- Whether a file can be moved over a path at all. -/
def checkTarget (path : NativeText) : Except FileError Unit :=
  if path.bytes.contains 0 then .error .invalid else checkPath path

end FlashImage.FileTree
