import FlashImage.Files.Path
import FlashImage.Files.Tree

/-!
# Changes of files

What is new or different in one file tree against another.
-/

namespace FlashImage

/-- Whether two nodes are of one kind, and hold the same if they are files. -/
def FileNode.same : FileNode → FileNode → Bool
  | .directory _, .directory _ => true
  | .file content mode, .file content' mode' =>
      mode == mode' &&
        (content == content' ||
          content.size == content'.size && content.toBytes == content'.toBytes)
  | _, _ => false

namespace FileTree

def isBelow (place : Place) : Bool :=
  match place.getLast? with
  | none => false
  | some first => first != "/" && first != ".."

def pathOf (place : Place) : NativeText :=
  let join (components : List NativeText) : Bytes :=
    [FilePath.slash].intercalate (components.map NativeText.bytes)
  match place.reverse with
  | [] => ⟨[]⟩
  | first :: rest =>
      if first = "/" then ⟨FilePath.slash :: join rest⟩ else ⟨join (first :: rest)⟩

/-- The nodes that are not in an earlier tree as they are in this one, each
directory before what is in it. -/
def changedNodes (t earlier : FileTree) : List (Place × FileNode) :=
  t.nodes.filter fun (place, node) =>
    match earlier.node? place with
    | some old => !old.same node
    | none => true

/-- The changed nodes below the working directory, by path. -/
def changesSince (t earlier : FileTree) : List (NativeText × FileNode) :=
  (((t.changedNodes earlier).filter (isBelow ·.1)).map fun (place, node) =>
      (pathOf place, node)).mergeSort fun a b => decide (a.1.bytes ≤ b.1.bytes)

end FileTree

end FlashImage
