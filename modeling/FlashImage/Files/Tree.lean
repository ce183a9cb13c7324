import FlashImage.Bytes.Native
import FlashImage.Image

/-!
# File trees

The files and directories that a command sees, as a value.  A place in the tree
is named by the components on the way to it from the working directory; a place
outside has the root or parent marks in front.

* `FileTree.node?` is what stands at a place;
* `FileTree.put` and `FileTree.remove` change what stands there;
* `FileTree.nodes` lists the whole tree.
-/

namespace FlashImage

/-- What stands at a place. -/
inductive FileNode where
  /-- A file with its permission bits. -/
  | file (content : Image) (mode : Nat)
  | directory (entries : List (NativeText × FileNode))
  deriving Repr

/-- The way from a place back to where it starts from, the nearest component
first. -/
abbrev Place := List NativeText

/-- The files and directories that a command sees, by what the working directory
holds. -/
structure FileTree where
  entries : List (NativeText × FileNode) := []
  deriving Repr

namespace FileNode

def entries : FileNode → List (NativeText × FileNode)
  | file .. => []
  | directory entries => entries

def setEntry (name : NativeText) (node : FileNode) :
    List (NativeText × FileNode) → List (NativeText × FileNode)
  | [] => [(name, node)]
  | (k, n) :: rest => if k = name then (name, node) :: rest else (k, n) :: setEntry name node rest

/-- The node with another one put where the components lead to.  What is missing
on the way becomes a directory. -/
def putAt (node : FileNode) : List NativeText → FileNode → FileNode
  | [], _ => node
  | name :: rest, here =>
      let child := (here.entries.lookup name).getD (directory [])
      directory (setEntry name (putAt node rest child) here.entries)

/-- The node without what stands where the components lead to. -/
def removeAt : List NativeText → FileNode → FileNode
  | [name], directory entries => directory (entries.filter (·.1 != name))
  | name :: rest, directory entries =>
      match entries.lookup name with
      | some child => directory (setEntry name (removeAt rest child) entries)
      | none => directory entries
  | _, here => here

mutual

/-- Everything below a node that stands at a place; a directory comes before what
is in it. -/
def nodesWithin (place : Place) : FileNode → List (Place × FileNode)
  | file .. => []
  | directory entries => nodesOfEntries place entries

/-- The entries of a directory at a place, and everything below them. -/
def nodesOfEntries (place : Place) : List (NativeText × FileNode) → List (Place × FileNode)
  | [] => []
  | (name, node) :: rest =>
      (name :: place, node) :: (nodesWithin (name :: place) node ++ nodesOfEntries place rest)

end

end FileNode

namespace FileTree

/-- Whether a component of a place is the root or a parent mark; these always
lead to a directory. -/
def isMark (component : NativeText) : Bool :=
  component == "/" || component == ".."

/-- The working directory. -/
def top (t : FileTree) : FileNode :=
  .directory t.entries

def node? (t : FileTree) : Place → Option FileNode
  | [] => some t.top
  | name :: up =>
      match node? t up with
      | some (.directory entries) =>
          match entries.lookup name with
          | some node => some node
          | none => if isMark name then some (.directory []) else none
      | _ => none

def put (t : FileTree) (place : Place) (node : FileNode) : FileTree :=
  ⟨(FileNode.putAt node place.reverse t.top).entries⟩

def remove (t : FileTree) (place : Place) : FileTree :=
  ⟨(FileNode.removeAt place.reverse t.top).entries⟩

/-- Everything in the tree, each directory before what is in it. -/
def nodes (t : FileTree) : List (Place × FileNode) :=
  t.top.nodesWithin []

def above : Place → Place
  | [] => [".."]
  | name :: up =>
      if name = ".." then ".." :: name :: up
      else if name = "/" ∧ up = [] then [name]
      else up

/-- The place that one component leads to from another place. -/
def step (place : Place) (component : NativeText) : Place :=
  if component = "" ∨ component = "." then place
  else if component = ".." then above place
  else component :: place

end FileTree

end FlashImage
