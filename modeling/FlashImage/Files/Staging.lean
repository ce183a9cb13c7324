import FlashImage.Files.Update

/-!
# Staged files

A file is finished under a name of its own beside its target, and is then moved
over the target.

* `TemporaryNames`: how such names are found;
* `FileTree.stage` creates a file for a target, and `FileTree.fill` fills it;
* `FileTree.persist` moves it over the target.
-/

namespace FlashImage

/-- How the name of a temporary file is found.  This may fail, but no name is found
that is in use, or that leads out of the directory. -/
structure TemporaryNames where
  find : List NativeText → Except FileError NativeText
  unused : ∀ {taken : List NativeText} {name : NativeText}, find taken = .ok name → name ∉ taken
  unmarked : ∀ {taken : List NativeText} {name : NativeText}, find taken = .ok name →
    FileTree.isMark name = false

namespace TemporaryNames

def numberedName (n : Nat) : NativeText :=
  ⟨FilePath.dot :: Utf8.encode ("tmp" ++ toString n)⟩

theorem isMark_numberedName (n : Nat) : FileTree.isMark (numberedName n) = false := by
  have h_long : 3 < (numberedName n).bytes.length := by
    rw [numberedName, Utf8.encode, String.toList_append, List.flatMap_append, List.length_cons,
      List.length_append]
    exact Nat.succ_lt_succ (Nat.lt_of_lt_of_le (by decide) (Nat.le_add_right 3 _))
  have h_ne : ∀ mark : NativeText, mark.bytes.length < 4 → (numberedName n == mark) = false :=
    fun mark h_short => beq_eq_false_iff_ne.mpr fun h_eq =>
      Nat.not_le.mpr h_short (h_eq ▸ h_long)
  rw [FileTree.isMark, h_ne "/" (by decide), h_ne ".." (by decide)]
  rfl

/-- The first name with a number that is not in use. -/
def findNumbered (taken : List NativeText) : Except FileError NativeText :=
  match ((List.range (taken.length + 1)).map numberedName).find? fun name =>
      !taken.contains name with
  | some name => .ok name
  | none => .error .alreadyExists

theorem find?_of_findNumbered {taken : List NativeText} {name : NativeText}
    (h : findNumbered taken = .ok name) :
    ((List.range (taken.length + 1)).map numberedName).find? (fun name => !taken.contains name) =
      some name := by
  unfold findNumbered at h
  split at h
  next found h_find => cases h; exact h_find
  next => cases h

def numbered : TemporaryNames where
  find := findNumbered
  unused h := by simpa using List.find?_some (find?_of_findNumbered h)
  unmarked h := by
    obtain ⟨n, -, rfl⟩ := List.mem_map.mp (List.mem_of_find?_eq_some (find?_of_findNumbered h))
    exact isMark_numberedName n

end TemporaryNames

/-- A file under a temporary name. -/
structure StagedFile where
  place : Place
  /-- The permission bits of the file that it is to become. -/
  mode : Nat
  deriving DecidableEq, Repr

namespace FileTree

/-- The directory that a file for a path is staged in: the parent of the path. -/
def stagingDirectory (path : NativeText) : NativeText :=
  match FilePath.parent? path with
  | some p => if p = "" then "." else p
  | none => "."

/-- Creates an empty file beside a target. -/
def stage (t : FileTree) (names : TemporaryNames) (target : NativeText) :
    Except FileError (StagedFile × FileTree) := do
  let (start, components) := startOf (stagingDirectory target)
  let s ← t.follow (t.spot start) (components ++ [.ofString "."])
  match s.node with
  | some (.directory entries) =>
      let name ← names.find (entries.map (·.1))
      let staged : StagedFile := ⟨name :: s.place, t.modeFor target⟩
      .ok (staged, t.put staged.place (.file .empty staged.mode))
  | some (.file ..) => .error .notDirectory
  | none => .error .notFound

def fill (t : FileTree) (staged : StagedFile) (content : Image) : FileTree :=
  t.put staged.place (.file content staged.mode)

/-- Moves a staged file over a path. -/
def persist (t : FileTree) (staged : StagedFile) (path : NativeText) :
    Except FileError FileTree := do
  checkTarget path
  match ← t.lastSpot path with
  | none => .error .busy
  | some s =>
      if path.bytes.getLast? = some FilePath.slash then .error .notDirectory
      else
        match s.node, t.node? staged.place with
        | some (.directory _), _ => .error .isDirectory
        | _, none => .error .notFound
        | _, some node => .ok ((t.remove staged.place).put s.place node)

end FileTree

end FlashImage
