import FlashImage.Bytes.Native

/-!
# Paths

A path is a native text; its components are separated by slashes.  Repeated slashes,
slashes at the end and components that are a single dot name nothing, except
that a dot at the very start counts as a component.

* `FilePath.parent?` is the path without its last component;
* `FilePath.extension?` is what follows the last dot of the file name;
* `FilePath.join` puts a relative path behind a base.
-/

namespace FlashImage.FilePath

@[match_pattern]
abbrev slash : UInt8 := 0x2F

@[match_pattern]
abbrev dot : UInt8 := 0x2E

/-- Whether a path starts at the root of the file system. -/
def isAbsolute (path : NativeText) : Bool :=
  path.bytes.head? == some slash

/-- The head of a path, which is the root or a leading dot, and what follows it. -/
def splitHead : Bytes → Bytes × Bytes
  | slash :: s => ([slash], s)
  | dot :: slash :: s => ([dot], slash :: s)
  | [dot] => ([dot], [])
  | s => ([], s)

/-- Drops what names nothing from the front of a reversed path: slashes and
single dots. -/
def dropIdle : Bytes → Bytes
  | slash :: s => dropIdle s
  | [dot] => []
  | dot :: slash :: s => dropIdle s
  | s => s

/-- The last component of a path behind its head, and the reversed path in
front of it. -/
def splitLast (body : Bytes) : Bytes × Bytes :=
  let r := dropIdle body.reverse
  ((r.takeWhile (· != slash)).reverse, dropIdle (r.dropWhile (· != slash)))

/-- The path without its last component.  The root and the empty path have none. -/
def parent? (path : NativeText) : Option NativeText :=
  let (head, body) := splitHead path.bytes
  let (last, front) := splitLast body
  if last ≠ [] then some ⟨head ++ front.reverse⟩
  else if head = [dot] then some ⟨[]⟩
  else none

/-- The last component of a path, if it names a file and not a parent. -/
def fileName? (path : NativeText) : Option NativeText :=
  let (last, _) := splitLast (splitHead path.bytes).2
  if last = [] ∨ last = [dot, dot] then none else some ⟨last⟩

/-- What follows the last dot of the file name.  A name whose only dot is its
first character has no extension. -/
def extension? (path : NativeText) : Option NativeText := do
  let name := (← fileName? path).bytes
  let tail := name.reverse.takeWhile (· != dot)
  if name.length ≤ tail.length + 1 then none else some ⟨tail.reverse⟩

/-- A byte in lower case, if it is a letter of ASCII. -/
def lowerByte (b : UInt8) : UInt8 :=
  if 0x41 ≤ b ∧ b ≤ 0x5A then b + 0x20 else b

/-- Whether the extension of a path is the given one, whatever the case of its
letters. -/
def hasExtension (path extension : NativeText) : Bool :=
  match extension? path with
  | some e => e.bytes.map lowerByte == extension.bytes.map lowerByte
  | none => false

/-- A relative path behind a base; an absolute path stays as it is. -/
def join (base path : NativeText) : NativeText :=
  if isAbsolute path then path
  else if base.bytes = [] ∨ base.bytes.getLast? = some slash then ⟨base.bytes ++ path.bytes⟩
  else ⟨base.bytes ++ slash :: path.bytes⟩

end FlashImage.FilePath
