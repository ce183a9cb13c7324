import FlashImage.Image

/-!
# Media

A medium is what a builder writes its image to.  A write that it refuses leaves
what was written before.

It may end early: a write of at least one byte that would go past the limit fails.  Any
other write may fail as well, and so may the flush that ends a build: the medium holds
the verdicts on the operations to come.
-/

namespace FlashImage

/-- Why a medium refuses a write or a flush. -/
inductive WriteFault where
  /-- The write goes past the limit. -/
  | limitReached
  /-- The device fails, for the given reason. -/
  | device (reason : String)
  deriving DecidableEq, Repr

def WriteFault.message : WriteFault → String
  | .limitReached => "write limit reached"
  | .device reason => reason

/-- An image under construction, and what its medium takes. -/
structure Medium where
  image : Image := {}
  limit : Option Nat := none
  /-- Whether the device fails at the next operation, at the one after it, and so on; it
  does not at those that are not listed. -/
  verdicts : List (Option WriteFault) := []
  deriving DecidableEq, Repr

namespace Medium

/-- Why the device fails at the next operation, if it does. -/
def fault? (m : Medium) : Option WriteFault :=
  m.verdicts.head?.join

/-- Whether `n` bytes at an offset stay within the limit. -/
def reaches (m : Medium) (offset n : Nat) : Bool :=
  match m.limit with
  | none => true
  | some limit => n == 0 || offset + n ≤ limit

/-- The medium after an operation that succeeds and leaves an image. -/
def next (m : Medium) (image : Image) : Medium :=
  { m with image, verdicts := m.verdicts.tail }

def write (m : Medium) (offset : Nat) (bytes : Bytes) : Except WriteFault Medium :=
  match m.fault? with
  | some fault => .error fault
  | none =>
      if m.reaches offset bytes.length then .ok (m.next (m.image.write offset bytes))
      else .error .limitReached

/-- Makes sure that everything written has arrived. -/
def flush (m : Medium) : Except WriteFault Medium :=
  match m.fault? with
  | some fault => .error fault
  | none => .ok (m.next m.image)

end Medium

end FlashImage
