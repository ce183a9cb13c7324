import FlashImage.Text.Basic

/-!
# Camera interfaces

A camera offers any of three interfaces; a mask has one bit for each.
-/

namespace FlashImage

/-- An interface that a camera may offer. -/
inductive Interface where
  | mipi
  | i2c
  | gpio
  deriving DecidableEq, Repr

namespace Interface

def bit : Interface → UInt32
  | mipi => 0x1
  | i2c => 0x2
  | gpio => 0x4

/-- The interface with the given name; blanks around the name and the case of
its letters do not matter. -/
def named? (name : List Char) : Option Interface :=
  let key := Text.lower (Text.trim name)
  if key = ['m', 'i', 'p', 'i'] then some mipi
  else if key = ['i', '2', 'c'] then some i2c
  else if key = ['g', 'p', 'i', 'o'] then some gpio
  else none

/-- The mask with the bits of all the named interfaces added; the first unknown
name is the error. -/
def addNamed (mask : UInt32) : List (List Char) → Except (List Char) UInt32
  | [] => .ok mask
  | name :: names =>
      match named? name with
      | some i => addNamed (mask ||| i.bit) names
      | none => .error name

end Interface

end FlashImage
