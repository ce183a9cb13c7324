import FlashImage.Bytes.Utf8

/-!
# Native texts

The operating system hands over arguments, paths and the values of variables as bytes.
Most of them are UTF-8, but nothing ensures it.

* `NativeText.toString?` is the text of one that is UTF-8;
* `NativeText.display` shows any of them.
-/

namespace FlashImage

/-- A text of the operating system, which may be any bytes. -/
structure NativeText where
  bytes : Bytes
  deriving DecidableEq, Repr

/-- A path is to be written down as text, but it is no UTF-8. -/
structure UnwritablePath where
  path : NativeText
  deriving DecidableEq, Repr

def UnwritablePath.message (_ : UnwritablePath) : String :=
  "path contains invalid UTF-8 characters"

namespace NativeText

def ofString (s : String) : NativeText :=
  ⟨Utf8.encode s⟩

instance : Coe String NativeText :=
  ⟨ofString⟩

def toString? (t : NativeText) : Option String :=
  Utf8.decode? t.bytes

/-- The text with U+FFFD in the place of what is no UTF-8. -/
def display (t : NativeText) : String :=
  Utf8.decodeLossy t.bytes

/-- A path as text, where only text can be written. -/
def written (path : NativeText) : Except UnwritablePath String :=
  match path.toString? with
  | some s => .ok s
  | none => .error ⟨path⟩

end NativeText

end FlashImage
