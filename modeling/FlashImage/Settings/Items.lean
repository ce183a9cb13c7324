import FlashImage.Text.Basic
import FlashImage.Text.Literal

/-!
# Settings strings

A settings string is a list of `Key=Value` items with commas between them.
Blanks around items, keys and values do not matter, empty items are passed
over, and the case of a key does not matter.

The whole string is read first: one item without an equals sign spoils it.
The items are then applied from left to right, and the first that cannot be
applied ends the run; what the items before it did stays.
-/

namespace FlashImage.Settings

open Text

/-- Why a settings string cannot be applied. -/
inductive SettingsError where
  /-- An item has no equals sign. -/
  | malformed (item : String)
  /-- A key is not among those of the section. -/
  | unknownKey (topic key : String)
  | invalidValue (key value : String)
  deriving DecidableEq, Repr

def SettingsError.message : SettingsError → String
  | malformed item => "Malformed setting '" ++ item ++ "': expected Key=Value"
  | unknownKey topic key => "Unknown " ++ topic ++ " key: " ++ key
  | invalidValue key value => "Invalid value '" ++ value ++ "' for '" ++ key ++ "'"

/-- One setting: a key in lower case and a value, both trimmed. -/
structure Item where
  key : String
  value : String
  deriving DecidableEq, Repr

/-- The items of a settings string as they stand, trimmed and not empty. -/
def rawItems (input : List Char) : List (List Char) :=
  ((input.splitOn ',').map trim).filter (· ≠ [])

def readItem (raw : List Char) : Except SettingsError Item :=
  match cutAt '=' raw with
  | some (key, value) => .ok ⟨String.ofList (lower (trim key)), String.ofList (trim value)⟩
  | none => .error (.malformed (String.ofList raw))

def readItems (input : String) : Except SettingsError (List Item) :=
  (rawItems input.toList).mapM readItem

def Item.word (i : Item) : Except SettingsError UInt32 :=
  match Literal.word? i.value with
  | some w => .ok w
  | none => .error (.invalidValue i.key i.value)

/-- Applies items from left to right until one cannot be applied. -/
def applyItems {σ : Type} (set : σ → Item → Except SettingsError σ) (s : σ) :
    List Item → Except SettingsError Unit × σ
  | [] => (.ok (), s)
  | i :: is =>
      match set s i with
      | .ok s => applyItems set s is
      | .error e => (.error e, s)

def applyWith {σ : Type} (set : σ → Item → Except SettingsError σ) (s : σ) (input : String) :
    Except SettingsError Unit × σ :=
  match readItems input with
  | .ok items => applyItems set s items
  | .error e => (.error e, s)

end FlashImage.Settings
