import FlashImage.Bytes.Native
import FlashImage.Toml.Value

/-!
# Fields of manifests

A record of a manifest is a table whose keys are all known, or an array that
holds the fields in order.  A field may have two names, of which a table uses
one.
-/

namespace FlashImage

/-- The path that a text stands for. -/
def Toml.Value.path? (v : Toml.Value) : Option NativeText :=
  v.text?.map .ofString

namespace Fields

open Toml

/-- The value of a field with the given names; two of them together spoil the
record, which is the outer option. -/
def field? (entries : Entries) (names : List String) : Option (Option Value) :=
  match entries.filter fun e => names.contains e.1 with
  | [] => some none
  | [e] => some (some e.2)
  | _ => none

/-- The values of the fields with the given names, in order. -/
def read? (names : List (List String)) : Value → Option (List (Option Value))
  | .table _ entries =>
      if entries.all fun e => names.any (·.contains e.1) then names.mapM (field? entries)
      else none
  | .array _ items =>
      if items.length ≤ names.length then
        some (items.map some ++ List.replicate (names.length - items.length) none)
      else none
  | _ => none

def required {α : Type} (read : Value → Option α) (field : Option Value) : Option α :=
  field.bind read

def optional {α : Type} (read : Value → Option α) : Option Value → Option (Option α)
  | none => some none
  | some v => (read v).map some

/-- A field that has a value of its own when it is left out. -/
def defaulted {α : Type} (default : α) (read : Value → Option α) : Option Value → Option α
  | none => some default
  | some v => read v

end Fields

end FlashImage
