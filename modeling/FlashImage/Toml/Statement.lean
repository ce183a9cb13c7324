import FlashImage.Toml.Value

/-!
# Statements of a document

A document is a list of statements, each on a line of its own.
-/

namespace FlashImage.Toml

/-- The keys on the way to an entry. -/
structure KeyPath where
  parents : List String
  last : String
  deriving DecidableEq, Repr

/-- A line of a document. -/
inductive Statement where
  /-- `key = value` -/
  | entry (path : KeyPath) (value : Value)
  /-- `[key]`, which opens a table. -/
  | table (path : KeyPath)
  /-- `[[key]]`, which opens another table of an array. -/
  | element (path : KeyPath)
  deriving Repr

end FlashImage.Toml
