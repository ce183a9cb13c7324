import FlashImage.Toml.Statement

/-!
# Building tables

Statements are carried out one by one on the entries of a document.  A key may
be set once, a table opened by a header once, and what is complete cannot be
added to.

* `Entries.insertPath` sets a key inside one table, as dotted keys do;
* `Entries.ofPairs?` is the table that is written in braces;
* `Entries.ofStatements?` is the document that statements make up.
-/

namespace FlashImage.Toml.Entries

/-- The entries with the value of a key that is there replaced. -/
def set (entries : Entries) (key : String) (value : Value) : Entries :=
  entries.map fun (k, v) => if k = key then (k, value) else (k, v)

def changeLast (change : Value → Option Value) : List Value → Option (List Value)
  | [] => none
  | [v] => (change v).map ([·])
  | v :: vs => (changeLast change vs).map (v :: ·)

/-- Changes the table that keys lead to, where `form` is the form of the table
that they start from.  A table that is missing on the way is opened with the
form `fresh`, and one that is there must be `admitted`.  An array that is made
of tables with headers leads to the last of them. -/
def update (fresh : TableForm) (admitted : TableForm → Bool)
    (change : TableForm → Entries → Option Entries) :
    TableForm → List String → Entries → Option Entries
  | form, [], entries => change form entries
  | _, key :: keys, entries =>
      match entries.lookup key with
      | none => do
          let child ← update fresh admitted change fresh keys []
          some (entries ++ [(key, .table fresh child)])
      | some (.table form child) =>
          if admitted form then do
            let child ← update fresh admitted change form keys child
            some (set entries key (.table form child))
          else none
      | some (.array .headers items) => do
          let items ← changeLast (fun
            | .table form child => (update fresh admitted change form keys child).map (.table form)
            | _ => none) items
          some (set entries key (.array .headers items))
      | some _ => none

/-- Sets a key that is not there yet. -/
def insert (key : String) (value : Value) (entries : Entries) : Option Entries :=
  if (entries.lookup key).isSome then none else some (entries ++ [(key, value)])

/-- Sets the key at the end of a path.  The tables on the way are opened or
continued by dotted keys, and the last of them must have been opened so. -/
def insertPath (path : KeyPath) (value : Value) (entries : Entries) : Option Entries :=
  update .dotted (fun form => form = .dotted ∨ form = .implied)
    (fun form entries =>
      if path.parents ≠ [] ∧ form ≠ .dotted then none else insert path.last value entries)
    .header path.parents entries

/-- Opens a table by its header.  A table that is known only as a parent may
still be opened, and then comes behind the others. -/
def openTable (key : String) (entries : Entries) : Option Entries :=
  match entries.lookup key with
  | none => some (entries ++ [(key, .table .header [])])
  | some (.table .implied child) =>
      some (entries.filter (·.1 != key) ++ [(key, .table .header child)])
  | some _ => none

/-- Opens another table of an array. -/
def openElement (key : String) (entries : Entries) : Option Entries :=
  match entries.lookup key with
  | none => some (entries ++ [(key, .array .headers [.table .header []])])
  | some (.array .headers items) =>
      some (set entries key (.array .headers (items ++ [.table .header []])))
  | some _ => none

/-- Changes the table that the keys of a header lead to. -/
def updateHeader (keys : List String) (change : Entries → Option Entries) (entries : Entries) :
    Option Entries :=
  update .implied (· ≠ .inline) (fun _ => change) .header keys entries

def ofPairs? (pairs : List (KeyPath × Value)) : Option Entries :=
  pairs.foldlM (fun entries (path, value) => insertPath path value entries) []

/-- Carries out one statement.  Entries go to the table that the last header
opened, which `place` leads to. -/
def apply (place : List String) (entries : Entries) : Statement → Option (List String × Entries)
  | .entry path value =>
      (updateHeader place (insertPath path value) entries).map fun entries => (place, entries)
  | .table path =>
      (updateHeader path.parents (openTable path.last) entries).map fun entries =>
        (path.parents ++ [path.last], entries)
  | .element path =>
      (updateHeader path.parents (openElement path.last) entries).map fun entries =>
        (path.parents ++ [path.last], entries)

def ofStatements? (statements : List Statement) : Option Entries :=
  (statements.foldlM (fun (place, entries) s => apply place entries s)
    (([] : List String), ([] : Entries))).map Prod.snd

end FlashImage.Toml.Entries
