import FlashImage.Toml.Reading
import FlashImage.Toml.Writing

/-!
# Codecs of documents

The programs that read and write documents are interchangeable: whoever uses documents is
told by a codec how.

* `Outline` is a document as it is handed over for writing;
* `Codec.standard` reads and writes by the grammar of `Toml.Reading` and `Toml.Writing`.
-/

namespace FlashImage.Toml

/-- A document with entries of its own, one table and the tables of one array. -/
structure Outline where
  top : List (String × Plain)
  tableKey : String
  table : List (String × Plain)
  elementKey : String
  elements : List (List (String × Plain))

def Outline.sections (o : Outline) : List Section :=
  ⟨.top, o.top⟩ :: ⟨.table o.tableKey, o.table⟩ ::
    o.elements.map fun e => ⟨.element o.elementKey, e⟩

/-- How documents are read and written. -/
structure Codec where
  /-- The entries of a document, if the text is one. -/
  read? : String → Option Entries
  write : Outline → String

def Codec.standard : Codec where
  read? := parse?
  write o := String.ofList (writeSections o.sections)

end FlashImage.Toml
