import FlashImage.Toml.Quoted.Writing
import FlashImage.Toml.Statement

/-!
# Writing documents

Documents are written in sections: the entries in front of all headers, and
then a header with its entries at a time.  A blank line stands between two
sections.
-/

namespace FlashImage.Toml

/-- A value that documents are written with. -/
inductive Plain where
  | number (n : Nat)
  | text (s : String)
  | texts (items : List String)
  deriving DecidableEq, Repr

/-- The value that a plain value is read back as. -/
def Plain.value : Plain → Value
  | number n => .integer n
  | text s => .string s
  | texts items => .array .listed (items.map .string)

/-- A plain value as it is written.  An array of several texts has one on each
line. -/
def Plain.write : Plain → List Char
  | number n => Nat.toDigits 10 n
  | text s => Quoted.write s.toList
  | texts [] => ['[', ']']
  | texts [s] => '[' :: Quoted.write s.toList ++ [']']
  | texts items =>
      '[' :: items.flatMap (fun s => "\n    ".toList ++ Quoted.write s.toList ++ [',']) ++
        ['\n', ']']

/-- What a section begins with. -/
inductive Heading where
  /-- Nothing: the entries belong to the document itself. -/
  | top
  | table (key : String)
  | element (key : String)
  deriving DecidableEq, Repr

def Heading.write : Heading → List Char
  | top => []
  | table key => '[' :: key.toList ++ [']', '\n']
  | element key => '[' :: '[' :: key.toList ++ [']', ']', '\n']

/-- The statement that a heading is read back as. -/
def Heading.statements : Heading → List Statement
  | top => []
  | table key => [.table ⟨[], key⟩]
  | element key => [.element ⟨[], key⟩]

/-- A heading with the entries under it. -/
structure Section where
  heading : Heading
  entries : List (String × Plain)
  deriving DecidableEq, Repr

def writeEntry (entry : String × Plain) : List Char :=
  entry.1.toList ++ [' ', '=', ' '] ++ entry.2.write ++ ['\n']

def Section.write (s : Section) : List Char :=
  s.heading.write ++ s.entries.flatMap writeEntry

def Section.statements (s : Section) : List Statement :=
  s.heading.statements ++ s.entries.map fun (key, v) => .entry ⟨[], key⟩ v.value

def writeSections (sections : List Section) : List Char :=
  ['\n'].intercalate ((sections.map Section.write).filter (· ≠ []))

end FlashImage.Toml
