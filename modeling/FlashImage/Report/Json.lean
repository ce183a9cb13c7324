import FlashImage.Text.Digits

/-!
# JSON reports

Reports are trees of numbers, strings, lists and objects, printed over several
lines with two blanks for each level.
-/

namespace FlashImage

/-- A report as a tree.  The fields of an object keep their order. -/
inductive Json where
  | null
  | number (n : Nat)
  | string (s : String)
  | list (items : List Json)
  | object (fields : List (String × Json))
  deriving Repr

namespace Json

/-- A character between quotes: quotes, backslashes and control characters are
written as escapes. -/
def escape (c : Char) : List Char :=
  match c with
  | '"' => ['\\', '"']
  | '\\' => ['\\', '\\']
  | '\x08' => ['\\', 'b']
  | '\t' => ['\\', 't']
  | '\n' => ['\\', 'n']
  | '\x0C' => ['\\', 'f']
  | '\x0D' => ['\\', 'r']
  | c =>
      if c.toNat < 0x20 then
        ['\\', 'u', '0', '0', Nat.digitChar (c.toNat / 16), Nat.digitChar (c.toNat % 16)]
      else [c]

def quote (s : String) : String :=
  "\"" ++ String.ofList (s.toList.flatMap escape) ++ "\""

/-- Texts, each on a line of its own behind a number of blanks, with commas
between them. -/
def lines (indent : Nat) (items : List String) : String :=
  ",".intercalate (items.map fun s => "\n" ++ String.ofList (List.replicate indent ' ') ++ s)

/-- Texts between brackets, which stand side by side if there are none. -/
def block (opening closing : String) (indent : Nat) (items : List String) : String :=
  if items = [] then opening ++ closing
  else
    opening ++ lines (indent + 2) items ++ "\n" ++ String.ofList (List.replicate indent ' ') ++
      closing

mutual

/-- The text of a report whose first line is indented by a number of blanks. -/
def render (indent : Nat) : Json → String
  | null => "null"
  | number n => toString n
  | string s => quote s
  | list items => block "[" "]" indent (renderItems (indent + 2) items)
  | object fields => block "\x7b" "\x7d" indent (renderFields (indent + 2) fields)

def renderItems (indent : Nat) : List Json → List String
  | [] => []
  | v :: vs => render indent v :: renderItems indent vs

def renderFields (indent : Nat) : List (String × Json) → List String
  | [] => []
  | (k, v) :: fs => (quote k ++ ": " ++ render indent v) :: renderFields indent fs

end

end Json

end FlashImage
