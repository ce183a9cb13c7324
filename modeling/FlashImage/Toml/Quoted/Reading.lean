import FlashImage.Text.Digits

/-!
# Reading quoted texts

A quoted text stands between single or double quotes on one line, or between
tripled quotes on any number of lines.  Escapes mean something between double
quotes only.

Reading has two steps: the extent of the text is found first, and then what
lies inside is checked and, between double quotes, unescaped.

* `Quoted.line?` reads a text on one line;
* `Quoted.read?` reads a text of either kind.
-/

namespace FlashImage.Toml.Quoted

open Text

/-- Whether a character may stand on a line of a document. -/
def isLineChar (c : Char) : Bool :=
  c == '\t' || (0x20 ≤ c.toNat && c.toNat != 0x7F)

/-- Whether a character may stand in a text of several lines. -/
def isBlockChar (c : Char) : Bool :=
  c == '\n' || isLineChar c

/-- Whether a character separates words on a line. -/
def isGap (c : Char) : Bool :=
  c == ' ' || c == '\t'

/-- The text up to the next double quote on the line that no backslash stands
in front of, and the text behind the quote. -/
def lineExtent : List Char → Option (List Char × List Char)
  | [] => none
  | '"' :: r => some ([], r)
  | '\\' :: c :: r =>
      if c = '\n' then none
      else (lineExtent r).map fun (body, rest) => ('\\' :: c :: body, rest)
  | c :: r =>
      if c = '\n' then none
      else (lineExtent r).map fun (body, rest) => (c :: body, rest)

/-- The text up to the next three quotes in a row, and the text behind them.
One or two further quotes right behind them still belong to the text.  With
`escapes`, a quote behind a backslash does not count. -/
def blockExtent (quote : Char) (escapes : Bool) : List Char → Option (List Char × List Char)
  | a :: b :: c :: r =>
      if a = quote ∧ b = quote ∧ c = quote then
        let more := (r.take 2).takeWhile (· == quote)
        some (more, r.drop more.length)
      else if escapes ∧ a = '\\' then
        (blockExtent quote escapes (c :: r)).map fun (body, rest) => (a :: b :: body, rest)
      else
        (blockExtent quote escapes (b :: c :: r)).map fun (body, rest) => (a :: body, rest)
  | _ => none

/-- The character that a letter behind a backslash stands for. -/
def escaped? : Char → Option Char
  | 'b' => some '\x08'
  | 't' => some '\t'
  | 'n' => some '\n'
  | 'f' => some '\x0C'
  | 'r' => some '\x0D'
  | '"' => some '"'
  | '\\' => some '\\'
  | _ => none

def coded? (digits : List Char) : Option Char := do
  let n ← number? 16 digits
  if n.isValidChar then some (Char.ofNat n) else none

/-- Whether only blanks stand before the end of the line. -/
def endsLine (s : List Char) : Bool :=
  (s.dropWhile isGap).head? == some '\n'

/-- Replaces the escapes of a text by what they stand for.  A backslash at the
end of a line takes away the line break and all blanks and line breaks that
follow; they are being passed over while `joining` is true. -/
def unescape (joining : Bool) : List Char → Option (List Char)
  | [] => some []
  | '\\' :: 'u' :: a :: b :: c :: d :: r => do
      let x ← coded? [a, b, c, d]
      (unescape false r).map (x :: ·)
  | '\\' :: 'U' :: a :: b :: c :: d :: e :: f :: g :: h :: r => do
      let x ← coded? [a, b, c, d, e, f, g, h]
      (unescape false r).map (x :: ·)
  | '\\' :: c :: r =>
      if endsLine (c :: r) then unescape true r
      else do
        let x ← escaped? c
        (unescape false r).map (x :: ·)
  | c :: r =>
      if joining && (isGap c || c == '\n') then unescape true r
      else if isBlockChar c && c != '\\' then (unescape false r).map (c :: ·)
      else none

def line? : List Char → Option (List Char × List Char)
  | '"' :: r => do
      let (body, rest) ← lineExtent r
      some (← unescape false body, rest)
  | '\'' :: r =>
      match r.dropWhile (· != '\'') with
      | _ :: rest =>
          let body := r.takeWhile (· != '\'')
          if body.all isLineChar then some (body, rest) else none
      | [] => none
  | _ => none

def dropBreak : List Char → List Char
  | '\n' :: r => r
  | r => r

/-- Reads a text between quotes or tripled quotes.  A line break right behind
the opening quotes does not belong to the text. -/
def read? : List Char → Option (List Char × List Char)
  | '"' :: '"' :: '"' :: r => do
      let (body, rest) ← blockExtent '"' true (dropBreak r)
      some (← unescape false body, rest)
  | '\'' :: '\'' :: '\'' :: r => do
      let (body, rest) ← blockExtent '\'' false (dropBreak r)
      if body.all isBlockChar then some (body, rest) else none
  | r => line? r

end FlashImage.Toml.Quoted
