import FlashImage.Text.Digits

/-!
# Writing quoted texts

A text is written in the plainest of four styles that can hold it.

* `Quoted.Style.choose` is the style of a text;
* `Quoted.write` is the text between quotes, with escapes where its style needs
  them.
-/

namespace FlashImage.Toml.Quoted

/-- How a text is quoted. -/
inductive Style where
  /-- Double quotes, with escapes, on one line. -/
  | basic
  /-- Single quotes, without escapes, on one line. -/
  | literal
  /-- Tripled double quotes, with escapes. -/
  | basicBlock
  /-- Tripled single quotes, without escapes. -/
  | literalBlock
  deriving DecidableEq, Repr

/-- Whether a character can be written as an escape only. -/
def isControl (c : Char) : Bool :=
  (c.toNat < 0x20 && c != '\t' && c != '\n') || c.toNat == 0x7F

/-- The number of times that the longest run of a character repeats it, if a run
of `current` stands in front of the text and the longest run before that is
`longest`. -/
def longestRunFrom (quote : Char) (current longest : Nat) : List Char → Nat
  | [] => longest
  | c :: s =>
      if c = quote then longestRunFrom quote (current + 1) (max longest (current + 1)) s
      else longestRunFrom quote 0 longest s

/-- The length of the longest run of a character in a text. -/
def longestRun (quote : Char) (s : List Char) : Nat :=
  longestRunFrom quote 0 0 s

/-- The plainest style that can hold a text. -/
def Style.choose (s : List Char) : Style :=
  let hasControls := s.any isControl
  let hasBreaks := s.contains '\n'
  let hasBackslashes := s.contains '\\'
  if !hasControls && !hasBackslashes && !s.contains '"' && !hasBreaks then basic
  else if !hasControls && !s.contains '\'' && !hasBreaks then literal
  else if !hasControls && !hasBackslashes && longestRun '"' s ≤ 2 then basicBlock
  else if !hasControls && longestRun '\'' s ≤ 2 then literalBlock
  else if hasBreaks then basicBlock
  else basic

/-- The last four hexadecimal digits of a number, in upper case. -/
def fourDigits (n : Nat) : List Char :=
  let digit (n : Nat) : Char := (Nat.digitChar (n % 16)).toUpper
  [digit (n / 4096), digit (n / 256), digit (n / 16), digit n]

def escape (c : Char) : List Char :=
  match c with
  | '\x08' => ['\\', 'b']
  | '\t' => ['\\', 't']
  | '\n' => ['\\', 'n']
  | '\x0C' => ['\\', 'f']
  | '\x0D' => ['\\', 'r']
  | '"' => ['\\', '"']
  | '\\' => ['\\', '\\']
  | c => if isControl c then '\\' :: 'u' :: fourDigits c.toNat else [c]

/-- A text between tripled double quotes.  Line breaks stand as they are, and so
do quotes as long as no three of them come together; `run` quotes stand in
front of the text. -/
def escapeBlock (run : Nat) : List Char → List Char
  | [] => []
  | c :: s =>
      if c = '"' then
        if run = 2 then escape c ++ escapeBlock 0 s else c :: escapeBlock (run + 1) s
      else if c = '\n' then c :: escapeBlock 0 s
      else escape c ++ escapeBlock 0 s

/-- What opens a block: the tripled quotes, and a line break if the text has
line breaks itself. -/
def opening (quote : Char) (s : List Char) : List Char :=
  [quote, quote, quote] ++ if s.contains '\n' then ['\n'] else []

def Style.write (s : List Char) : Style → List Char
  | basic => ['"'] ++ s.flatMap escape ++ ['"']
  | literal => ['\''] ++ s ++ ['\'']
  | basicBlock => opening '"' s ++ escapeBlock 0 s ++ ['"', '"', '"']
  | literalBlock => opening '\'' s ++ s ++ ['\'', '\'', '\'']

def write (s : List Char) : List Char :=
  (Style.choose s).write s

end FlashImage.Toml.Quoted
