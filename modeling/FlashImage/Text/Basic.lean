/-!
# Characters of a text

What texts are read by: the case of letters, blanks, and cuts at a mark.

* `lower` and `upper` change the letters of ASCII, and no other character has a case here;
* `isBlank` is the Unicode property `White_Space`, not the ASCII blanks alone, and `trim`
  drops the blanks at both ends;
* `cutAt` cuts at the first mark.  Cutting at every mark is `List.splitOn`.
-/

namespace FlashImage.Text

def lower (s : List Char) : List Char :=
  s.map Char.toLower

def upper (s : List Char) : List Char :=
  s.map Char.toUpper

/-- Whether a character has the Unicode property `White_Space`. -/
def isBlank (c : Char) : Bool :=
  let n := c.toNat
  (0x9 ≤ n && n ≤ 0xD) || n == 0x20 || n == 0x85 || n == 0xA0 || n == 0x1680 ||
    (0x2000 ≤ n && n ≤ 0x200A) || n == 0x2028 || n == 0x2029 || n == 0x202F ||
    n == 0x205F || n == 0x3000

def trimStart (s : List Char) : List Char :=
  s.dropWhile isBlank

def trimEnd (s : List Char) : List Char :=
  (s.reverse.dropWhile isBlank).reverse

def trim (s : List Char) : List Char :=
  trimEnd (trimStart s)

/-- The parts before and after the first `mark`, if the list has one. -/
def cutAt {α : Type} [DecidableEq α] (mark : α) : List α → Option (List α × List α)
  | [] => none
  | c :: s =>
      if c = mark then some ([], s)
      else (cutAt mark s).map fun (head, tail) => (c :: head, tail)

/-- The part before the first pair of adjacent `mark`s; the whole text if it
has no such pair. -/
def beforeDouble (mark : Char) : List Char → List Char
  | a :: b :: s =>
      if a = mark ∧ b = mark then [] else a :: beforeDouble mark (b :: s)
  | s => s

def dropTrailing (mark : Char) (s : List Char) : List Char :=
  (s.reverse.dropWhile (· == mark)).reverse

end FlashImage.Text
