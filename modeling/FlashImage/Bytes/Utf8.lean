import FlashImage.Bytes.Word

/-!
# UTF-8

A byte string is scanned into pieces: each well-formed character is one piece,
and so is each maximal part of a broken sequence.  The three ways in which
text is read differ only in what they make of a broken piece.

* `Utf8.encode` is the bytes of a text;
* `Utf8.decode?` refuses broken pieces;
* `Utf8.decodeLossy` puts U+FFFD in the place of each;
* `Utf8.decodeValid` leaves them out.
-/

namespace FlashImage.Utf8

/-- A part of a byte string, as the scan cuts it. -/
inductive Piece where
  /-- A well-formed character. -/
  | char (c : Char)
  /-- A maximal part of a broken sequence. -/
  | broken
  deriving DecidableEq, Repr

def Piece.char? : Piece → Option Char
  | .char c => some c
  | .broken => none

/-- The character of a piece, or U+FFFD if it is broken. -/
def Piece.charOrReplacement : Piece → Char
  | .char c => c
  | .broken => '\uFFFD'

def within (low high : Nat) (b : UInt8) : Bool :=
  low ≤ b.toNat && b.toNat ≤ high

/-- The six payload bits of a continuation byte. -/
def payload (b : UInt8) : Nat :=
  b.toNat % 0x40

/-- The range of the byte after a lead byte of three or four bytes: narrower
where the sequence would be overlong, a surrogate or beyond U+10FFFF. -/
def secondRange (lead : Nat) : Nat × Nat :=
  if lead = 0xE0 then (0xA0, 0xBF)
  else if lead = 0xED then (0x80, 0x9F)
  else if lead = 0xF0 then (0x90, 0xBF)
  else if lead = 0xF4 then (0x80, 0x8F)
  else (0x80, 0xBF)

/-- Reads the piece that begins with a lead byte, and the number of bytes after
the lead byte that belong to it. -/
def piece (lead : UInt8) (rest : Bytes) : Piece × Nat :=
  let n := lead.toNat
  let second := within (secondRange n).1 (secondRange n).2
  let next := within 0x80 0xBF
  if n < 0x80 then (.char (Char.ofNat n), 0)
  -- the lead bytes 0xC0 and 0xC1 would begin overlong sequences
  else if 0xC2 ≤ n ∧ n ≤ 0xDF then
    match rest with
    | b :: _ =>
        if next b then (.char (Char.ofNat ((n - 0xC0) * 0x40 + payload b)), 1) else (.broken, 0)
    | [] => (.broken, 0)
  else if 0xE0 ≤ n ∧ n ≤ 0xEF then
    match rest with
    | b :: c :: _ =>
        if second b then
          if next c then
            (.char (Char.ofNat ((n - 0xE0) * 0x1000 + payload b * 0x40 + payload c)), 2)
          else (.broken, 1)
        else (.broken, 0)
    | [b] => (.broken, if second b then 1 else 0)
    | [] => (.broken, 0)
  else if 0xF0 ≤ n ∧ n ≤ 0xF4 then
    match rest with
    | b :: c :: d :: _ =>
        if second b then
          if next c then
            if next d then
              (.char (Char.ofNat ((n - 0xF0) * 0x40000 + payload b * 0x1000 + payload c * 0x40 +
                payload d)), 3)
            else (.broken, 2)
          else (.broken, 1)
        else (.broken, 0)
    | [b, c] => (.broken, if second b then if next c then 2 else 1 else 0)
    | [b] => (.broken, if second b then 1 else 0)
    | [] => (.broken, 0)
  else (.broken, 0)

def pieces : Bytes → List Piece
  | [] => []
  | lead :: rest =>
      let (p, n) := piece lead rest
      p :: pieces (rest.drop n)
  termination_by d => d.length
  decreasing_by simp only [List.length_drop, List.length_cons]; omega

def encode (s : String) : Bytes :=
  s.toList.flatMap String.utf8EncodeChar

/-- The text of a byte string without broken pieces. -/
def decode? (d : Bytes) : Option String :=
  ((pieces d).mapM Piece.char?).map String.ofList

/-- The text with U+FFFD in the place of each broken piece. -/
def decodeLossy (d : Bytes) : String :=
  String.ofList ((pieces d).map Piece.charOrReplacement)

/-- The text without its broken pieces. -/
def decodeValid (d : Bytes) : String :=
  String.ofList ((pieces d).filterMap Piece.char?)

end FlashImage.Utf8
