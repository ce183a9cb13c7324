import FlashImage.Proofs.Text
import FlashImage.Script.Record
import Mathlib.Data.Bool.AllAny
import Mathlib.Data.List.Basic

/-!
# What a line of a script says

A line is cleaned in several steps before its fields are read: blanks, a comment
and commas are cut off.  All of it amounts to the fields in front of the first two
slashes, since blanks around a field do not matter and an empty field is no byte.

* `parseLine?_eq_some_iff`: the bytes that a line asks for.
-/

namespace FlashImage.Script

open Text

/-! ## The fields of a text -/

theorem ne_of_isBlank {c : Char} (h_blank : isBlank c = true) : c ≠ '/' ∧ c ≠ ',' := by
  constructor
  · rintro rfl
    exact absurd h_blank (by decide)
  · rintro rfl
    exact absurd h_blank (by decide)

/-- The bytes among the fields of a text; fields that are no byte are passed over. -/
def bytesOf (text : List Char) : Bytes :=
  (text.splitOn ',').filterMap parseField?

theorem bytesOf_field {field : List Char} (h_plain : ',' ∉ field) :
    bytesOf field = (parseField? field).toList := by
  rw [bytesOf, List.splitOn_eq_singleton h_plain, List.filterMap_eq_flatMap_toList,
    List.flatMap_singleton]

theorem bytesOf_append_cons (left right : List Char) :
    bytesOf (left ++ ',' :: right) = bytesOf left ++ bytesOf right := by
  rw [bytesOf, List.splitOn_append_cons_self, List.filterMap_append]
  rfl

@[simp] theorem bytesOf_nil : bytesOf [] = [] := by
  rw [bytesOf_field List.not_mem_nil]
  rfl

theorem bytesOf_cons_blank {c : Char} (h_blank : isBlank c = true) (text : List Char) :
    bytesOf (c :: text) = bytesOf text := by
  have h_comma : ',' ≠ c := (ne_of_isBlank h_blank).2.symm
  have h_field : ∀ field, ',' ∉ field → bytesOf (c :: field) = bytesOf field := by
    intro field h_plain
    rw [bytesOf_field h_plain, bytesOf_field (by simp [h_comma, h_plain]), parseField?,
      trim_cons_blank h_blank, parseField?]
  by_cases h_mem : ',' ∈ text
  · obtain ⟨field, rest, rfl, h_plain⟩ := List.eq_append_cons_of_mem h_mem
    rw [← List.cons_append, bytesOf_append_cons, bytesOf_append_cons, h_field field h_plain]
  · exact h_field text h_mem

theorem bytesOf_concat_blank {c : Char} (h_blank : isBlank c = true) (text : List Char) :
    bytesOf (text ++ [c]) = bytesOf text := by
  have h_comma : ',' ≠ c := (ne_of_isBlank h_blank).2.symm
  induction text using split_induction ',' with
  | last field h_plain =>
    rw [bytesOf_field h_plain, bytesOf_field (by simp [h_comma, h_plain]), parseField?,
      trim_concat_blank h_blank, parseField?]
  | next field rest _ ih =>
    rw [List.append_assoc, List.cons_append, bytesOf_append_cons, bytesOf_append_cons, ih]

/-! ## Around the fields -/

/-- What may stand around the fields of a line at will. -/
def IsPadding (c : Char) : Prop :=
  isBlank c = true ∨ c = ','

instance : DecidablePred IsPadding :=
  fun _ => inferInstanceAs (Decidable (_ ∨ _))

theorem IsPadding.ne_slash {c : Char} (padding : IsPadding c) : c ≠ '/' := by
  rcases padding with h_blank | rfl
  · exact (ne_of_isBlank h_blank).1
  · decide

/-- The field in front of a comma that leads a text is empty. -/
theorem bytesOf_cons_padding {c : Char} (padding : IsPadding c) (text : List Char) :
    bytesOf (c :: text) = bytesOf text := by
  rcases padding with h_blank | rfl
  · exact bytesOf_cons_blank h_blank text
  · exact bytesOf_append_cons [] text

theorem bytesOf_concat_padding {c : Char} (padding : IsPadding c) (text : List Char) :
    bytesOf (text ++ [c]) = bytesOf text := by
  rcases padding with h_blank | rfl
  · exact bytesOf_concat_blank h_blank text
  · rw [bytesOf_append_cons, bytesOf_nil, List.append_nil]

/-! ## Cleaning a line -/

theorem bytesOf_trim (text : List Char) : bytesOf (trim text) = bytesOf text :=
  apply_trim (fun _ s h_blank => bytesOf_cons_blank h_blank s)
    (fun _ s h_blank => bytesOf_concat_blank h_blank s) text

theorem bytesOf_dropTrailing (text : List Char) :
    bytesOf (dropTrailing ',' text) = bytesOf text := by
  induction text using List.reverseRecOn with
  | nil => rfl
  | append_singleton text c ih =>
    by_cases h_comma : c = ','
    · rw [bytesOf_concat_padding (.inr h_comma), ← ih]
      simp [dropTrailing, h_comma]
    · simp [dropTrailing, h_comma]

/-- The bytes of a line, without any cleaning but that of the comment. -/
def lineBytes (line : List Char) : Bytes :=
  bytesOf (beforeDouble '/' line)

theorem lineBytes_cons_padding {c : Char} (padding : IsPadding c) (line : List Char) :
    lineBytes (c :: line) = lineBytes line := by
  rw [lineBytes, beforeDouble_cons_of_ne padding.ne_slash, bytesOf_cons_padding padding, lineBytes]

theorem lineBytes_concat_padding {c : Char} (padding : IsPadding c) (line : List Char) :
    lineBytes (line ++ [c]) = lineBytes line := by
  rw [lineBytes, lineBytes]
  rcases beforeDouble_concat padding.ne_slash line with h_cut | ⟨h_all, h_kept⟩
  · rw [h_cut]
  · rw [h_kept, h_all, bytesOf_concat_padding padding]

theorem lineBytes_trim (line : List Char) : lineBytes (trim line) = lineBytes line :=
  apply_trim (fun _ s h_blank => lineBytes_cons_padding (.inl h_blank) s)
    (fun _ s h_blank => lineBytes_concat_padding (.inl h_blank) s) line

theorem bytesOf_cleanLine (line : List Char) : bytesOf (cleanLine line) = lineBytes line := by
  rw [cleanLine, bytesOf_trim, bytesOf_dropTrailing]
  exact lineBytes_trim line

theorem lineBytes_padding_append {before : List Char} (padding : ∀ c ∈ before, IsPadding c)
    (line : List Char) :
    lineBytes (before ++ line) = lineBytes line := by
  induction before with
  | nil => rfl
  | cons c before ih =>
    rw [List.forall_mem_cons] at padding
    rw [List.cons_append, lineBytes_cons_padding padding.1, ih padding.2]

theorem lineBytes_append_padding {after : List Char} (padding : ∀ c ∈ after, IsPadding c)
    (line : List Char) :
    lineBytes (line ++ after) = lineBytes line := by
  induction after generalizing line with
  | nil => rw [List.append_nil]
  | cons c after ih =>
    rw [List.forall_mem_cons] at padding
    rw [List.append_cons, ih padding.2, lineBytes_concat_padding padding.1]

theorem parseLine?_eq (line : List Char) :
    parseLine? line = if lineBytes line = [] then none else some (lineBytes line) := by
  have h_bytes : ((cleanLine line).splitOn ',').filterMap parseField? = lineBytes line :=
    bytesOf_cleanLine line
  rw [parseLine?, h_bytes]
  cases lineBytes line <;> rfl

/-! ## What a line says -/

/-- The bytes among the fields in front of the first two slashes. -/
inductive Holds (line : List Char) : Bytes → Prop where
  | intro {body : List Char} (front : InFront '/' line body) :
      Holds line ((body.splitOn ',').filterMap parseField?)

theorem holds_iff {line : List Char} {bytes : Bytes} :
    Holds line bytes ↔ lineBytes line = bytes := by
  constructor
  · rintro ⟨front⟩
    rw [lineBytes, inFront_iff.mp front, bytesOf]
  · rintro rfl
    exact .intro (inFront_beforeDouble '/' line)

/-- A line is read as the bytes among the fields in front of its comment, and as nothing if
there are none; blanks and commas around it make no difference. -/
theorem parseLine?_eq_some_iff (line : List Char) :
    (∀ bytes, parseLine? line = some bytes ↔ bytes ≠ [] ∧ Holds line bytes) ∧
      (parseLine? line = none ↔ Holds line []) ∧
      ∀ before after : List Char, (∀ c ∈ before ++ after, IsPadding c) →
        parseLine? (before ++ line ++ after) = parseLine? line := by
  refine ⟨fun bytes => ?_, ?_, fun before after padding => ?_⟩
  · rw [parseLine?_eq, holds_iff, Option.ite_none_left_eq_some, Option.some.injEq]
    constructor
    · rintro ⟨h_some, rfl⟩
      exact ⟨h_some, rfl⟩
    · rintro ⟨h_some, rfl⟩
      exact ⟨h_some, rfl⟩
  · simp [parseLine?_eq, holds_iff]
  · obtain ⟨h_before, h_after⟩ := List.forall_mem_append.mp padding
    rw [parseLine?_eq, parseLine?_eq, lineBytes_append_padding h_after,
      lineBytes_padding_append h_before]

/-- Commas and blanks of several kinds stand in front of a line with a comment and behind it. -/
theorem parseLine?_eq_some_iff_padded :
    Holds "0x10, ,zz,+7 /, 5 // 6".toList [0x10, 5] ∧
      parseLine? "0x10, ,zz,+7 /, 5 // 6".toList = some [0x10, 5] ∧
      parseLine? (", \t,\u00A0".toList ++ "0x10, ,zz,+7 /, 5 // 6".toList ++ " ,\u3000,,".toList) =
        some [0x10, 5] := by
  obtain ⟨h_some, -, h_padding⟩ := parseLine?_eq_some_iff "0x10, ,zz,+7 /, 5 // 6".toList
  have h_line : parseLine? "0x10, ,zz,+7 /, 5 // 6".toList = some [0x10, 5] := by decide
  have h_ends : ∀ c ∈ ", \t,\u00A0".toList ++ " ,\u3000,,".toList, IsPadding c := by
    rw [← List.all_iff_forall_prop]
    rfl
  exact ⟨((h_some _).mp h_line).2, h_line, (h_padding _ _ h_ends).trans h_line⟩

/-- A first byte below `0x80` leads a row, and a larger one tells the selector of
a special record. -/
inductive Asks (line : List Char) : Record → Prop where
  | row {first : UInt8} {rest : Bytes} (holds : Holds line (first :: rest))
      (h_pos : 1 ≤ first.toNat) (h_le : first.toNat ≤ 0x7F) : Asks line (.row rest)
  | special {first : UInt8} {rest : Bytes} {selector : UInt32} (holds : Holds line (first :: rest))
      (h_ge : 0x80 ≤ first.toNat) (h_selector : selector.toNat = first.toNat - 0x80) :
      Asks line (.special selector rest)

inductive Silent (line : List Char) : Prop where
  | blank (h_blank : ∀ c ∈ line, isBlank c = true)
  | comment {blanks rest : List Char} (h_blank : ∀ c ∈ blanks, isBlank c = true)
      (h_line : line = blanks ++ '/' :: '/' :: rest)
  | unparsable (holds : Holds line [])
  | zero {rest : Bytes} (holds : Holds line (0 :: rest))

def lineRecord? (line : List Char) : Option Record :=
  (parseLine? line).bind recordOf?

theorem lineRecord?_eq (line : List Char) : lineRecord? line = recordOf? (lineBytes line) := by
  rw [lineRecord?, parseLine?_eq]
  cases lineBytes line <;> rfl

theorem selector_eq {first : UInt8} (h_ge : 0x80 ≤ first.toNat) {selector : UInt32} :
    (first - 0x80).toUInt32 = selector ↔ selector.toNat = first.toNat - 0x80 := by
  have h_sub : (first - 0x80).toNat = first.toNat - 0x80 :=
    UInt8.toNat_sub_of_le first 0x80 (UInt8.le_iff_toNat_le.mpr h_ge)
  rw [← UInt32.toNat_inj, UInt8.toNat_toUInt32, h_sub, eq_comm]

theorem recordOf?_cons (first : UInt8) (rest : Bytes) :
    recordOf? (first :: rest) =
      if first.toNat = 0 then none
      else if first.toNat ≤ 0x7F then some (.row rest)
      else some (.special (first - 0x80).toUInt32 rest) := by
  have h_zero : first = 0 ↔ first.toNat = 0 := by
    rw [← UInt8.toNat_inj]
    rfl
  have h_low : first < 0x80 ↔ first.toNat ≤ 0x7F := by
    rw [UInt8.lt_iff_toNat_lt]
    exact Nat.lt_succ_iff
  simp only [recordOf?, h_zero, h_low]

theorem asks_iff {line : List Char} {r : Record} : Asks line r ↔ lineRecord? line = some r := by
  rw [lineRecord?_eq]
  constructor
  · intro h
    cases h with
    | row holds h_pos h_le =>
      rw [holds_iff.mp holds, recordOf?_cons, if_neg (by omega), if_pos h_le]
    | special holds h_ge h_selector =>
      rw [holds_iff.mp holds, recordOf?_cons, if_neg (by omega), if_neg (by omega),
        (selector_eq h_ge).mpr h_selector]
  · intro h
    cases h_bytes : lineBytes line with
    | nil =>
      rw [h_bytes] at h
      cases h
    | cons first rest =>
      have holds := holds_iff.mpr h_bytes
      rw [h_bytes, recordOf?_cons] at h
      split at h
      · cases h
      next h_pos =>
        split at h
        next h_le =>
          cases h
          exact .row holds (Nat.pos_of_ne_zero h_pos) h_le
        next h_ge =>
          cases h
          have h_ge : 0x80 ≤ first.toNat := by omega
          exact .special holds h_ge ((selector_eq h_ge).mp rfl)

theorem silent_iff {line : List Char} : Silent line ↔ lineRecord? line = none := by
  rw [lineRecord?_eq]
  constructor
  · intro h
    cases h with
    | blank h_blank =>
      rw [← List.append_nil line, lineBytes_padding_append fun c h_mem => .inl (h_blank c h_mem)]
      rfl
    | comment h_blank h_line =>
      rw [h_line, lineBytes_padding_append fun c h_mem => .inl (h_blank c h_mem), lineBytes,
        beforeDouble, if_pos ⟨rfl, rfl⟩, bytesOf_nil]
      rfl
    | unparsable holds =>
      rw [holds_iff.mp holds]
      rfl
    | zero holds =>
      rw [holds_iff.mp holds]
      rfl
  · intro h
    cases h_bytes : lineBytes line with
    | nil => exact .unparsable (holds_iff.mpr h_bytes)
    | cons first rest =>
      rw [h_bytes, recordOf?_cons] at h
      split at h
      next h_zero =>
        obtain rfl : first = 0 := UInt8.toNat_inj.mp h_zero
        exact .zero (holds_iff.mpr h_bytes)
      · split at h <;> cases h

end FlashImage.Script
