import FlashImage.Proofs.Literal

/-!
# The characters of a literal

A text that is read as a number has no characters but digits, letters, underscores and
plus signs, apart from the blanks around it.  So the marks that separate settings stand in
no literal.

* `word?_eq_none_of_mem`: a text with any other character is no literal.
-/

namespace FlashImage.Literal

open Text

/-- The plus sign, and what lies between the digit zero and the letter z. -/
def IsLiteralChar (c : Char) : Prop :=
  c = '+' ∨ 0x30 ≤ c.toNat ∧ c.toNat ≤ 0x7A

instance : DecidablePred IsLiteralChar :=
  fun _ => inferInstanceAs (Decidable (_ ∨ _))

theorem Optional.isLiteralChar {mark c : Char} {s : List Char} (optional : Optional mark s)
    (h_mark : IsLiteralChar mark) (h_mem : c ∈ s) : IsLiteralChar c := by
  rcases optional with rfl | rfl
  · cases h_mem
  · rwa [List.mem_singleton.mp h_mem]

theorem Spelled.isLiteralChar {radix : Nat} (h_radix : radix ≤ 16) {c : Char} {s : List Char}
    {ds : List Nat} (spelled : Spelled radix s ds) (h_mem : c ∈ s) : IsLiteralChar c := by
  rcases spelled.mem h_mem with rfl | ⟨d, digit⟩
  · decide
  · have h_range := digit.range h_radix
    exact .inr (by omega)

theorem Plussed.isLiteralChar {radix : Nat} (h_radix : radix ≤ 16) {c : Char} {s : List Char}
    {ds : List Nat} (plussed : Plussed radix s ds) (h_mem : c ∈ s) : IsLiteralChar c := by
  obtain ⟨under, body, gap, rfl, spelled⟩ := plussed
  rcases List.mem_cons.mp h_mem with rfl | h_mem
  · decide
  · rcases List.mem_append.mp h_mem with h_under | h_body
    · exact gap.isLiteralChar (by decide) h_under
    · exact spelled.isLiteralChar h_radix h_body

/-- A radix mark with its zero, and what stands behind it. -/
theorem isLiteralChar_marked {mark c : Char} {radix : Nat} {under body : List Char}
    (announced : (mark.toLower, radix) ∈ marks) (gap : Optional '_' under)
    (h_body : c ∈ body → IsLiteralChar c) (h_mem : c ∈ '0' :: mark :: (under ++ body)) :
    IsLiteralChar c := by
  simp only [List.mem_cons, List.mem_append] at h_mem
  rcases h_mem with rfl | rfl | h_under | h_mem
  · decide
  · obtain ⟨rfl | rfl, -⟩ | ⟨rfl | rfl, -⟩ | ⟨rfl | rfl, -⟩ := mem_marks_iff.mp announced
    all_goals decide
  · exact gap.isLiteralChar (by decide) h_under
  · exact h_body h_mem

theorem Denotes.isLiteralChar {t : List Char} {v : Nat} {c : Char} (denotes : Denotes t v)
    (h_mem : c ∈ t) : IsLiteralChar c := by
  obtain ⟨plus, body, sign, rfl, unsigned⟩ := denotes
  rcases List.mem_append.mp h_mem with h_plus | h_mem
  · exact sign.isLiteralChar (by decide) h_plus
  · cases unsigned with
    | marked announced gap spelled =>
      obtain ⟨⟨-, -, h_radix⟩, -⟩ := forall_marks announced
      exact isLiteralChar_marked announced gap (spelled.isLiteralChar h_radix) h_mem
    | decimal spelled => exact spelled.isLiteralChar (by decide) h_mem

theorem Strays.isLiteralChar {t : List Char} {v : Nat} {c : Char} (strays : Strays t v)
    (h_mem : c ∈ t) : IsLiteralChar c := by
  cases strays with
  | marked sign announced gap plussed =>
    obtain ⟨⟨-, -, h_radix⟩, -⟩ := forall_marks announced
    rcases List.mem_append.mp h_mem with h_plus | h_mem
    · exact sign.isLiteralChar (by decide) h_plus
    · exact isLiteralChar_marked announced gap (plussed.isLiteralChar h_radix) h_mem
  | decimal plussed =>
    rcases List.mem_cons.mp h_mem with rfl | h_mem
    · decide
    · exact plussed.isLiteralChar (by decide) h_mem

theorem isLiteralChar_of_read? {t : List Char} {v : Nat} {c : Char} (h_read : read? t = some v)
    (h_mem : c ∈ t) : IsLiteralChar c := by
  obtain ⟨-, denotes | strays⟩ := read?_eq_some_iff.mp h_read
  · exact denotes.isLiteralChar h_mem
  · exact strays.isLiteralChar h_mem

theorem word?_eq_none_of_mem {s : String} {c : Char} (h_mem : c ∈ s.toList)
    (h_blank : isBlank c = false) (h_char : ¬ IsLiteralChar c) : word? s = none := by
  have h_parse : parse? s = none := by
    refine Option.eq_none_iff_forall_ne_some.mpr fun v h_read => h_char ?_
    exact isLiteralChar_of_read? h_read ((mem_trim_iff h_blank).mpr h_mem)
  rw [word?, h_parse]
  rfl

end FlashImage.Literal
