import FlashImage.Proofs.Manifest.Substitution
import FlashImage.Proofs.Utf8.Native

/-!
# Templates

A text consists of literals and references by turns, and that in one way only: a
reference has its mark at its front and nowhere else, so no two references overlap.
The scan from left to right therefore finds all of them.

* `substitute_fill`: the substitute of a text, reference by reference.
-/

namespace FlashImage

open Substitution

/-- A text, cut at its references. -/
inductive Template where
  /-- A text without references. -/
  | last (literal : List Char) (free : Free literal)
  /-- A text up to its first reference, the name that this refers to, and what follows it. -/
  | next (literal : List Char) (free : Free literal) (name : List Char) (isName : IsName name)
      (rest : Template)

namespace Template

/-- The literals as they are, and a text in the place of each name. -/
def fill (f : List Char → List Char) : Template → List Char
  | last literal _ => literal
  | next literal _ name _ rest => literal ++ f name ++ rest.fill f

/-- The names that the template refers to. -/
def names : Template → List (List Char)
  | last _ _ => []
  | next _ _ name _ rest => name :: rest.names

/-- The literals in UTF-8, and the given bytes in the place of each name. -/
def fillBytes (f : List Char → Bytes) : Template → Bytes
  | last literal _ => literal.flatMap String.utf8EncodeChar
  | next literal _ name _ rest =>
      literal.flatMap String.utf8EncodeChar ++ f name ++ rest.fillBytes f

def parts : Template → List Part
  | last literal _ => literal.map .char
  | next literal _ name _ rest => literal.map .char ++ .reference name :: rest.parts

/-! ## Where references stand -/

/-- The mark of a reference stands in no other reference, so the two cannot overlap. -/
theorem reference?_append_mention {c : Char} {literal : List Char} (free : Free (c :: literal))
    (name rest : List Char) : reference? (c :: literal ++ mention name ++ rest) = none := by
  by_contra h_other
  obtain ⟨⟨other, behind⟩, h_reference⟩ := Option.ne_none_iff_exists'.mp h_other
  obtain ⟨isName, h_text⟩ := reference?_eq_some_iff.mp h_reference
  rw [List.append_assoc, List.append_eq_append_iff] at h_text
  rcases h_text with ⟨overlap, h_mention, h_overlap⟩ | ⟨more, h_literal, -⟩
  · cases overlap with
    | nil => exact free other isName ⟨[], [], by simp [h_mention]⟩
    | cons d overlap =>
      obtain rfl : '$' = d := List.head_eq_of_cons_eq h_overlap
      have h_tail : '{' :: (other ++ ['}']) = literal ++ '$' :: overlap :=
        List.tail_eq_of_cons_eq h_mention
      have h_mem : '$' ∈ '{' :: (other ++ ['}']) := by simp [h_tail]
      simp [isName.mark_notMem] at h_mem
  · exact free other isName ⟨[], more, by simp [h_literal]⟩

/-! ## What the scan finds -/

theorem parts_append_mention {literal name : List Char} (free : Free literal) (isName : IsName name)
    (rest : List Char) :
    Substitution.parts (literal ++ mention name ++ rest) =
      literal.map .char ++ .reference name :: Substitution.parts rest := by
  induction literal with
  | nil => exact parts_of_reference (reference?_eq_some_iff.mpr ⟨isName, rfl⟩)
  | cons c literal ih =>
    calc Substitution.parts (c :: literal ++ mention name ++ rest)
        = .char c :: Substitution.parts (literal ++ mention name ++ rest) :=
          parts_cons_of_none (reference?_append_mention free name rest)
      _ = (c :: literal).map .char ++ .reference name :: Substitution.parts rest := by
          rw [ih free.tail, List.map_cons, List.cons_append]

/-- The scan cuts a text into the parts of its template. -/
theorem parts_fill (t : Template) : Substitution.parts (t.fill mention) = t.parts := by
  induction t with
  | last literal free => exact parts_of_free free
  | next literal free name isName rest ih => rw [fill, parts_append_mention free isName, ih, parts]

theorem flatMap_expand_parts (t : Template) (env : Environment) :
    t.parts.flatMap (Part.expand env) = t.fill (valueOf env) := by
  have h_literal : ∀ literal : List Char,
      (literal.map Part.char).flatMap (Part.expand env) = literal := fun literal => by
    simp [List.flatMap_map, Part.expand]
  induction t with
  | last literal free => exact h_literal literal
  | next literal free name isName rest ih =>
    simp [parts, fill, h_literal, ih, Part.expand]

/-! ## One template for each text -/

theorem char_append_reference_inj {l l' name name' : List Char} {rest rest' : List Part}
    (h : l.map .char ++ .reference name :: rest = l'.map .char ++ .reference name' :: rest') :
    l = l' ∧ name = name' ∧ rest = rest' := by
  induction l generalizing l' with
  | nil =>
    cases l' with
    | nil => simpa using h
    | cons d l' => simp at h
  | cons c l ih =>
    cases l' with
    | nil => simp at h
    | cons d l' =>
      simp only [List.map_cons, List.cons_append, List.cons.injEq, Part.char.injEq] at h
      obtain ⟨rfl, rfl, h_rest⟩ := And.imp_right ih h
      exact ⟨rfl, h_rest⟩

theorem char_ne_append_reference (l l' name : List Char) (rest : List Part) :
    l.map .char ≠ l'.map .char ++ .reference name :: rest := by
  intro h
  have h_mem : Part.reference name ∈ l.map Part.char := by simp [h]
  simp at h_mem

theorem parts_injective : Function.Injective parts := by
  intro t
  induction t with
  | last literal free =>
    intro u h
    cases u with
    | last literal' free' =>
      obtain rfl : literal = literal' := (List.map_inj_right fun _ _ => Part.char.inj).mp h
      rfl
    | next => exact absurd h (char_ne_append_reference _ _ _ _)
  | next literal free name isName rest ih =>
    intro u h
    cases u with
    | last => exact absurd h.symm (char_ne_append_reference _ _ _ _)
    | next =>
      obtain ⟨rfl, rfl, h_rest⟩ := char_append_reference_inj h
      obtain rfl := ih h_rest
      rfl

/-- Every text has a template, which the scan builds from its end. -/
theorem exists_fill (s : List Char) : ∃ t : Template, t.fill mention = s := by
  induction s using Substitution.parts.induct with
  | case1 => exact ⟨.last [] free_nil, rfl⟩
  | case2 c s name rest h_reference ih =>
    obtain ⟨t, rfl⟩ := ih
    obtain ⟨isName, h_text⟩ := reference?_eq_some_iff.mp h_reference
    exact ⟨.next [] free_nil name isName t, h_text.symm⟩
  | case3 c s h_none ih =>
    obtain ⟨t, rfl⟩ := ih
    cases t with
    | last literal free => exact ⟨.last (c :: literal) (free.cons List.prefix_rfl h_none), rfl⟩
    | next literal free name isName rest =>
      have h_front : literal <+: (next literal free name isName rest).fill mention := by
        simp [fill, List.append_assoc]
      exact ⟨.next (c :: literal) (free.cons h_front h_none) name isName rest, rfl⟩

/-! ## Bytes -/

theorem flatMap_fill (t : Template) (f : List Char → List Char) :
    (t.fill f).flatMap String.utf8EncodeChar =
      t.fillBytes fun name => (f name).flatMap String.utf8EncodeChar := by
  induction t with
  | last literal free => rfl
  | next literal free name isName rest ih => simp only [fill, fillBytes, List.flatMap_append, ih]

theorem length_fillBytes_le (t : Template) {f g : List Char → Bytes}
    (h : ∀ name, (f name).length ≤ (g name).length) :
    (t.fillBytes f).length ≤ (t.fillBytes g).length := by
  induction t with
  | last literal free => exact Nat.le_refl _
  | next literal free name isName rest ih =>
    have h_name := h name
    simp only [fillBytes, List.length_append]
    omega

/-- Bytes that stand for a name or for nothing at all: two fillings agree only if they agree
at every name. -/
theorem fillBytes_inj {t : Template} {f g : List Char → Bytes}
    (h : ∀ name, f name = g name ∨ f name = []) :
    t.fillBytes f = t.fillBytes g ↔ ∀ name ∈ t.names, f name = g name := by
  have h_le : ∀ name, (f name).length ≤ (g name).length := fun name => by
    rcases h name with h_eq | h_nil
    · rw [h_eq]
    · rw [h_nil]
      exact Nat.zero_le _
  induction t with
  | last literal free => exact iff_of_true rfl nofun
  | next literal free name isName rest ih =>
    rw [names, List.forall_mem_cons]
    constructor
    · intro h_fill
      have h_lengths := congrArg List.length h_fill
      simp only [fillBytes, List.length_append] at h_lengths
      have h_name := h_le name
      have h_rest := rest.length_fillBytes_le h_le
      have h_same : f name = g name := by
        rcases h name with h_eq | h_nil
        · exact h_eq
        · have h_none : (g name).length = 0 := by
            rw [h_nil, List.length_nil] at h_lengths
            omega
          rw [h_nil, List.length_eq_zero_iff.mp h_none]
      rw [fillBytes, fillBytes, h_same] at h_fill
      exact ⟨h_same, ih.mp (List.append_cancel_left h_fill)⟩
    · rintro ⟨h_name, h_rest⟩
      rw [fillBytes, fillBytes, h_name, ih.mpr h_rest]

end Template

/-! ## Values -/

/-- What a reference is replaced by: the value of its variable, if that is text.  Nothing
comes in the place of a value that is not, as for a variable that is not set. -/
inductive Value (env : Environment) (name : List Char) : List Char → Prop where
  | text {value : NativeText} {text : List Char}
      (set : env.lookup (String.ofList name) = some value)
      (encoded : value.bytes = text.flatMap String.utf8EncodeChar) : Value env name text
  | notText {value : NativeText} (set : env.lookup (String.ofList name) = some value)
      (notText : ¬ value.IsText) : Value env name []
  | unset (unset : env.lookup (String.ofList name) = none) : Value env name []

/-- The bytes of a variable that is set. -/
def valueBytes (env : Environment) (name : List Char) : Bytes :=
  (env.lookup (String.ofList name)).elim [] (·.bytes)

section Values

variable {env : Environment} {name : List Char}

theorem valueOf_of_text {value : NativeText} {text : List Char}
    (set : env.lookup (String.ofList name) = some value)
    (encoded : value.bytes = text.flatMap String.utf8EncodeChar) : valueOf env name = text := by
  have h_text : value.toString? = some (String.ofList text) := by
    rw [NativeText.toString?, Utf8.decode?_eq_some_iff, Utf8.encode, String.toList_ofList]
    exact encoded
  rw [valueOf, set, Option.bind_some, h_text, Option.getD_some, String.toList_ofList]

theorem valueOf_of_notText {value : NativeText}
    (set : env.lookup (String.ofList name) = some value) (notText : ¬ value.IsText) :
    valueOf env name = [] := by
  have h_none : value.toString? = none := by
    rw [NativeText.isText_iff, ← Option.isSome_iff_exists, Option.not_isSome_iff_eq_none] at notText
    exact notText
  rw [valueOf, set, Option.bind_some, h_none]
  rfl

theorem valueOf_of_unset (unset : env.lookup (String.ofList name) = none) :
    valueOf env name = [] := by
  rw [valueOf, unset]
  rfl

theorem value_iff {text : List Char} : Value env name text ↔ valueOf env name = text := by
  constructor
  · intro value
    cases value with
    | text set encoded => exact valueOf_of_text set encoded
    | notText set notText => exact valueOf_of_notText set notText
    | unset unset => exact valueOf_of_unset unset
  · rintro rfl
    cases set : env.lookup (String.ofList name) with
    | none =>
      rw [valueOf_of_unset set]
      exact .unset set
    | some value =>
      by_cases isText : value.IsText
      · obtain ⟨s, encoded⟩ := isText
        rw [valueOf_of_text set encoded]
        exact .text set encoded
      · rw [valueOf_of_notText set isText]
        exact .notText set isText

/-- A reference stands for the bytes of its variable, unless these are no text. -/
theorem flatMap_valueOf_cases :
    (valueOf env name).flatMap String.utf8EncodeChar = valueBytes env name ∨
      (valueOf env name).flatMap String.utf8EncodeChar = [] := by
  have value : Value env name (valueOf env name) := value_iff.mpr rfl
  generalize valueOf env name = text at value ⊢
  cases value with
  | text set encoded =>
    rw [valueBytes, set]
    exact .inl encoded.symm
  | notText | unset => exact .inr rfl

theorem flatMap_valueOf_eq_iff :
    (valueOf env name).flatMap String.utf8EncodeChar = valueBytes env name ↔
      ∀ value, env.lookup (String.ofList name) = some value → value.IsText := by
  constructor
  · intro h_bytes value set
    rw [valueBytes, set] at h_bytes
    exact ⟨String.ofList (valueOf env name), by rw [String.toList_ofList]; exact h_bytes.symm⟩
  · intro h_text
    cases set : env.lookup (String.ofList name) with
    | none => rw [valueOf_of_unset set, valueBytes, set]; rfl
    | some value =>
      obtain ⟨s, encoded⟩ := h_text value set
      rw [valueOf_of_text set encoded, valueBytes, set]
      exact encoded.symm

end Values

end FlashImage
