import FlashImage.Bytes.Native

/-!
# Variables in manifests

A text may refer to variables of the environment as `${NAME}`, where a name
begins with a letter of ASCII or an underscore and goes on with these and
digits.  A text is cut into references and single other characters, from left
to right; every reference is then replaced by the value of its variable, and
what it is replaced by is not looked at again.
-/

namespace FlashImage

/-- The variables that manifests may refer to, with their values. -/
abbrev Environment := List (String × NativeText)

namespace Substitution

def isNameStart (c : Char) : Bool :=
  c.isAlpha || c == '_'

def isNameChar (c : Char) : Bool :=
  c.isAlphanum || c == '_'

/-- The name of the reference that a text begins with, and the text behind it. -/
def reference? : List Char → Option (List Char × List Char)
  | '$' :: '{' :: c :: s =>
      if isNameStart c then
        match s.dropWhile isNameChar with
        | '}' :: rest => some (c :: s.takeWhile isNameChar, rest)
        | _ => none
      else none
  | _ => none

/-- A text is longer than what stands behind the reference that it begins with. -/
theorem length_lt_of_reference? {s name rest : List Char}
    (h : reference? s = some (name, rest)) : rest.length < s.length := by
  unfold reference? at h
  split at h
  · rename_i c s
    split at h
    · split at h
      · rename_i rest' hrest
        cases h
        have hle : (s.dropWhile isNameChar).length ≤ s.length :=
          (List.dropWhile_sublist _).length_le
        rw [hrest] at hle
        simp only [List.length_cons] at hle ⊢
        omega
      · cases h
    · cases h
  · cases h

/-- A part of a text. -/
inductive Part where
  /-- A character outside references, which stands for itself. -/
  | char (c : Char)
  | reference (name : List Char)
  deriving DecidableEq, Repr

def parts : List Char → List Part
  | [] => []
  | c :: s =>
      match _h : reference? (c :: s) with
      | some (name, rest) => .reference name :: parts rest
      | none => .char c :: parts s
  termination_by s => s.length
  decreasing_by
    · exact length_lt_of_reference? _h
    · simp

/-- The value of a variable.  It is empty if the variable is not set, or if its value
is no UTF-8. -/
def valueOf (env : Environment) (name : List Char) : List Char :=
  (((env.lookup (String.ofList name)).bind NativeText.toString?).getD "").toList

def Part.name? : Part → Option String
  | char _ => none
  | reference name => some (String.ofList name)

def Part.expand (env : Environment) : Part → List Char
  | char c => [c]
  | reference name => valueOf env name

def names (text : String) : List String :=
  (parts text.toList).filterMap Part.name?

end Substitution

/-- The text with its references replaced by the values of their variables. -/
def substitute (env : Environment) (text : String) : String :=
  String.ofList ((Substitution.parts text.toList).flatMap (Substitution.Part.expand env))

end FlashImage
