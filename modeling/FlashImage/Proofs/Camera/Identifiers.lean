import FlashImage.Proofs.Camera.Queue
import FlashImage.Proofs.Literal

/-!
# Two ways of giving an identifier

On the command line a text is taken for a number if it is one, and for a name otherwise.
A manifest keeps every text as a name, and whether it is a number is looked at when it is
resolved.  Both ways come to the same, since literals and names are trimmed when they are
read and not only before.

* `command_forms`: both ways lead to one identifier, and displayed numbers are read back.
-/

namespace FlashImage

/-! ## The same but for a name -/

/-- The same outcome, or both times a name that is not known. -/
inductive Alike {α : Type} : Except CameraError α → Except CameraError α → Prop where
  | same (outcome : Except CameraError α) : Alike outcome outcome
  | unknown (name name' : String) :
      Alike (.error (.unknownCommand name)) (.error (.unknownCommand name'))

theorem Alike.bind {α β : Type} {x y : Except CameraError α} (alike : Alike x y)
    (f : α → Except CameraError β) : Alike (x >>= f) (y >>= f) := by
  cases alike with
  | same => exact .same _
  | unknown name name' => exact .unknown name name'

/-! ## Identifiers -/

theorem Command.lookup?_trim (name : String) :
    lookup? (String.ofList (Text.trim name.toList)) = lookup? name := by
  have h_same : normalize (Text.trim name.toList) = normalize name.toList := by
    rw [normalize, Text.trim_trim, normalize]
  simp only [lookup?, String.toList_ofList, h_same]

namespace CommandId

/-- The identifier that a text stands for, as a number or else as a name. -/
def ofText? (text : String) : Option UInt32 :=
  (Literal.word? text).or (Command.lookup? text)

theorem ofText?_trim (text : String) :
    ofText? (String.ofList (Text.trim text.toList)) = ofText? text := by
  rw [ofText?, Literal.word?_trim, Command.lookup?_trim, ofText?]

theorem resolve_named (text : String) :
    (named text).resolve = (ofText? text).elim (.error (.unknownCommand text)) .ok := by
  unfold resolve ofText?
  dsimp only
  -- what a text stands for is looked up in a table, which need not be opened
  generalize (Literal.word? text).or (Command.lookup? text) = found
  cases found with
  | some value => rfl
  | none => rfl

theorem resolve_parse (text : String) :
    (parse text).resolve = (ofText? text).elim
      (.error (.unknownCommand (String.ofList (Text.trim text.toList)))) .ok := by
  cases h_word : Literal.word? text with
  | some value =>
    have h_parse : parse text = numeric value := by
      unfold parse
      rw [h_word]
    rw [h_parse, ofText?, h_word, Option.some_or, Option.elim_some]
    rfl
  | none =>
    have h_parse : parse text = named (String.ofList (Text.trim text.toList)) := by
      unfold parse
      rw [h_word]
    rw [h_parse, resolve_named, ofText?_trim]

/-- Either both ways of giving an identifier find it, or neither does. -/
theorem resolve_cases (text : String) :
    (∃ identifier, (parse text).resolve = .ok identifier ∧
        (named text).resolve = .ok identifier) ∨
      ∃ name name', (parse text).resolve = .error (.unknownCommand name) ∧
        (named text).resolve = .error (.unknownCommand name') := by
  rw [resolve_parse, resolve_named]
  cases ofText? text with
  | some identifier => exact .inl ⟨identifier, rfl, rfl⟩
  | none => exact .inr ⟨_, _, rfl, rfl⟩

theorem resolve_alike (text : String) : Alike (parse text).resolve (named text).resolve := by
  rcases resolve_cases text with ⟨identifier, h_parse, h_named⟩ | ⟨name, name', h_parse, h_named⟩
  · rw [h_parse, h_named]
    exact .same _
  · rw [h_parse, h_named]
    exact .unknown name name'

theorem parse_display_numeric (value : UInt32) : parse (numeric value).display = numeric value := by
  unfold parse
  rw [display, Literal.word?_hex]

end CommandId

/-! ## Requests -/

namespace CameraBuilder

open CommandId (parse named)

theorem request_alike (b : CameraBuilder) (text : String) (input : CommandInput) :
    Alike (b.request ⟨parse text, input⟩) (b.request ⟨named text, input⟩) := by
  have reserve_alike : Alike (b.reserve (parse text)) (b.reserve (named text)) :=
    (CommandId.resolve_alike text).bind _
  cases input with
  | memory bytes => exact reserve_alike.bind _
  | file files source => exact reserve_alike.bind _

theorem afterRequest_forms (b : CameraBuilder) (text : String) (input : CommandInput) :
    b.afterRequest ⟨parse text, input⟩ = b.afterRequest ⟨named text, input⟩ := by
  have alike := b.request_alike text input
  unfold afterRequest
  generalize b.request ⟨parse text, input⟩ = x at alike ⊢
  generalize b.request ⟨named text, input⟩ = y at alike ⊢
  cases alike with
  | same => rfl
  | unknown => rfl

/-- A run of requests leaves the same builder in whichever way their identifiers are given. -/
theorem addAll_forms (b : CameraBuilder) (requests : List (String × CommandInput)) :
    b.addAll (requests.map fun (text, input) => ⟨parse text, input⟩) =
      b.addAll (requests.map fun (text, input) => ⟨named text, input⟩) := by
  induction requests generalizing b with
  | nil => rfl
  | cons r requests ih => simp only [List.map_cons, addAll, afterRequest_forms, ih]

end CameraBuilder

/-- A text that is read as an identifier and one that is kept as a name resolve to the same
number or are both unknown.  Requests with them are granted or refused alike in every
builder, and leave the same builder behind.  A number that is displayed is read back. -/
theorem command_forms :
    (∀ text : String,
        (∃ identifier, (CommandId.parse text).resolve = .ok identifier ∧
          (CommandId.named text).resolve = .ok identifier) ∨
        ∃ name name', (CommandId.parse text).resolve = .error (.unknownCommand name) ∧
          (CommandId.named text).resolve = .error (.unknownCommand name')) ∧
      (∀ (b : CameraBuilder) (text : String) (input : CommandInput),
        Alike (b.request ⟨.parse text, input⟩) (b.request ⟨.named text, input⟩)) ∧
      (∀ (b : CameraBuilder) (requests : List (String × CommandInput)),
        b.addAll (requests.map fun (text, input) => ⟨.parse text, input⟩) =
          b.addAll (requests.map fun (text, input) => ⟨.named text, input⟩)) ∧
      ∀ value : UInt32, CommandId.parse (CommandId.numeric value).display = .numeric value := by
  exact ⟨CommandId.resolve_cases, CameraBuilder.request_alike, CameraBuilder.addAll_forms,
    CommandId.parse_display_numeric⟩

end FlashImage
