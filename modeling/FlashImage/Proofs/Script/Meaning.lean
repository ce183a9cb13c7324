import FlashImage.Proofs.Script.Blob
import FlashImage.Proofs.Script.Fields
import Mathlib.Logic.Relation

/-!
# What a script asks for

Every line of a script asks for a record or for nothing, whatever stands around it.
So neither the kind of the line ends matters nor the lines that ask for nothing.

* `script_meaning`: the records of every text, and which edits leave them alone.
-/

namespace FlashImage.Script

/-! ## The records of lines -/

/-- The records that lines ask for, in their order and with the numbers of the
lines; no others. -/
inductive Yields : List (Nat × List Char) → List Line → Prop where
  | nil : Yields [] []
  | record {number : Nat} {line : List Char} {r : Record} {lines : List (Nat × List Char)}
      {out : List Line} (asks : Asks line r) (rest : Yields lines out) :
      Yields ((number, line) :: lines) (⟨number, r⟩ :: out)
  | silent {number : Nat} {line : List Char} {lines : List (Nat × List Char)} {out : List Line}
      (silent : Silent line) (rest : Yields lines out) : Yields ((number, line) :: lines) out

theorem lineOf?_of_asks {number : Nat} {line : List Char} {r : Record} (asks : Asks line r) :
    lineOf? (number, line) = some ⟨number, r⟩ :=
  congrArg (Option.map (Line.mk number)) (asks_iff.mp asks)

theorem lineOf?_of_silent {number : Nat} {line : List Char} (silent : Silent line) :
    lineOf? (number, line) = none :=
  congrArg (Option.map (Line.mk number)) (silent_iff.mp silent)

theorem yields_iff {lines : List (Nat × List Char)} {out : List Line} :
    Yields lines out ↔ out = lines.filterMap lineOf? := by
  constructor
  · intro h
    induction h with
    | nil => rfl
    | record asks _ ih => rw [List.filterMap_cons_some (lineOf?_of_asks asks), ih]
    | silent silent _ ih => rw [List.filterMap_cons_none (lineOf?_of_silent silent), ih]
  · rintro rfl
    induction lines with
    | nil => exact .nil
    | cons numbered lines ih =>
      obtain ⟨number, line⟩ := numbered
      cases h_line : lineRecord? line with
      | none =>
        have silent := silent_iff.mpr h_line
        rw [List.filterMap_cons_none (lineOf?_of_silent silent)]
        exact .silent silent ih
      | some r =>
        have asks := asks_iff.mpr h_line
        rw [List.filterMap_cons_some (lineOf?_of_asks asks)]
        exact .record asks ih

theorem exists_lines (text : String) :
    ∃ lines, (∀ other, Cut [] text.toList other ↔ other = lines) ∧
      ∀ out, Yields lines out ↔ out = parse text := by
  obtain ⟨lines, cut⟩ := exists_cut [] text.toList
  refine ⟨lines, fun other => ⟨fun h => h.unique cut rfl, fun h => h ▸ cut⟩, fun out => ?_⟩
  rw [yields_iff, ← cut.recordsFrom_eq]
  rfl

/-! ## Texts with the same records -/

structure SameMeaning (t u : String) : Prop where
  records_eq : (parse t).map Line.record = (parse u).map Line.record
  blob_eq : (transcode t).toOption = (transcode u).toOption

theorem SameMeaning.of_recordsOf {t u : String} (h : recordsOf t.toList = recordsOf u.toList) :
    SameMeaning t u where
  records_eq := by rw [map_record_parse, map_record_parse, h]
  blob_eq := by rw [toOption_transcode, toOption_transcode, h]

/-! ## Other line ends -/

/-- The text with the given line end in place of each line feed. -/
def relined (stop : LineEnd) (text : List Char) : List Char :=
  text.flatMap fun c => if c = '\n' then stop.chars else [c]

theorem recordsOf_relined (stop : LineEnd) (text : List Char) :
    recordsOf (relined stop text) = recordsOf text := by
  -- what stands in front is carried along, and takes up one character after the other
  suffices h : ∀ before,
      recordsOf (before ++ relined stop text) = recordsOf (before ++ text) from h []
  induction text with
  | nil => exact fun _ => rfl
  | cons c text ih =>
    intro before
    rw [relined, List.flatMap_cons]
    split
    next h_lf =>
      subst h_lf
      have h_lf : before ++ '\n' :: text = before ++ LineEnd.lf.chars ++ text :=
        (List.append_assoc before ['\n'] text).symm
      rw [← List.append_assoc, h_lf, recordsOf_append, recordsOf_append]
      exact congrArg (recordsOf before ++ ·) (ih [])
    next =>
      have h_char := ih (before ++ [c])
      rw [List.append_assoc, List.append_assoc] at h_char
      exact h_char

/-! ## Silent lines -/

/-- One silent line is inserted, with the line end that it needs. -/
inductive Inserted : List Char → List Char → Prop where
  | first {line rest : List Char} (stop : LineEnd) (plain : Plain line) (silent : Silent line) :
      Inserted rest (line ++ stop.chars ++ rest)
  | last {before line : List Char} (stop : LineEnd) (plain : Plain line) (silent : Silent line) :
      Inserted before (before ++ stop.chars ++ line)
  | between {before line rest : List Char} (stop front back : LineEnd) (plain : Plain line)
      (silent : Silent line) :
      Inserted (before ++ stop.chars ++ rest)
        (before ++ front.chars ++ (line ++ back.chars ++ rest))

theorem recordsOf_of_silent {line : List Char} (plain : Plain line) (silent : Silent line) :
    recordsOf line = [] := by
  rw [recordsOf, recordsFrom_plain 0 plain, lineOf?_of_silent silent]
  rfl

theorem Inserted.recordsOf_eq {text edited : List Char} (h : Inserted text edited) :
    recordsOf edited = recordsOf text := by
  cases h with
  | first stop plain silent =>
    rw [recordsOf_append, recordsOf_of_silent plain silent, List.nil_append]
  | last stop plain silent =>
    rw [recordsOf_append, recordsOf_of_silent plain silent, List.append_nil]
  | between stop front back plain silent =>
    simp only [recordsOf_append, recordsOf_of_silent plain silent, List.nil_append]

theorem recordsOf_eq_of_edits {text edited : List Char} (h : Relation.EqvGen Inserted text edited) :
    recordsOf edited = recordsOf text := by
  induction h with
  | rel _ _ inserted => exact inserted.recordsOf_eq
  | refl => rfl
  | symm _ _ _ ih => exact ih.symm
  | trans _ _ _ _ _ ih ih' => exact ih'.trans ih

/-- A text is cut at its line ends in one way, and its records are those of the
lines.  They stay the same, and the blob with them, when another line end is
written for each line feed, or when silent lines are inserted and removed. -/
theorem script_meaning (text : String) :
    (∃ lines, (∀ other, Cut [] text.toList other ↔ other = lines) ∧
      ∀ out, Yields lines out ↔ out = parse text) ∧
    (∀ stop, SameMeaning (String.ofList (relined stop text.toList)) text) ∧
    ∀ edited : String, Relation.EqvGen Inserted text.toList edited.toList →
      SameMeaning edited text := by
  refine ⟨exists_lines text, fun stop => .of_recordsOf ?_, fun edited edits => .of_recordsOf ?_⟩
  · rw [String.toList_ofList, recordsOf_relined]
  · exact recordsOf_eq_of_edits edits

/-- Line ends of all kinds, two of them in a row, and one at the end of the text. -/
def mixedEnds : String :=
  "0x01,2 // 3\r\r\n\n/ / \r0x85, 1,\r\n0,9\r"

theorem script_meaning_mixedEnds :
    parse mixedEnds = [⟨1, .row [2]⟩, ⟨3, .special 5 [1]⟩] ∧
      SameMeaning "0x01,2 // 3\r\r\r\r/ / \r0x85, 1,\r\r0,9\r" mixedEnds ∧
      SameMeaning ("// 7\r" ++ mixedEnds) mixedEnds := by
  obtain ⟨-, h_relined, h_edited⟩ := script_meaning mixedEnds
  have plain : Plain "// 7".toList := ⟨by decide, by decide⟩
  have silent : Silent "// 7".toList :=
    .comment (fun _ h_mem => absurd h_mem List.not_mem_nil) (List.nil_append _).symm
  refine ⟨rfl, h_relined .cr, h_edited _ (.rel _ _ ?_)⟩
  rw [String.toList_append]
  exact .first .cr plain silent

end FlashImage.Script
