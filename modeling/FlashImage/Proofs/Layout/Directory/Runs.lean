import FlashImage.Proofs.Layout.Directory
import Mathlib.Data.List.Induction

/-!
# Directories after any run of steps

A directory under construction takes entries and pins in any order.  An entry
whose identifier has been added before is refused, and the table stays as it was.
So what a run leaves depends on the entries that it tried to add and on its last
pin, and on nothing else.

* `table_after_steps`: entries, order and bytes of a directory after any run.
-/

namespace FlashImage

namespace DirectoryEntry

/-! ## First entries -/

/-- The entries whose identifier none before them has. -/
def firsts : List DirectoryEntry → List DirectoryEntry
  | [] => []
  | e :: es => e :: (firsts es).filter (·.identifier != e.identifier)

theorem mem_identifiers_firsts {es : List DirectoryEntry} {identifier : UInt32} :
    identifier ∈ (firsts es).map (·.identifier) ↔ identifier ∈ es.map (·.identifier) := by
  induction es with
  | nil => rfl
  | cons e es ih =>
    have h_rest : ((firsts es).filter (·.identifier != e.identifier)).map (·.identifier) =
        ((firsts es).map (·.identifier)).filter (· != e.identifier) := by
      rw [List.filter_map]
      rfl
    rw [firsts, List.map_cons, h_rest, List.map_cons, List.mem_cons, List.mem_cons, List.mem_filter,
      ih, bne_iff_ne]
    constructor
    · exact Or.imp_right And.left
    · intro h
      by_cases h_first : identifier = e.identifier
      · exact .inl h_first
      · exact .inr ⟨h.resolve_left h_first, h_first⟩

theorem nodup_identifiers_firsts (es : List DirectoryEntry) :
    ((firsts es).map (·.identifier)).Nodup := by
  induction es with
  | nil => exact List.nodup_nil
  | cons e es ih =>
    rw [firsts, List.map_cons, List.nodup_cons]
    refine ⟨fun h_mem => ?_, ih.sublist (List.filter_sublist.map _)⟩
    obtain ⟨x, h_x, h_eq⟩ := List.mem_map.mp h_mem
    exact bne_iff_ne.mp (List.mem_filter.mp h_x).2 h_eq

theorem firsts_concat (es : List DirectoryEntry) (e : DirectoryEntry) :
    firsts (es ++ [e]) =
      if e.identifier ∈ es.map (·.identifier) then firsts es else firsts es ++ [e] := by
  induction es with
  | nil => rfl
  | cons x es ih =>
    rw [List.cons_append, firsts, ih, firsts]
    by_cases h_later : e.identifier ∈ es.map (·.identifier)
    · have h_mem : e.identifier ∈ (x :: es).map (·.identifier) := List.mem_cons_of_mem _ h_later
      rw [if_pos h_later, if_pos h_mem]
    · rw [if_neg h_later, List.filter_append]
      by_cases h_first : e.identifier = x.identifier
      · have h_mem : e.identifier ∈ (x :: es).map (·.identifier) := h_first ▸ List.mem_cons_self
        rw [if_pos h_mem, List.filter_cons_of_neg (by simp [h_first]), List.filter_nil,
          List.append_nil]
      · have h_new : e.identifier ∉ (x :: es).map (·.identifier) :=
          fun h_mem => (List.mem_cons.mp h_mem).elim h_first h_later
        rw [if_neg h_new, List.filter_cons_of_pos (by simp [h_first]), List.filter_nil,
          List.cons_append]

/-! ## Chunks -/

theorem decode?_chunk (es : List DirectoryEntry) (k : Nat) :
    decode? (((es.flatMap encode).drop (12 * k)).take 12) = es[k]? := by
  induction es generalizing k with
  | nil => simp [decode?, Word.read?]
  | cons e es ih =>
    rw [List.flatMap_cons]
    cases k with
    | zero =>
      rw [Nat.mul_zero, List.drop_zero, List.take_left' e.length_encode,
        ← List.append_nil e.encode, decode?_encode_append]
      rfl
    | succ k =>
      rw [Nat.mul_succ, Nat.add_comm, ← List.drop_drop, List.drop_left' e.length_encode, ih,
        List.getElem?_cons_succ]

end DirectoryEntry

/-! ## Steps -/

open DirectoryEntry (firsts firsts_concat mem_identifiers_firsts nodup_identifiers_firsts)

namespace DirectoryTable

/-- What may be done to a directory under construction. -/
inductive Step where
  | add (e : DirectoryEntry)
  | pin (identifier : Option UInt32)

/-- A refused entry leaves the table as it was. -/
def step (t : DirectoryTable) : Step → DirectoryTable
  | .add e =>
      match t.add e with
      | .ok after => after
      | .error _ => t
  | .pin identifier => t.pin identifier

/-- The table that a run of steps leaves of an empty one. -/
def ofSteps (steps : List Step) : DirectoryTable :=
  steps.foldl step {}

def Step.entry? : Step → Option DirectoryEntry
  | add e => some e
  | pin _ => none

def Step.pin? : Step → Option (Option UInt32)
  | add _ => none
  | pin identifier => some identifier

/-- The entries that a run tries to add, whether they are refused or not. -/
def attempted (steps : List Step) : List DirectoryEntry :=
  steps.filterMap Step.entry?

/-- What the last pin of a run pins. -/
def lastPin (steps : List Step) : Option UInt32 :=
  (steps.filterMap Step.pin?).getLast?.join

theorem ofSteps_concat (steps : List Step) (s : Step) :
    ofSteps (steps ++ [s]) = (ofSteps steps).step s := by
  rw [ofSteps, List.foldl_append]
  rfl

theorem ofSteps_eq (steps : List Step) :
    ofSteps steps = { entries := firsts (attempted steps), pinned := lastPin steps } := by
  induction steps using List.reverseRecOn with
  | nil => rfl
  | append_singleton steps s ih =>
    rw [ofSteps_concat, ih]
    cases s with
    | add e =>
      have h_attempted : attempted (steps ++ [.add e]) = attempted steps ++ [e] :=
        List.filterMap_append
      have h_pin : lastPin (steps ++ [.add e]) = lastPin steps := by
        simp [lastPin, Step.pin?]
      have h_contains : (⟨firsts (attempted steps), lastPin steps⟩ : DirectoryTable).contains
          e.identifier = true ↔ e.identifier ∈ (attempted steps).map (·.identifier) :=
        contains_iff.trans mem_identifiers_firsts
      rw [h_attempted, h_pin, firsts_concat]
      split
      next taken => rw [step, add_of_taken (h_contains.mpr taken)]
      next fresh => rw [step, add_of_fresh (Bool.eq_false_iff.mpr (mt h_contains.mp fresh)), push]
    | pin identifier =>
      have h_attempted : attempted (steps ++ [.pin identifier]) = attempted steps := by
        simp [attempted, Step.entry?]
      have h_pin : lastPin (steps ++ [.pin identifier]) = identifier := by
        simp [lastPin, Step.pin?]
      rw [h_attempted, h_pin, step, pin]

theorem add_ofSteps (steps : List Step) (e : DirectoryEntry) :
    (ofSteps steps).add e =
      if e.identifier ∈ (attempted steps).map (·.identifier) then .error ⟨e.identifier⟩
      else .ok ((ofSteps steps).push e) := by
  have h_contains : (ofSteps steps).contains e.identifier = true ↔
      e.identifier ∈ (attempted steps).map (·.identifier) := by
    rw [contains_iff, ofSteps_eq, mem_identifiers_firsts]
  split
  next taken => exact add_of_taken (h_contains.mpr taken)
  next fresh => exact add_of_fresh (Bool.eq_false_iff.mpr (mt h_contains.mp fresh))

/-! ## The order of a directory -/

theorem ordered_of_absent {t : DirectoryTable}
    (absent : ∀ k, t.pinned = some k → t.contains k = false) : t.ordered = t.entries := by
  unfold ordered
  split
  · rfl
  next k h_pinned =>
    have h_none : t.entries.find? (·.identifier == k) = none := by
      have h_absent := absent k h_pinned
      rw [contains, List.any_eq_false] at h_absent
      exact List.find?_eq_none.mpr h_absent
    rw [h_none]

theorem ordered_of_split {t : DirectoryTable} (distinct : (t.entries.map (·.identifier)).Nodup)
    {front back : List DirectoryEntry} {e : DirectoryEntry}
    (h_entries : t.entries = front ++ e :: back)
    (h_pinned : t.pinned = some e.identifier) : t.ordered = e :: (front ++ back) := by
  have h_front : ∀ x ∈ front, ¬ (x.identifier == e.identifier) = true := by
    intro x h_mem h_eq
    rw [h_entries, List.map_append, List.nodup_append] at distinct
    exact distinct.2.2 _ (List.mem_map_of_mem h_mem) _ (List.mem_map_of_mem List.mem_cons_self)
      (eq_of_beq h_eq)
  have h_find : t.entries.find? (·.identifier == e.identifier) = some e := by
    rw [h_entries]
    exact List.find?_eq_some_iff_append.mpr
      ⟨beq_self_eq_true _, front, back, rfl, fun x h_mem => by simpa using h_front x h_mem⟩
  unfold ordered
  rw [h_pinned]
  dsimp only
  rw [h_find, h_entries, List.eraseP_append_right _ h_front,
    List.eraseP_cons_of_pos (by exact beq_self_eq_true _)]

end DirectoryTable

open DirectoryTable

/-- After any run of steps the entries are those whose identifier had not been added
before, and each other one was refused.  They are written in this order, but for the
one that the last pin names, which comes first; and what is written is read back. -/
theorem table_after_steps (steps : List DirectoryTable.Step) :
    (ofSteps steps).entries = firsts (attempted steps) ∧
    (∀ e, e.identifier ∈ (attempted steps).map (·.identifier) →
      (ofSteps steps).add e = .error ⟨e.identifier⟩ ∧
        ofSteps (steps ++ [.add e]) = ofSteps steps) ∧
    (∀ e, e.identifier ∉ (attempted steps).map (·.identifier) →
      (ofSteps steps).add e = .ok (ofSteps (steps ++ [.add e])) ∧
        (ofSteps (steps ++ [.add e])).entries = (ofSteps steps).entries ++ [e]) ∧
    ((ofSteps steps).entries.map (·.identifier)).Nodup ∧
    ((∀ k, lastPin steps = some k → k ∉ (ofSteps steps).entries.map (·.identifier)) →
      (ofSteps steps).ordered = (ofSteps steps).entries) ∧
    (∀ k, lastPin steps = some k → k ∈ (ofSteps steps).entries.map (·.identifier) →
      ∃ front e back, e.identifier = k ∧ (ofSteps steps).entries = front ++ e :: back ∧
        (ofSteps steps).ordered = e :: (front ++ back)) ∧
    (ofSteps steps).ordered.Perm (ofSteps steps).entries ∧
    (ofSteps steps).encode.length = (ofSteps steps).byteSize ∧
    (ofSteps steps).byteSize = 12 * (ofSteps steps).size ∧
    (∀ k, DirectoryEntry.decode? (((ofSteps steps).encode.drop (12 * k)).take 12) =
      (ofSteps steps).ordered[k]?) ∧
    DirectoryEntry.decodeMany (ofSteps steps).size (ofSteps steps).encode =
      (ofSteps steps).ordered ∧
    ∀ other, attempted other = attempted steps →
      (ofSteps other).entries = (ofSteps steps).entries ∧
        (lastPin other = lastPin steps → ofSteps other = ofSteps steps) := by
  have h_run := ofSteps_eq steps
  have h_pinned : (ofSteps steps).pinned = lastPin steps := congrArg DirectoryTable.pinned h_run
  have h_entries : (ofSteps steps).entries = firsts (attempted steps) :=
    congrArg DirectoryTable.entries h_run
  have distinct : ((ofSteps steps).entries.map (·.identifier)).Nodup :=
    h_entries ▸ nodup_identifiers_firsts _
  refine ⟨h_entries, fun e taken => ?_, fun e fresh => ?_, distinct, fun absent => ?_,
    fun k h_last h_mem => ?_, ordered_perm _, ?_, Nat.mul_comm _ _,
    DirectoryEntry.decode?_chunk _, ?_, fun other h_same => ⟨?_, fun h_last => ?_⟩⟩
  · have h_add : (ofSteps steps).add e = .error ⟨e.identifier⟩ := by
      rw [add_ofSteps, if_pos taken]
    exact ⟨h_add, by rw [ofSteps_concat, step, h_add]⟩
  · have h_add : (ofSteps steps).add e = .ok ((ofSteps steps).push e) := by
      rw [add_ofSteps, if_neg fresh]
    have h_step : ofSteps (steps ++ [.add e]) = (ofSteps steps).push e := by
      rw [ofSteps_concat, step, h_add]
    exact ⟨by rw [h_step, h_add], by rw [h_step, push]⟩
  · refine ordered_of_absent fun k h_k => ?_
    rw [Bool.eq_false_iff, ne_eq, contains_iff]
    exact absent k (h_pinned ▸ h_k)
  · obtain ⟨e, h_e, rfl⟩ := List.mem_map.mp h_mem
    obtain ⟨front, back, h_split⟩ := List.append_of_mem h_e
    exact ⟨front, e, back, rfl, h_split,
      ordered_of_split distinct h_split (h_pinned.trans h_last)⟩
  · rw [length_encode, byteSize, size, DirectoryEntry.width, Nat.mul_comm]
  · have h_size : (ofSteps steps).size = (ofSteps steps).ordered.length :=
      (length_ordered _).symm
    rw [h_size, encode, DirectoryEntry.decodeMany_flatMap_encode]
  · rw [ofSteps_eq, ofSteps_eq, h_same]
  · rw [ofSteps_eq, ofSteps_eq, h_same, h_last]

/-- A pin that is set before its entry is added and replaced after it, and an entry
that is added twice. -/
def pinnedSteps : List DirectoryTable.Step :=
  [.pin (some 0x1002), .add ⟨0x1003, 0, 1⟩, .add ⟨0x1001, 1, 2⟩, .add ⟨0x1003, 3, 4⟩,
    .add ⟨0x1002, 3, 1⟩, .pin (some 0x1001)]

theorem table_after_steps_pinned :
    (ofSteps pinnedSteps).entries = [⟨0x1003, 0, 1⟩, ⟨0x1001, 1, 2⟩, ⟨0x1002, 3, 1⟩] ∧
    (ofSteps pinnedSteps).ordered = [⟨0x1001, 1, 2⟩, ⟨0x1003, 0, 1⟩, ⟨0x1002, 3, 1⟩] ∧
    (ofSteps pinnedSteps).add ⟨0x1003, 3, 4⟩ = .error ⟨0x1003⟩ ∧
    (∃ front e back, e.identifier = 0x1001 ∧ (ofSteps pinnedSteps).entries = front ++ e :: back ∧
      (ofSteps pinnedSteps).ordered = e :: (front ++ back)) := by
  obtain ⟨-, refused, -, -, -, pinned, -⟩ := table_after_steps pinnedSteps
  exact ⟨by decide, by decide, (refused ⟨0x1003, 3, 4⟩ (by decide)).1,
    pinned 0x1001 (by decide) (by decide)⟩

end FlashImage
