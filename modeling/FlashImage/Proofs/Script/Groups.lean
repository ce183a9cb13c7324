import FlashImage.Script.Record
import Mathlib.Data.List.Chain

/-!
# Groups of records

A script falls into special records and maximal runs of adjacent rows of one
length, and it does so in exactly one way.

* `isGrouping_iff`: the one grouping of a list of records.
-/

namespace FlashImage.Script

/-- One or more rows, all of one length. -/
structure RowRun where
  width : Nat
  rows : List Bytes
  nonempty : rows ≠ []
  uniform : ∀ row ∈ rows, row.length = width

inductive Group where
  | special (selector : UInt32) (payload : Bytes)
  | run (run : RowRun)

namespace Group

def records : Group → List Record
  | special selector payload => [.special selector payload]
  | run r => r.rows.map .row

/-- Two runs of one row length, which would be one run side by side. -/
def Joins : Group → Group → Prop
  | run r, run s => r.width = s.width
  | _, _ => False

end Group

/-- The groups are all the records in their order, and no run could be longer. -/
structure IsGrouping (records : List Record) (gs : List Group) : Prop where
  whole : gs.flatMap Group.records = records
  maximal : gs.IsChain fun g h => ¬ g.Joins h

/-! ## Grouping from the end -/

namespace RowRun

def single (row : Bytes) : RowRun where
  width := row.length
  rows := [row]
  nonempty := by simp
  uniform := by simp

def cons (row : Bytes) (r : RowRun) (h : row.length = r.width) : RowRun where
  width := r.width
  rows := row :: r.rows
  nonempty := by simp
  uniform := by simpa [h] using r.uniform

end RowRun

theorem Group.joins_cons {row : Bytes} {r : RowRun} (h : row.length = r.width) {g : Group} :
    (run (r.cons row h)).Joins g ↔ (run r).Joins g := by
  cases g <;> rfl

def grouped : List Record → List Group
  | [] => []
  | .special selector payload :: records => .special selector payload :: grouped records
  | .row row :: records =>
      match grouped records with
      | .run r :: gs =>
          if h : row.length = r.width then .run (r.cons row h) :: gs
          else .run (.single row) :: .run r :: gs
      | gs => .run (.single row) :: gs

/-- The rows of a run join the row in front of them, and nothing else does. -/
inductive GroupedRow (row : Bytes) (records : List Record) : List Group → Prop where
  | joined {r : RowRun} {gs : List Group} (behind : grouped records = .run r :: gs)
      (same : row.length = r.width) : GroupedRow row records (.run (r.cons row same) :: gs)
  | alone (apart : ∀ r gs, grouped records = .run r :: gs → row.length ≠ r.width) :
      GroupedRow row records (.run (.single row) :: grouped records)

theorem grouped_row (row : Bytes) (records : List Record) :
    GroupedRow row records (grouped (.row row :: records)) := by
  rw [grouped]
  split
  next r gs behind =>
    split
    next same => exact .joined behind same
    next other =>
      rw [← behind]
      refine .alone fun s hs h_eq => ?_
      rw [behind] at h_eq
      cases h_eq
      exact other
  next no_run => exact .alone fun r gs h_eq => absurd h_eq (no_run r gs)

theorem exists_run_of_row (row : Bytes) (records : List Record) :
    ∃ r gs, grouped (.row row :: records) = .run r :: gs ∧ r.width = row.length := by
  have h_row := grouped_row row records
  generalize grouped (.row row :: records) = result at h_row
  cases h_row with
  | @joined r gs behind same => exact ⟨_, gs, rfl, same.symm⟩
  | alone apart => exact ⟨_, _, rfl, rfl⟩

theorem isGrouping_grouped (records : List Record) : IsGrouping records (grouped records) := by
  induction records with
  | nil => exact ⟨rfl, .nil⟩
  | cons record records ih =>
    cases record with
    | special selector payload =>
      refine ⟨?_, List.isChain_cons.mpr ⟨fun g _ h_joins => h_joins, ih.maximal⟩⟩
      simp [grouped, Group.records, ih.whole]
    | row row =>
      have h_row := grouped_row row records
      generalize grouped (.row row :: records) = result at h_row
      cases h_row with
      | @joined r gs behind same =>
        rw [behind] at ih
        refine ⟨?_, ?_⟩
        · simpa [Group.records, RowRun.cons] using ih.whole
        · simp only [List.isChain_cons, Group.joins_cons]
          exact List.isChain_cons.mp ih.maximal
      | alone apart =>
        refine ⟨by simp [Group.records, RowRun.single, ih.whole], ?_⟩
        rw [List.isChain_cons]
        refine ⟨fun g h_head => ?_, ih.maximal⟩
        cases g with
        | special selector payload => exact id
        | run r =>
          obtain ⟨gs, h_gs⟩ := List.head?_eq_some_iff.mp h_head
          exact apart r gs h_gs

/-! ## The only grouping -/

theorem grouped_rows_append {width : Nat} {rows : List Bytes} (nonempty : rows ≠ [])
    (uniform : ∀ row ∈ rows, row.length = width) {records : List Record}
    (apart : ∀ r gs, grouped records = .run r :: gs → width ≠ r.width) :
    grouped (rows.map .row ++ records) =
      .run ⟨width, rows, nonempty, uniform⟩ :: grouped records := by
  -- from the last row of the run to its first
  induction rows with
  | nil => exact absurd rfl nonempty
  | cons row rows ih =>
    have h_width : row.length = width := uniform row List.mem_cons_self
    have h_row := grouped_row row (rows.map .row ++ records)
    rw [List.map_cons, List.cons_append]
    generalize grouped (.row row :: (rows.map .row ++ records)) = result at h_row
    by_cases h_last : rows = []
    · subst h_last h_width
      cases h_row with
      | joined behind same => exact absurd same (apart _ _ behind)
      | alone _ => rfl
    · have h_behind := ih h_last fun s h_mem => uniform s (List.mem_cons_of_mem row h_mem)
      cases h_row with
      | joined behind same =>
        rw [h_behind] at behind
        cases behind
        rfl
      | alone apart => exact absurd h_width (apart _ _ h_behind)

theorem grouped_records_append (g : Group) {records : List Record}
    (apart : ∀ h ∈ (grouped records).head?, ¬ g.Joins h) :
    grouped (g.records ++ records) = g :: grouped records := by
  cases g with
  | special selector payload => rfl
  | run r =>
    refine grouped_rows_append r.nonempty r.uniform fun s gs h_eq => ?_
    exact apart (.run s) (by rw [h_eq]; rfl)

theorem IsGrouping.eq_grouped {records : List Record} {gs : List Group}
    (h : IsGrouping records gs) : gs = grouped records := by
  induction gs generalizing records with
  | nil =>
    obtain rfl := h.whole
    rfl
  | cons g gs ih =>
    obtain ⟨h_apart, h_tail⟩ := List.isChain_cons.mp h.maximal
    have h_gs := ih ⟨rfl, h_tail⟩
    rw [← h.whole, List.flatMap_cons, grouped_records_append g (h_gs ▸ h_apart), ← h_gs]

theorem isGrouping_iff {records : List Record} {gs : List Group} :
    IsGrouping records gs ↔ gs = grouped records :=
  ⟨IsGrouping.eq_grouped, fun h_eq => h_eq ▸ isGrouping_grouped records⟩

end FlashImage.Script
