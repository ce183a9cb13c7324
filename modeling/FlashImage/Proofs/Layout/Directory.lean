import FlashImage.Layout.DirectoryTable
import FlashImage.Proofs.Codec
import Mathlib.Data.List.Basic

/-!
# Directories as they are written

* `DirectoryTable.add_of_fresh`, `DirectoryTable.add_of_taken`: what adding an entry does;
* `pinnedFirst`: a list with the pinned elements in front;
* `DirectoryTable.ordered_eq_pinnedFirst`: a table with distinct identifiers is
  written in this order;
* `DirectoryTable.ordered_perm`: every entry is written once.
-/

namespace FlashImage

/-! ## Pinned elements -/

/-- The elements of a list, those with the pinned key in front of the others. -/
def pinnedFirst {α : Type} (key : α → UInt32) (pinned : Option UInt32) (l : List α) : List α :=
  match pinned with
  | none => l
  | some k => l.filter (key · == k) ++ l.filter (key · != k)

section Pinned

variable {α β : Type}

theorem map_pinnedFirst (f : α → β) (key : β → UInt32) (pinned : Option UInt32) (l : List α) :
    (pinnedFirst (fun x => key (f x)) pinned l).map f = pinnedFirst key pinned (l.map f) := by
  cases pinned with
  | none => rfl
  | some k => simp only [pinnedFirst, List.map_append, List.filter_map, Function.comp_def]

theorem pinnedFirst_congr {key other : α → UInt32} {l : List α} (h : ∀ x ∈ l, key x = other x)
    (pinned : Option UInt32) : pinnedFirst key pinned l = pinnedFirst other pinned l := by
  cases pinned with
  | none => rfl
  | some k =>
    have h_front : l.filter (key · == k) = l.filter (other · == k) :=
      List.filter_congr fun x h_mem => by rw [h x h_mem]
    have h_back : l.filter (key · != k) = l.filter (other · != k) :=
      List.filter_congr fun x h_mem => by rw [h x h_mem]
    rw [pinnedFirst, pinnedFirst, h_front, h_back]

theorem pinnedFirst_perm (key : α → UInt32) (pinned : Option UInt32) (l : List α) :
    (pinnedFirst key pinned l).Perm l := by
  cases pinned with
  | none => exact .refl l
  | some k => exact List.filter_append_perm (key · == k) l

theorem mem_pinnedFirst {key : α → UInt32} {pinned : Option UInt32} {l : List α} {x : α} :
    x ∈ pinnedFirst key pinned l ↔ x ∈ l :=
  (pinnedFirst_perm key pinned l).mem_iff

@[simp] theorem length_pinnedFirst (key : α → UInt32) (pinned : Option UInt32) (l : List α) :
    (pinnedFirst key pinned l).length = l.length :=
  (pinnedFirst_perm key pinned l).length_eq

theorem key_ne_of_mem_tail {key : α → UInt32} {y x : α} {l : List α}
    (distinct : ((y :: l).map key).Nodup) (h_mem : x ∈ l) : key x ≠ key y := by
  rw [List.map_cons, List.nodup_cons] at distinct
  intro h_eq
  exact distinct.1 (List.mem_map.mpr ⟨x, h_mem, h_eq⟩)

theorem filter_key_eq_find? {key : α → UInt32} {l : List α} (distinct : (l.map key).Nodup)
    (k : UInt32) : l.filter (key · == k) = (l.find? (key · == k)).toList := by
  induction l with
  | nil => rfl
  | cons y l ih =>
    by_cases h_key : key y = k
    · have h_none : l.filter (key · == k) = [] := by
        rw [List.filter_eq_nil_iff]
        intro x h_mem h_eq
        exact key_ne_of_mem_tail distinct h_mem ((eq_of_beq h_eq).trans h_key.symm)
      rw [List.filter_cons_of_pos (by simp [h_key]), List.find?_cons_of_pos (by simp [h_key]),
        h_none]
      rfl
    · rw [List.filter_cons_of_neg (by simp [h_key]), List.find?_cons_of_neg (by simp [h_key])]
      exact ih (List.nodup_cons.mp distinct).2

theorem eraseP_key_eq_filter {key : α → UInt32} {l : List α} (distinct : (l.map key).Nodup)
    (k : UInt32) : l.eraseP (key · == k) = l.filter (key · != k) := by
  induction l with
  | nil => rfl
  | cons y l ih =>
    by_cases h_key : key y = k
    · have h_all : l.filter (key · != k) = l := by
        rw [List.filter_eq_self]
        intro x h_mem
        exact bne_iff_ne.mpr (h_key ▸ key_ne_of_mem_tail distinct h_mem)
      rw [List.eraseP_cons_of_pos (by simp [h_key]), List.filter_cons_of_neg (by simp [h_key]),
        h_all]
    · rw [List.eraseP_cons_of_neg (by simp [h_key]), List.filter_cons_of_pos (by simp [h_key]),
        ih (List.nodup_cons.mp distinct).2]

end Pinned

/-! ## Tables -/

namespace DirectoryTable

def push (t : DirectoryTable) (e : DirectoryEntry) : DirectoryTable :=
  { t with entries := t.entries ++ [e] }

theorem add_of_fresh {t : DirectoryTable} {e : DirectoryEntry}
    (fresh : t.contains e.identifier = false) : t.add e = .ok (t.push e) := by
  rw [add, fresh]
  rfl

theorem add_of_taken {t : DirectoryTable} {e : DirectoryEntry}
    (taken : t.contains e.identifier = true) : t.add e = .error ⟨e.identifier⟩ := by
  rw [add, taken]
  rfl

theorem add_eq_ok {t after : DirectoryTable} {e : DirectoryEntry} (h : t.add e = .ok after) :
    after = t.push e := by
  unfold add at h
  split at h
  · cases h
  · exact (Except.ok.inj h).symm

theorem contains_iff {t : DirectoryTable} {identifier : UInt32} :
    t.contains identifier = true ↔ identifier ∈ t.entries.map (·.identifier) := by
  simp only [contains, List.any_eq_true, beq_iff_eq, List.mem_map]

theorem ordered_perm (t : DirectoryTable) : t.ordered.Perm t.entries := by
  unfold ordered
  split
  · exact .refl _
  · next k _ =>
    cases h_find : t.entries.find? (·.identifier == k) with
    | none => exact .refl _
    | some e =>
      obtain ⟨h_key, front, rest, h_entries, h_before⟩ := List.find?_eq_some_iff_append.mp h_find
      have h_others : ∀ x ∈ front, ¬ (x.identifier == k) = true := fun x h_mem => by
        simpa using h_before x h_mem
      dsimp only
      rw [h_entries, List.eraseP_append_right _ h_others, List.eraseP_cons_of_pos (by exact h_key)]
      exact List.perm_middle.symm

theorem length_ordered (t : DirectoryTable) : t.ordered.length = t.entries.length :=
  t.ordered_perm.length_eq

theorem mem_ordered {t : DirectoryTable} {e : DirectoryEntry} : e ∈ t.ordered ↔ e ∈ t.entries :=
  t.ordered_perm.mem_iff

@[simp] theorem length_encode (t : DirectoryTable) : t.encode.length = 12 * t.entries.length := by
  rw [encode, DirectoryEntry.length_flatMap_encode, length_ordered]

theorem ordered_eq_pinnedFirst {t : DirectoryTable}
    (distinct : (t.entries.map (·.identifier)).Nodup) :
    t.ordered = pinnedFirst (·.identifier) t.pinned t.entries := by
  unfold ordered pinnedFirst
  cases t.pinned with
  | none => rfl
  | some k =>
    dsimp only
    rw [filter_key_eq_find? distinct, ← eraseP_key_eq_filter distinct]
    cases h_find : t.entries.find? (·.identifier == k) with
    | none =>
      rw [List.find?_eq_none] at h_find
      rw [List.eraseP_of_forall_not h_find]
      rfl
    | some e => rfl

end DirectoryTable

end FlashImage
