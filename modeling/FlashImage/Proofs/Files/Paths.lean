import FlashImage.Files.Staging
import FlashImage.Proofs.Except
import FlashImage.Proofs.Files.Nodes

/-!
# Where a path leads

The place that a path leads to depends on the text of the path alone.  The tree
decides whether the path can be followed at all, and for this it only matters
which places hold directories.

* `FileTree.modeFor_eq_modeAt`: the permission bits for a target are those of the
  file in its place.
-/

namespace FlashImage

namespace FileTree

variable {t : FileTree}

/-! ## Components -/

theorem eq_false_of_mem_splitOnP {α : Type} {p : α → Bool} {l : List α} :
    ∀ part ∈ l.splitOnP p, ∀ a ∈ part, p a = false := by
  induction l with
  | nil => simp
  | cons x l ih =>
    rw [List.splitOnP_cons_eq_if_modifyHead]
    cases h : p x with
    | true => simpa using ih
    | false =>
      simp only [Bool.false_eq_true, if_false]
      cases h_split : l.splitOnP p with
      | nil => simp
      | cons part parts =>
        rw [h_split] at ih
        simp only [List.modifyHead_cons, List.forall_mem_cons] at ih ⊢
        exact ⟨⟨h, ih.1⟩, ih.2⟩

/-- The last part of a list is empty only behind a separator. -/
theorem getLast?_of_splitOnP {α : Type} {p : α → Bool} {l : List α}
    (h : (l.splitOnP p).getLast? = some []) : l = [] ∨ ∃ a, l.getLast? = some a ∧ p a = true := by
  induction l with
  | nil => exact .inl rfl
  | cons x l ih =>
    refine .inr ?_
    rw [List.splitOnP_cons_eq_if_modifyHead] at h
    obtain ⟨part, parts, h_split⟩ := List.exists_cons_of_ne_nil (List.splitOnP_ne_nil p l)
    rw [h_split] at h ih
    cases h_x : p x with
    | true =>
      rw [h_x, if_pos rfl, List.getLast?_cons_cons] at h
      rcases ih h with rfl | ⟨a, h_a, h_p⟩
      · exact ⟨x, rfl, h_x⟩
      · cases l with
        | nil => cases h_a
        | cons y l => exact ⟨a, by rwa [List.getLast?_cons_cons], h_p⟩
    | false =>
      rw [h_x, if_neg Bool.false_ne_true, List.modifyHead_cons] at h
      cases parts with
      | nil => cases h
      | cons next parts =>
        rw [List.getLast?_cons_cons] at h ih
        rcases ih h with rfl | ⟨a, h_a, h_p⟩
        · cases h_split
        · cases l with
          | nil => cases h_a
          | cons y l => exact ⟨a, by rwa [List.getLast?_cons_cons], h_p⟩

theorem isEmpty_bytes_iff {c : NativeText} : c.bytes.isEmpty = true ↔ c = "" :=
  List.isEmpty_iff.trans ⟨congrArg NativeText.mk, congrArg NativeText.bytes⟩

theorem plain_components (path : NativeText) : ∀ c ∈ (startOf path).2, c ≠ "/" := by
  have h_all : ∀ c ∈ (path.bytes.splitOn FilePath.slash).map NativeText.mk, c ≠ "/" := by
    rw [List.forall_mem_map]
    rintro part h_mem h_eq
    have h_part : FilePath.slash ∈ part := by
      rw [show part = [FilePath.slash] from congrArg NativeText.bytes h_eq]
      exact List.mem_singleton_self _
    rw [List.splitOn_eq_splitOnP] at h_mem
    exact absurd (eq_false_of_mem_splitOnP part h_mem _ h_part) (by simp)
  unfold startOf
  dsimp only
  split
  · exact fun c h_mem => h_all c (List.mem_of_mem_drop h_mem)
  · exact h_all

theorem slash_of_getLast?_components {path : NativeText}
    (h : (startOf path).2.getLast? = some (.ofString "")) :
    path = "" ∨ path.bytes.getLast? = some FilePath.slash := by
  have h_last : ((path.bytes.splitOn FilePath.slash).map NativeText.mk).getLast? =
      some (.ofString "") := by
    unfold startOf at h
    dsimp only at h
    split at h
    · rw [List.getLast?_drop] at h
      split at h
      · cases h
      · exact h
    · exact h
  rw [List.getLast?_map, Option.map_eq_some_iff] at h_last
  obtain ⟨part, h_part, h_empty⟩ := h_last
  obtain rfl : part = [] := congrArg NativeText.bytes h_empty
  rw [List.splitOn_eq_splitOnP] at h_part
  rcases getLast?_of_splitOnP h_part with h_path | ⟨a, h_a, h_slash⟩
  · exact .inl (congrArg NativeText.mk h_path)
  · rw [beq_iff_eq] at h_slash
    exact .inr (h_slash ▸ h_a)

/-! ## Following -/

/-- The place that a path leads to. -/
def placeOf (path : NativeText) : Place :=
  (startOf path).2.foldl step (startOf path).1

theorem next_spot {place : Place} {entries : List (NativeText × FileNode)} {c : NativeText}
    (h : t.node? place = some (.directory entries)) (plain : c ≠ "/") :
    t.next (t.spot place) entries c = t.spot (step place c) := by
  unfold next step
  by_cases idle : c = "" ∨ c = "."
  · rw [if_pos idle, if_pos idle]
  · rw [if_neg idle, if_neg idle]
    by_cases back : c = ".."
    · rw [if_pos back, if_pos back]
      rfl
    · rw [if_neg back, if_neg back]
      have unmarked : isMark c = false := by simp [isMark, plain, back]
      simp only [spot, node?_cons, h, Option.bind_some, FileNode.child?, unmarked]
      cases entries.lookup c <;> rfl

theorem follow_cons_eq_ok {place : Place} {c : NativeText} {cs : List NativeText} {s : Spot}
    (plain : c ≠ "/") :
    t.follow (t.spot place) (c :: cs) = .ok s ↔
      t.kind? place = some .directory ∧ c.bytes.length ≤ nameLimit ∧
        t.follow (t.spot (step place c)) cs = .ok s := by
  rw [follow, kind?_eq_directory_iff]
  cases h_node : t.node? place with
  | none => simp [spot, h_node]
  | some node =>
    cases node with
    | file => simp [spot, h_node]
    | directory entries =>
      rw [show (t.spot place).node = some (.directory entries) from h_node]
      dsimp only
      rw [next_spot h_node plain]
      by_cases h_long : nameLimit < c.bytes.length
      · rw [if_pos h_long]
        exact iff_of_false nofun fun h => Nat.not_le.mpr h_long h.2.1
      · rw [if_neg h_long]
        exact ⟨fun h => ⟨⟨entries, rfl⟩, Nat.le_of_not_lt h_long, h⟩, fun h => h.2.2⟩

theorem follow_spot {cs : List NativeText} (plain : ∀ c ∈ cs, c ≠ "/") {place : Place} {s : Spot}
    (h : t.follow (t.spot place) cs = .ok s) : s = t.spot (cs.foldl step place) := by
  induction cs generalizing place with
  | nil => exact (Except.ok.inj h).symm
  | cons c cs ih =>
    obtain ⟨h_c, h_cs⟩ := List.forall_mem_cons.mp plain
    exact ih h_cs ((follow_cons_eq_ok h_c).mp h).2.2

theorem follow_mono {t' : FileTree}
    (directories : ∀ q, t.kind? q = some .directory → t'.kind? q = some .directory)
    {cs : List NativeText} (plain : ∀ c ∈ cs, c ≠ "/") {place : Place} {s : Spot}
    (h : t.follow (t.spot place) cs = .ok s) :
    t'.follow (t'.spot place) cs = .ok (t'.spot (cs.foldl step place)) := by
  induction cs generalizing place with
  | nil => rfl
  | cons c cs ih =>
    obtain ⟨h_c, h_cs⟩ := List.forall_mem_cons.mp plain
    obtain ⟨h_directory, h_short, h_rest⟩ := (follow_cons_eq_ok h_c).mp h
    exact (follow_cons_eq_ok h_c).mpr ⟨directories _ h_directory, h_short, ih h_cs h_rest⟩

theorem stat_eq_ok_iff {path : NativeText} {node : FileNode} :
    t.stat path = .ok node ↔ checkPath path = .ok () ∧
      ∃ s, t.follow (t.spot (startOf path).1) (startOf path).2 = .ok s ∧ s.node = some node := by
  unfold stat
  cases checkPath path with
  | error e => simp [bind, Except.bind]
  | ok _ =>
    simp only [bind, Except.bind, true_and]
    cases t.follow (t.spot (startOf path).1) (startOf path).2 with
    | error e => simp
    | ok s => cases h_node : s.node <;> simp [h_node]

theorem node?_of_stat {path : NativeText} {node : FileNode} (h : t.stat path = .ok node) :
    t.node? (placeOf path) = some node := by
  obtain ⟨-, s, h_follow, h_node⟩ := stat_eq_ok_iff.mp h
  rw [follow_spot (plain_components path) h_follow] at h_node
  exact h_node

theorem stat_mono {t' : FileTree}
    (directories : ∀ q, t.kind? q = some .directory → t'.kind? q = some .directory)
    {path : NativeText}
    {content : Image} {mode : Nat} (h : t.stat path = .ok (.file content mode))
    (h_file : t'.file? (placeOf path) = some (content, mode)) :
    t'.stat path = .ok (.file content mode) := by
  obtain ⟨h_check, s, h_follow, -⟩ := stat_eq_ok_iff.mp h
  exact stat_eq_ok_iff.mpr ⟨h_check, _, follow_mono directories (plain_components path) h_follow,
    node?_of_file? h_file⟩

/-! ## Last components -/

theorem eq_of_splitComponents {components front : List NativeText} {last : NativeText}
    (h : splitComponents components = (front, some last)) :
    last ≠ "" ∧ ∃ idle : List NativeText, (∀ c ∈ idle, c = "") ∧
      components = front ++ last :: idle := by
  unfold splitComponents at h
  cases h_drop : components.reverse.dropWhile (·.bytes.isEmpty) with
  | nil => rw [h_drop] at h; cases h
  | cons found rest =>
    rw [h_drop] at h
    cases h
    have h_last := List.head?_dropWhile_not (·.bytes.isEmpty) components.reverse
    rw [h_drop] at h_last
    replace h_last : last.bytes.isEmpty = false := h_last
    refine ⟨mt isEmpty_bytes_iff.mpr (by rw [h_last]; exact nofun),
      (components.reverse.takeWhile (·.bytes.isEmpty)).reverse, ?_, ?_⟩
    · intro c h_mem
      rw [List.mem_reverse] at h_mem
      exact isEmpty_bytes_iff.mp (List.all_eq_true.mp List.all_takeWhile c h_mem)
    · have h_whole := List.takeWhile_append_dropWhile (p := (·.bytes.isEmpty))
        (l := components.reverse)
      rw [h_drop, eq_comm, List.reverse_eq_iff] at h_whole
      refine h_whole.trans ?_
      rw [List.reverse_append, List.reverse_cons, List.append_assoc]
      rfl

theorem foldl_step_idle {idle : List NativeText} (h : ∀ c ∈ idle, c = "") (place : Place) :
    idle.foldl step place = place := by
  induction idle with
  | nil => rfl
  | cons c idle ih =>
    obtain ⟨rfl, h_idle⟩ := List.forall_mem_cons.mp h
    exact ih h_idle

theorem foldl_step_dot (place : Place) : [NativeText.ofString "."].foldl step place = place := by
  simp [step]

theorem follow_append {front rest : List NativeText} {s : Spot} {place : Place}
    (plain : ∀ c ∈ front, c ≠ "/") :
    t.follow (t.spot place) (front ++ rest) = .ok s ↔
      t.follow (t.spot place) front = .ok (t.spot (front.foldl step place)) ∧
        t.follow (t.spot (front.foldl step place)) rest = .ok s := by
  induction front generalizing place with
  | nil => simp [follow]
  | cons c front ih =>
    obtain ⟨h_c, h_front⟩ := List.forall_mem_cons.mp plain
    rw [List.cons_append, follow_cons_eq_ok h_c, follow_cons_eq_ok h_c, ih h_front, List.foldl_cons]
    simp only [and_assoc]

/-- The last component of a path stands in a directory, which the rest of the path
leads to. -/
structure LastSpot (t : FileTree) (path : NativeText) (name : NativeText) (up : Place) : Prop where
  placeOf_eq : placeOf path = name :: up
  parent : t.kind? up = some .directory
  unmarked : isMark name = false
  follows : ∃ front idle, (startOf path).2 = front ++ name :: idle ∧ (∀ c ∈ idle, c = "") ∧
    t.follow (t.spot (startOf path).1) (front ++ [name]) = .ok (t.spot (name :: up))

theorem lastSpot_eq_ok {path : NativeText} {s : Spot} (h : t.lastSpot path = .ok (some s)) :
    ∃ name up, s = t.spot (name :: up) ∧ LastSpot t path name up := by
  unfold lastSpot at h
  dsimp only at h
  cases h_split : splitComponents (startOf path).2 with
  | mk front last =>
    rw [h_split] at h
    cases last with
    | none => cases h
    | some last =>
      dsimp only at h
      obtain ⟨h_last, idle, h_idle, h_components⟩ := eq_of_splitComponents h_split
      have plain := plain_components path
      rw [h_components] at plain
      have plain_front : ∀ c ∈ front, c ≠ "/" := fun c h_mem =>
        plain c (List.mem_append_left _ h_mem)
      have plain_last : last ≠ "/" := plain last (List.mem_append_right _ List.mem_cons_self)
      obtain ⟨parent, h_parent, h⟩ := bind_eq_ok.mp h
      split at h
      · cases h
      next proper =>
        obtain ⟨found, h_follow, h⟩ := bind_eq_ok.mp h
        cases h
        obtain ⟨h_front, h_dot⟩ := (follow_append plain_front).mp h_parent
        have h_parent_eq : parent = t.spot ([NativeText.ofString "."].foldl step
            (front.foldl step (startOf path).1)) :=
          follow_spot (by decide) h_dot
        rw [h_parent_eq, foldl_step_dot] at h_follow
        obtain ⟨h_up, -, h_spot⟩ := (follow_cons_eq_ok plain_last).mp h_follow
        rw [not_or] at proper
        have h_step : step (front.foldl step (startOf path).1) last =
            last :: front.foldl step (startOf path).1 := by
          simp [step, h_last, proper]
        have unmarked : isMark last = false := by simp [isMark, plain_last, proper]
        rw [h_step] at h_spot
        cases h_spot
        refine ⟨last, _, rfl, ?_, h_up, unmarked, front, idle, h_components, h_idle, ?_⟩
        · rw [placeOf, h_components, List.foldl_append, List.foldl_cons,
            foldl_step_idle h_idle, h_step]
        · exact (follow_append plain_front).mpr ⟨h_front, h_follow⟩

/-! ## Permission bits -/

/-- The permission bits of the file at a place, or those of a new file. -/
def modeAt (t : FileTree) (place : Place) : Nat :=
  match t.file? place with
  | some (_, mode) => mode
  | none => newFileMode

theorem modeFor_of_stat {path : NativeText} {content : Image} {mode : Nat}
    (h : t.stat path = .ok (.file content mode)) : t.modeFor path = mode := by
  rw [modeFor, h]

/-- A path whose last component could be looked at in a tree with fewer directories
leads to the file in its place, unless it ends in a slash. -/
theorem modeFor_eq_modeAt {t' : FileTree} {path name : NativeText} {up : Place}
    (directories : ∀ q, t'.kind? q = some .directory → t.kind? q = some .directory)
    (last : LastSpot t' path name up) (h_check : checkPath path = .ok ())
    (h_slash : path.bytes.getLast? ≠ some FilePath.slash) :
    t.modeFor path = t.modeAt (placeOf path) := by
  obtain ⟨front, idle, h_components, h_idle, h_follow⟩ := last.follows
  have plain := plain_components path
  have nonempty : path ≠ "" := by
    rintro rfl
    cases h_check
  have h_none : idle = [] := by
    by_contra h_some
    have h_empty : (startOf path).2.getLast? = some (.ofString "") := by
      obtain ⟨init, c, rfl⟩ := (List.eq_nil_or_concat idle).resolve_left h_some
      rw [List.concat_eq_append] at h_idle h_components
      have h_last : c = "" := h_idle c (List.mem_append_right _ List.mem_cons_self)
      rw [h_components, ← List.cons_append, ← List.append_assoc, List.getLast?_concat, h_last]
    rcases slash_of_getLast?_components h_empty with h | h
    · exact nonempty h
    · exact h_slash h
  subst h_none
  rw [← h_components] at h_follow
  have h_spot := follow_mono directories plain h_follow
  unfold modeAt
  cases h_file : t.file? (placeOf path) with
  | none =>
    unfold modeFor
    split
    next content mode h_stat =>
      have h_some : t.file? (placeOf path) = some (content, mode) := by
        rw [file?, node?_of_stat h_stat]
      rw [h_file] at h_some
      cases h_some
    next => rfl
  | some file =>
    obtain ⟨content, mode⟩ := file
    have h_node : (t.spot (placeOf path)).node = some (.file content mode) := node?_of_file? h_file
    exact modeFor_of_stat (stat_eq_ok_iff.mpr ⟨h_check, _, h_spot, h_node⟩)

end FileTree

end FlashImage
