import FlashImage.Files.Tree
import Mathlib.Data.List.Basic

/-!
# What stands at a place

A tree has one view: what stands at each place, a file with its content and its
permission bits, a directory, or nothing.  This module says what a change of the
tree does to it.
-/

namespace FlashImage

namespace FileNode

inductive Kind where
  | file (content : Image) (mode : Nat)
  | directory
  deriving DecidableEq, Repr

def kind : FileNode → Kind
  | file content mode => .file content mode
  | directory _ => .directory

theorem kind_eq_directory_iff {node : FileNode} :
    node.kind = .directory ↔ ∃ entries, node = directory entries := by
  cases node with
  | file => simp [kind]
  | directory entries => exact iff_of_true rfl ⟨entries, rfl⟩

/-! ## Entries -/

theorem lookup_cons_eq (key : NativeText) (n : FileNode) (entries : List (NativeText × FileNode))
    (k : NativeText) :
    ((key, n) :: entries).lookup k = if k = key then some n else entries.lookup k := by
  rw [List.lookup_cons]
  by_cases h : k = key
  · rw [if_pos h, beq_iff_eq.mpr h]
  · rw [if_neg h, beq_eq_false_iff_ne.mpr h]

theorem lookup_setEntry (name : NativeText) (node : FileNode)
    (entries : List (NativeText × FileNode)) (k : NativeText) :
    (setEntry name node entries).lookup k = if k = name then some node else entries.lookup k := by
  induction entries with
  | nil => exact lookup_cons_eq name node [] k
  | cons e entries ih =>
    obtain ⟨key, n⟩ := e
    unfold setEntry
    by_cases h_key : key = name
    · subst h_key
      rw [if_pos rfl, lookup_cons_eq, lookup_cons_eq]
      by_cases h : k = key
      · rw [if_pos h, if_pos h]
      · rw [if_neg h, if_neg h, if_neg h]
    · rw [if_neg h_key, lookup_cons_eq, lookup_cons_eq, ih]
      by_cases h : k = key
      · rw [if_pos h, if_neg (h ▸ h_key), if_pos h]
      · rw [if_neg h, if_neg h]

theorem lookup_filter (name : NativeText) (entries : List (NativeText × FileNode))
    (k : NativeText) :
    (entries.filter (·.1 != name)).lookup k = if k = name then none else entries.lookup k := by
  induction entries with
  | nil => exact (ite_self _).symm
  | cons e entries ih =>
    obtain ⟨key, n⟩ := e
    rw [lookup_cons_eq]
    by_cases h_key : key = name
    · subst h_key
      rw [List.filter_cons_of_neg (by simp), ih]
      by_cases h : k = key
      · rw [if_pos h, if_pos h]
      · rw [if_neg h, if_neg h, if_neg h]
    · rw [List.filter_cons_of_pos (by simpa using h_key), lookup_cons_eq, ih]
      by_cases h : k = key
      · rw [if_pos h, if_neg (h ▸ h_key), if_pos h]
      · rw [if_neg h, if_neg h]

/-! ## Looking up from the top -/

/-- The node behind one component; an absent mark stands for an empty directory. -/
def child? (name : NativeText) : FileNode → Option FileNode
  | file .. => none
  | directory entries =>
      match entries.lookup name with
      | some node => some node
      | none => if FileTree.isMark name then some (directory []) else none

def at? : FileNode → List NativeText → Option FileNode
  | here, [] => some here
  | here, name :: rest => (here.child? name).bind (·.at? rest)

theorem at?_append (here : FileNode) (front rest : List NativeText) :
    here.at? (front ++ rest) = (here.at? front).bind (·.at? rest) := by
  induction front generalizing here with
  | nil => rfl
  | cons name front ih =>
    simp only [List.cons_append, at?]
    cases here.child? name with
    | none => rfl
    | some child => exact ih child

theorem eq_of_at?_file {content : Image} {mode : Nat} {path : List NativeText} {node : FileNode}
    (h : (file content mode).at? path = some node) : path = [] := by
  cases path with
  | nil => rfl
  | cons name rest => cases h

/-- Below an empty directory, marks alone lead somewhere. -/
theorem eq_of_at?_empty {path : List NativeText} {node : FileNode}
    (h : (directory []).at? path = some node) : node = directory [] := by
  induction path with
  | nil => exact (Option.some.inj h).symm
  | cons name rest ih =>
    cases h_mark : FileTree.isMark name with
    | true =>
      have h_child : (directory []).child? name = some (directory []) := if_pos h_mark
      rw [at?, h_child] at h
      exact ih h
    | false =>
      have h_child : (directory []).child? name = none := if_neg (by rw [h_mark]; exact nofun)
      rw [at?, h_child] at h
      cases h

theorem child?_setEntry (name : NativeText) (node : FileNode)
    (entries : List (NativeText × FileNode)) (k : NativeText) :
    (directory (setEntry name node entries)).child? k =
      if k = name then some node else (directory entries).child? k := by
  simp only [child?, lookup_setEntry]
  by_cases h : k = name
  · rw [if_pos h, if_pos h]
  · rw [if_neg h, if_neg h]

theorem child?_filter {name : NativeText} (unmarked : FileTree.isMark name = false)
    (entries : List (NativeText × FileNode)) (k : NativeText) :
    (directory (entries.filter (·.1 != name))).child? k =
      if k = name then none else (directory entries).child? k := by
  simp only [child?, lookup_filter]
  by_cases h : k = name
  · rw [if_pos h, if_pos h, h, unmarked]
    rfl
  · rw [if_neg h, if_neg h]

/-- What a directory holds on the way to a place is also what is put back there. -/
theorem child?_getD {entries : List (NativeText × FileNode)} {name : NativeText} {child : FileNode}
    (h : (directory entries).child? name = some child) :
    (entries.lookup name).getD (directory []) = child := by
  cases h_lookup : entries.lookup name with
  | some node =>
    simp only [child?, h_lookup] at h
    exact Option.some.inj h
  | none =>
    simp only [child?, h_lookup, Option.ite_none_right_eq_some] at h
    exact Option.some.inj h.2

/-! ## Changes -/

theorem kind_at?_of_child? {here here' : FileNode} {name : NativeText} {found : Option FileNode}
    (h : ∀ k, here'.child? k = if k = name then found else here.child? k)
    (h_kind : here'.kind = here.kind) (path : List NativeText) :
    (here'.at? path).map kind =
      if [name] <+: path then (found.bind (·.at? (path.drop 1))).map kind
      else (here.at? path).map kind := by
  cases path with
  | nil => exact congrArg some h_kind
  | cons k path =>
    simp only [at?, h, List.cons_prefix_cons]
    by_cases h_k : k = name
    · rw [if_pos h_k, if_pos ⟨h_k.symm, List.nil_prefix⟩]
      rfl
    · rw [if_neg h_k, if_neg fun h => h_k h.1.symm]

/-- If a child changes below one place only, so does the directory that holds it. -/
theorem kind_at?_setEntry {a : NativeText} {child child' : FileNode}
    {children : List (NativeText × FileNode)} {place : List NativeText}
    (below : List NativeText → Option Kind)
    (h_child : (directory children).child? a = some child)
    (h : ∀ path, (child'.at? path).map kind =
      if place <+: path then below (path.drop place.length) else (child.at? path).map kind)
    (path : List NativeText) :
    ((directory (setEntry a child' children)).at? path).map kind =
      if a :: place <+: path then below (path.drop (place.length + 1))
      else ((directory children).at? path).map kind := by
  cases path with
  | nil => rfl
  | cons k path =>
    simp only [at?, child?_setEntry, List.cons_prefix_cons]
    by_cases h_k : k = a
    · subst h_k
      simpa [h_child] using h path
    · rw [if_neg h_k, if_neg fun h => h_k h.1.symm]

/-- What is put somewhere in a directory changes nothing elsewhere. -/
theorem kind_at?_putAt {node : FileNode} {name : NativeText} {up : List NativeText}
    {here : FileNode}
    {entries : List (NativeText × FileNode)} (h : here.at? up = some (directory entries))
    (path : List NativeText) :
    ((putAt node (up ++ [name]) here).at? path).map kind =
      if up ++ [name] <+: path then (node.at? (path.drop (up ++ [name]).length)).map kind
      else (here.at? path).map kind := by
  induction up generalizing here path with
  | nil =>
    cases h
    exact kind_at?_of_child? (child?_setEntry name node entries) rfl path
  | cons a up ih =>
    cases here with
    | file => cases h
    | directory children =>
      rw [at?] at h
      obtain ⟨child, h_child, h_up⟩ := Option.bind_eq_some_iff.mp h
      have h_put : putAt node (a :: up ++ [name]) (directory children) =
          directory (setEntry a (putAt node (up ++ [name]) child) children) := by
        rw [← child?_getD h_child]
        rfl
      rw [h_put]
      exact kind_at?_setEntry (fun rest => (node.at? rest).map kind) h_child (ih h_up) path

theorem removeAt_cons {a : NativeText} {path : List NativeText} (h : path ≠ [])
    (children : List (NativeText × FileNode)) :
    removeAt (a :: path) (directory children) =
      match children.lookup a with
      | some child => directory (setEntry a (removeAt path child) children)
      | none => directory children := by
  cases path with
  | nil => exact absurd rfl h
  | cons b path => rfl

theorem directory_removeAt (path : List NativeText) (children : List (NativeText × FileNode)) :
    directory (removeAt path (directory children)).entries =
      removeAt path (directory children) := by
  cases path with
  | nil => rfl
  | cons a path =>
    cases path with
    | nil => rfl
    | cons b path =>
      rw [removeAt_cons (List.cons_ne_nil b path)]
      cases children.lookup a <;> rfl

/-- Behind an absent mark there are marks alone. -/
theorem at?_absent {a name : NativeText} {children : List (NativeText × FileNode)}
    {child node : FileNode}
    (h_lookup : children.lookup a = none) (h_child : (directory children).child? a = some child)
    {up : List NativeText} (h_up : child.at? up = some node)
    (unmarked : FileTree.isMark name = false)
    (rest : List NativeText) : (directory children).at? (a :: (up ++ [name] ++ rest)) = none := by
  have h_empty : child = directory [] := by
    rw [← child?_getD h_child, h_lookup]
    rfl
  rw [h_empty] at h_child h_up
  have h_none : (directory []).child? name = none := if_neg (by rw [unmarked]; exact nofun)
  rw [at?, h_child, Option.bind_some, List.append_assoc, at?_append, h_up, eq_of_at?_empty h_up,
    Option.bind_some, List.singleton_append, at?, h_none, Option.bind_none]

theorem kind_at?_removeAt {name : NativeText} {up : List NativeText} {here : FileNode}
    {entries : List (NativeText × FileNode)} (h : here.at? up = some (directory entries))
    (unmarked : FileTree.isMark name = false) (path : List NativeText) :
    ((removeAt (up ++ [name]) here).at? path).map kind =
      if up ++ [name] <+: path then none else (here.at? path).map kind := by
  induction up generalizing here path with
  | nil =>
    cases h
    exact kind_at?_of_child? (child?_filter unmarked entries) rfl path
  | cons a up ih =>
    cases here with
    | file => cases h
    | directory children =>
      rw [at?] at h
      obtain ⟨child, h_child, h_up⟩ := Option.bind_eq_some_iff.mp h
      have h_nonempty : up ++ [name] ≠ [] := List.append_ne_nil_of_right_ne_nil _ (by simp)
      rw [List.cons_append, removeAt_cons h_nonempty]
      cases h_lookup : children.lookup a with
      | none =>
        -- the way leads over a mark, and nothing is there that could be removed
        dsimp only
        split
        next h_prefix =>
          obtain ⟨rest, rfl⟩ := h_prefix
          exact congrArg (Option.map kind) (at?_absent h_lookup h_child h_up unmarked rest)
        next => rfl
      | some found =>
        have h_found : found = child := by
          rw [← child?_getD h_child, h_lookup]
          rfl
        subst h_found
        exact kind_at?_setEntry (fun _ => none) h_child (ih h_up) path

end FileNode

namespace FileTree

open FileNode (Kind)

variable {t : FileTree}

/-! ## The view of a tree -/

def kind? (t : FileTree) (place : Place) : Option Kind :=
  (t.node? place).map FileNode.kind

/-- The content and the permission bits of the file at a place. -/
def file? (t : FileTree) (place : Place) : Option (Image × Nat) :=
  match t.node? place with
  | some (.file content mode) => some (content, mode)
  | _ => none

theorem file?_eq_some_iff {place : Place} {content : Image} {mode : Nat} :
    t.file? place = some (content, mode) ↔ t.kind? place = some (.file content mode) := by
  unfold file? kind?
  cases t.node? place with
  | none => simp
  | some node => cases node <;> simp [FileNode.kind]

theorem node?_of_file? {place : Place} {content : Image} {mode : Nat}
    (h : t.file? place = some (content, mode)) : t.node? place = some (.file content mode) := by
  unfold file? at h
  split at h
  next h_node => cases h; exact h_node
  next => cases h

theorem file?_eq_none_iff {place : Place} :
    t.file? place = none ↔ ∀ content mode, t.kind? place ≠ some (.file content mode) := by
  rw [Option.eq_none_iff_forall_not_mem]
  simp only [Prod.forall, Option.mem_def, file?_eq_some_iff, ne_eq]

theorem file?_congr {t' : FileTree} {place : Place} (h : t.kind? place = t'.kind? place) :
    t.file? place = t'.file? place := by
  apply Option.ext
  rintro ⟨content, mode⟩
  rw [file?_eq_some_iff, file?_eq_some_iff, h]

/-- One more file in the view is one more file. -/
theorem file?_eq_ite {base : FileTree} {place : Place} {content : Image} {mode : Nat}
    (h : ∀ q, t.kind? q = if q = place then some (.file content mode) else base.kind? q)
    (q : Place) :
    t.file? q = if q = place then some (content, mode) else base.file? q := by
  have h_q := h q
  split
  next h_place =>
    rw [if_pos h_place] at h_q
    exact file?_eq_some_iff.mpr h_q
  next h_place =>
    rw [if_neg h_place] at h_q
    exact file?_congr h_q

theorem kind?_eq_directory_iff {place : Place} :
    t.kind? place = some .directory ↔ ∃ entries, t.node? place = some (.directory entries) := by
  simp only [kind?, Option.map_eq_some_iff, FileNode.kind_eq_directory_iff]
  exact ⟨fun ⟨node, h, entries, h_node⟩ => ⟨entries, h_node ▸ h⟩,
    fun ⟨entries, h⟩ => ⟨_, h, entries, rfl⟩⟩

theorem node?_cons (name : NativeText) (up : Place) :
    t.node? (name :: up) = (t.node? up).bind (·.child? name) := by
  rw [node?]
  cases t.node? up with
  | none => rfl
  | some node => cases node <;> rfl

theorem node?_eq_at? (place : Place) : t.node? place = t.top.at? place.reverse := by
  induction place with
  | nil => rfl
  | cons name up ih =>
    rw [node?_cons, List.reverse_cons, FileNode.at?_append, ih]
    congr 1
    funext node
    simp only [FileNode.at?, Option.bind_fun_some]

/-! ## Changes of a tree -/

section Changes

variable {name : NativeText} {up : Place}

theorem top_put (node : FileNode) :
    (t.put (name :: up) node).top = FileNode.putAt node (up.reverse ++ [name]) t.top := by
  unfold put
  rw [List.reverse_cons]
  cases up.reverse <;> rfl

theorem top_remove :
    (t.remove (name :: up)).top = FileNode.removeAt (up.reverse ++ [name]) t.top := by
  rw [top, remove, List.reverse_cons]
  exact FileNode.directory_removeAt _ _

theorem kind?_put_of_not_suffix (h_up : t.kind? up = some .directory) (node : FileNode) {q : Place}
    (h : ¬ name :: up <:+ q) : (t.put (name :: up) node).kind? q = t.kind? q := by
  obtain ⟨entries, h_node⟩ := kind?_eq_directory_iff.mp h_up
  rw [node?_eq_at?] at h_node
  rw [← List.reverse_prefix, List.reverse_cons] at h
  rw [kind?, node?_eq_at?, top_put, FileNode.kind_at?_putAt h_node, if_neg h, kind?, node?_eq_at?]

theorem kind?_put_below (h_up : t.kind? up = some .directory) (node : FileNode) (below : Place) :
    (t.put (name :: up) node).kind? (below ++ name :: up) =
      (node.at? below.reverse).map FileNode.kind := by
  obtain ⟨entries, h_node⟩ := kind?_eq_directory_iff.mp h_up
  rw [node?_eq_at?] at h_node
  have h_prefix : up.reverse ++ [name] <+: (below ++ name :: up).reverse := by
    rw [← List.reverse_cons, List.reverse_prefix]
    exact List.suffix_append _ _
  have h_drop : (below ++ name :: up).reverse.drop (up.reverse ++ [name]).length =
      below.reverse := by
    rw [List.reverse_append, List.drop_left' (by simp)]
  rw [kind?, node?_eq_at?, top_put, FileNode.kind_at?_putAt h_node, if_pos h_prefix, h_drop]

/-- Nothing but a directory has something below it. -/
theorem kind?_below {q : Place} (h : t.kind? q ≠ some .directory) {below : Place}
    (nonempty : below ≠ []) : t.kind? (below ++ q) = none := by
  induction below with
  | nil => exact absurd rfl nonempty
  | cons name below ih =>
    have h_above : t.kind? (below ++ q) ≠ some .directory := by
      cases below with
      | nil => exact h
      | cons => rw [ih nofun]; exact nofun
    rw [List.cons_append, kind?, node?_cons]
    cases h_node : t.node? (below ++ q) with
    | none => rfl
    | some node =>
      cases node with
      | file => rfl
      | directory entries => exact absurd (kind?_eq_directory_iff.mpr ⟨entries, h_node⟩) h_above

theorem kind?_of_suffix {place q : Place} (h : t.kind? place = none) (h_suffix : place <:+ q) :
    t.kind? q = none := by
  obtain ⟨below, rfl⟩ := h_suffix
  cases below with
  | nil => exact h
  | cons => exact kind?_below (by rw [h]; exact nofun) nofun

theorem kind?_parent (h : t.kind? (name :: up) ≠ none) : t.kind? up = some .directory := by
  by_contra h_up
  exact h (kind?_below h_up (List.cons_ne_nil name []))

theorem eq_or_below_or_not_suffix (place q : Place) :
    q = place ∨ (∃ below, below ≠ [] ∧ q = below ++ place) ∨ ¬ place <:+ q := by
  by_cases h : place <:+ q
  · obtain ⟨below, rfl⟩ := h
    cases below with
    | nil => exact .inl rfl
    | cons b below => exact .inr (.inl ⟨b :: below, nofun, rfl⟩)
  · exact .inr (.inr h)

/-- A file that is put where no directory is changes nothing but its place. -/
theorem kind?_put_file (h_up : t.kind? up = some .directory)
    (h_place : t.kind? (name :: up) ≠ some .directory) (content : Image) (mode : Nat) (q : Place) :
    (t.put (name :: up) (.file content mode)).kind? q =
      if q = name :: up then some (.file content mode) else t.kind? q := by
  rcases eq_or_below_or_not_suffix (name :: up) q with rfl | ⟨below, nonempty, rfl⟩ | h_apart
  · rw [if_pos rfl]
    exact kind?_put_below h_up _ []
  · have h_ne : below ++ name :: up ≠ name :: up := by simpa using nonempty
    rw [kind?_put_below h_up, if_neg h_ne, kind?_below h_place nonempty]
    cases h_at : (FileNode.file content mode).at? below.reverse with
    | none => rfl
    | some node => exact absurd (FileNode.eq_of_at?_file h_at) (by simpa using nonempty)
  · have h_ne : q ≠ name :: up := fun h_eq => h_apart (h_eq ▸ List.suffix_refl _)
    rw [kind?_put_of_not_suffix h_up _ h_apart, if_neg h_ne]

theorem kind?_remove {content : Image} {mode : Nat}
    (h_place : t.kind? (name :: up) = some (.file content mode)) (unmarked : isMark name = false)
    (q : Place) :
    (t.remove (name :: up)).kind? q = if q = name :: up then none else t.kind? q := by
  have h_up : t.kind? up = some .directory := kind?_parent (by rw [h_place]; exact nofun)
  obtain ⟨entries, h_node⟩ := kind?_eq_directory_iff.mp h_up
  rw [node?_eq_at?] at h_node
  have h_remove : (t.remove (name :: up)).kind? q =
      if up.reverse ++ [name] <+: q.reverse then none else t.kind? q := by
    rw [kind?, node?_eq_at?, top_remove, FileNode.kind_at?_removeAt h_node unmarked, kind?,
      node?_eq_at?]
  rw [h_remove, ← List.reverse_cons]
  simp only [List.reverse_prefix]
  rcases eq_or_below_or_not_suffix (name :: up) q with rfl | ⟨below, nonempty, rfl⟩ | h_apart
  · rw [if_pos (List.suffix_refl _), if_pos rfl]
  · have h_file : t.kind? (name :: up) ≠ some .directory := by
      rw [h_place]
      exact nofun
    have h_ne : below ++ name :: up ≠ name :: up := by simpa using nonempty
    rw [if_pos (List.suffix_append _ _), if_neg h_ne, kind?_below h_file nonempty]
  · have h_ne : q ≠ name :: up := fun h_eq => h_apart (h_eq ▸ List.suffix_refl _)
    rw [if_neg h_apart, if_neg h_ne]

/-- A directory that is made where nothing is changes no file. -/
theorem file?_put_directory (h_up : t.kind? up = some .directory)
    (h_place : t.kind? (name :: up) = none) (q : Place) :
    (t.put (name :: up) (.directory [])).file? q = t.file? q := by
  by_cases h : name :: up <:+ q
  · have h_before := kind?_of_suffix h_place h
    obtain ⟨below, rfl⟩ := h
    have h_after : (t.put (name :: up) (.directory [])).file? (below ++ name :: up) = none := by
      rw [file?_eq_none_iff]
      intro content mode h_file
      rw [kind?_put_below h_up, Option.map_eq_some_iff] at h_file
      obtain ⟨node, h_at, h_kind⟩ := h_file
      rw [FileNode.eq_of_at?_empty h_at] at h_kind
      cases h_kind
    rw [h_after, eq_comm, file?_eq_none_iff, h_before]
    exact fun _ _ => nofun
  · exact file?_congr (kind?_put_of_not_suffix h_up _ h)

end Changes

end FileTree

end FlashImage
