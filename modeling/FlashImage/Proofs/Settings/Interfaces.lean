import FlashImage.Manifest.Camera
import FlashImage.Proofs.Literal.Characters
import FlashImage.Proofs.Settings.Repeated

/-!
# Names of interfaces

A manifest lists the names of interfaces; a settings string has them between bars, or gives
each to a key of its own.  All of these add the bit of one name after the other to a mask,
so they come to the same mask, and they stop at the first name that is unknown.

* `Agree`, `Refused`, `interface_notations`: the outcomes of the notations.
-/

namespace FlashImage

open Text

namespace Interface

/-! ## Masks -/

/-- The mask of the wanted interfaces. -/
def maskOf (wanted : Interface → Bool) : UInt32 :=
  let part i := bif wanted i then bit i else 0
  part mipi ||| part i2c ||| part gpio

theorem maskOf_or_bit (wanted : Interface → Bool) (i : Interface) :
    maskOf wanted ||| i.bit = maskOf fun j => wanted j || j == i := by
  simp only [maskOf]
  cases i <;> cases wanted mipi <;> cases wanted i2c <;> cases wanted gpio <;> rfl

/-- Whether one of the names is that of the interface. -/
def isNamed (names : List (List Char)) (i : Interface) : Bool :=
  names.any fun name => named? name = some i

theorem isNamed_cons {name : List Char} {i : Interface} (h_name : named? name = some i)
    (names : List (List Char)) (j : Interface) :
    isNamed (name :: names) j = (j == i || isNamed names j) := by
  rw [isNamed, List.any_cons, h_name, isNamed]
  congr 1
  rw [beq_eq_decide]
  exact decide_eq_decide.mpr ⟨fun h => (Option.some.inj h).symm, fun h => congrArg some h.symm⟩

theorem addNamed_of_known (wanted : Interface → Bool) {names : List (List Char)}
    (h_known : ∀ name ∈ names, named? name ≠ none) :
    addNamed (maskOf wanted) names = .ok (maskOf fun i => wanted i || isNamed names i) := by
  induction names generalizing wanted with
  | nil => simp [addNamed, isNamed]
  | cons name names ih =>
    obtain ⟨h_name, h_names⟩ := List.forall_mem_cons.mp h_known
    obtain ⟨i, h_i⟩ := Option.ne_none_iff_exists'.mp h_name
    simp only [addNamed, h_i, maskOf_or_bit, ih _ h_names, isNamed_cons h_i, Bool.or_assoc]

theorem addNamed_of_unknown (mask : UInt32) {front rest : List (List Char)} {bad : List Char}
    (h_front : ∀ name ∈ front, named? name ≠ none) (h_bad : named? bad = none) :
    addNamed mask (front ++ bad :: rest) = .error bad := by
  induction front generalizing mask with
  | nil => rw [List.nil_append, addNamed, h_bad]
  | cons name front ih =>
    obtain ⟨h_name, h_front⟩ := List.forall_mem_cons.mp h_front
    obtain ⟨i, h_i⟩ := Option.ne_none_iff_exists'.mp h_name
    rw [List.cons_append, addNamed, h_i]
    exact ih _ h_front

/-- A list of names as steps that may fail. -/
theorem toOption_addNamed (mask : UInt32) (names : List (List Char)) :
    (addNamed mask names).toOption =
      (names.map named?).foldlM (fun mask i? => i?.map (mask ||| bit ·)) mask := by
  induction names generalizing mask with
  | nil => rfl
  | cons name names ih =>
    rw [addNamed, List.map_cons, List.foldlM_cons]
    cases named? name with
    | none => rfl
    | some i => exact ih _

theorem named?_cons_blank {c : Char} (h_blank : isBlank c = true) (name : List Char) :
    named? (c :: name) = named? name := by
  rw [named?, trim_cons_blank h_blank, named?]

theorem named?_concat_blank {c : Char} (h_blank : isBlank c = true) (name : List Char) :
    named? (name ++ [c]) = named? name := by
  rw [named?, trim_concat_blank h_blank, named?]

/-- Blanks at the ends of a text are blanks at the ends of its first and last name. -/
theorem named?_splitOn_trim (s : List Char) :
    ((trim s).splitOn '|').map named? = (s.splitOn '|').map named? := by
  have h_ne : ∀ c, isBlank c = true → '|' ≠ c := fun _ => ne_of_isBlank (by decide)
  refine apply_trim (f := fun s => (s.splitOn '|').map named?) ?_ ?_ s
  · intro c s h_blank
    have h_longer : ∀ {part}, '|' ∉ part → '|' ∉ c :: part := by simp [h_ne c h_blank]
    induction s using split_induction '|' with
    | last part h_part =>
      rw [List.splitOn_eq_singleton (h_longer h_part), List.splitOn_eq_singleton h_part,
        List.map_singleton, List.map_singleton, named?_cons_blank h_blank]
    | next part rest h_part _ =>
      rw [← List.cons_append, List.splitOn_append_cons_self, List.splitOn_append_cons_self,
        List.splitOn_eq_singleton (h_longer h_part), List.splitOn_eq_singleton h_part,
        List.map_append, List.map_append, List.map_singleton, List.map_singleton,
        named?_cons_blank h_blank]
  · intro c s h_blank
    have h_longer : ∀ {part}, '|' ∉ part → '|' ∉ part ++ [c] := by simp [h_ne c h_blank]
    induction s using split_induction '|' with
    | last part h_part =>
      rw [List.splitOn_eq_singleton (h_longer h_part), List.splitOn_eq_singleton h_part,
        List.map_singleton, List.map_singleton, named?_concat_blank h_blank]
    | next part rest h_part ih =>
      rw [List.append_assoc, List.cons_append, List.splitOn_append_cons_self,
        List.splitOn_append_cons_self, List.map_append, List.map_append, ih]

end Interface

namespace Settings

/-! ## Notations -/

/-- A name that can be written in each of the notations, and is no number. -/
structure PlainName (name : String) : Prop where
  comma : ',' ∉ name.toList
  bar : '|' ∉ name.toList
  literal : Literal.word? name = none

instance : DecidablePred PlainName := fun name =>
  decidable_of_iff (',' ∉ name.toList ∧ '|' ∉ name.toList ∧ Literal.word? name = none)
    ⟨fun ⟨comma, bar, literal⟩ => ⟨comma, bar, literal⟩,
      fun h_name => ⟨h_name.comma, h_name.bar, h_name.literal⟩⟩

theorem applyInterfaces?_eq (mask : UInt32) (value : String) :
    applyInterfaces? mask value =
      (Literal.word? value).elim (Interface.addNamed mask (value.toList.splitOn '|')).toOption
        some := by
  delta applyInterfaces?
  cases Literal.word? value <;> rfl

theorem PlainName.applyInterfaces?_eq {name : String} (h_name : PlainName name) (mask : UInt32) :
    applyInterfaces? mask name = (Interface.named? name.toList).map (mask ||| ·.bit) := by
  rw [Settings.applyInterfaces?_eq, h_name.literal, Option.elim_none,
    List.splitOn_eq_singleton h_name.bar, Interface.toOption_addNamed, List.map_singleton,
    List.foldlM_cons]
  simp only [List.foldlM_nil, bind_pure]

theorem applyInterfaces?_intercalate (mask : UInt32) {names : List String} (h_some : names ≠ [])
    (h_names : ∀ name ∈ names, PlainName name) :
    applyInterfaces? mask ("|".intercalate names) =
      (Interface.addNamed mask (names.map String.toList)).toOption := by
  have h_text : ("|".intercalate names).toList = ['|'].intercalate (names.map String.toList) := by
    simp [String.toList_intercalate]
  have h_bars : ∀ part ∈ names.map String.toList, '|' ∉ part := by
    simpa using fun name h_mem => (h_names name h_mem).bar
  have h_literal : Literal.word? ("|".intercalate names) = none := by
    match names, h_some with
    | [name], _ => simpa using (h_names name List.mem_cons_self).literal
    | first :: second :: rest, _ =>
      refine Literal.word?_eq_none_of_mem (c := '|') ?_ (by decide) (by decide)
      rw [h_text]
      simp [List.intercalate]
  rw [applyInterfaces?_eq, h_literal, Option.elim_none, h_text,
    List.splitOn_intercalate '|' h_bars (by simpa using h_some)]

theorem foldlM_applyInterfaces? (mask : UInt32) {names : List String}
    (h_names : ∀ name ∈ names, PlainName name) :
    names.foldlM applyInterfaces? mask =
      (Interface.addNamed mask (names.map String.toList)).toOption := by
  induction names generalizing mask with
  | nil => rfl
  | cons name names ih =>
    obtain ⟨h_name, h_names⟩ := List.forall_mem_cons.mp h_names
    rw [List.foldlM_cons, h_name.applyInterfaces?_eq, List.map_cons, Interface.addNamed]
    cases Interface.named? name.toList with
    | none => rfl
    | some i => exact ih _ h_names

theorem applyInterfaces?_trimmed (mask : UInt32) (value : String) :
    applyInterfaces? mask (trimmed value) = applyInterfaces? mask value := by
  rw [applyInterfaces?_eq, applyInterfaces?_eq, trimmed, Literal.word?_trim, String.toList_ofList,
    Interface.toOption_addNamed, Interface.toOption_addNamed, Interface.named?_splitOn_trim]

def interfaces : Field setCameraItem "interfaces" UInt32 where
  get := CameraInfo.interfaces
  put info mask := { info with interfaces := mask }
  change := applyInterfaces?
  get_put _ _ := rfl
  put_put _ _ _ := rfl
  put_get _ := rfl
  set_eq_ok h := by simp [setCameraItem, h]
  set_eq_error h := by simp [setCameraItem, h]
  change_trimmed := applyInterfaces?_trimmed

theorem spelling_interfaces : Spelling "interfaces" "Interfaces" :=
  ⟨by decide, by decide, by decide⟩

/-! ## Outcomes -/

/-- The mask of the named interfaces. -/
def offered (names : List String) : UInt32 :=
  Interface.maskOf (Interface.isNamed (names.map String.toList))

/-- The names come to the mask, in whichever way they are written. -/
structure Agree (info : CameraInfo) (names : List String) (mask : UInt32) : Prop where
  listed : (InterfaceList.names names).toMask = .ok mask
  joined : applyInterfaces? 0 ("|".intercalate names) = some mask
  inTurn : applyCamera info (repeated "Interfaces" names) =
    (.ok (), { info with interfaces := mask })

/-- The names are refused because of a bad one, in whichever way they are written.  Keys in
front of that with the bad name have been applied. -/
structure Refused (info : CameraInfo) (front : List String) (bad : String) (rest : List String) :
    Prop where
  listed : (InterfaceList.names (front ++ bad :: rest)).toMask =
    .error (.invalidValue "interfaces" bad)
  joined : applyInterfaces? 0 ("|".intercalate (front ++ bad :: rest)) = none
  inTurn : applyCamera info (repeated "Interfaces" (front ++ bad :: rest)) =
    (.error (.invalidValue "interfaces" (trimmed bad)), { info with interfaces := offered front })

/-- A name of one of the interfaces. -/
def Known (name : String) : Prop :=
  Interface.named? name.toList ≠ none

instance : DecidablePred Known :=
  fun _ => inferInstanceAs (Decidable (_ ≠ _))

theorem addNamed_toList {names : List String} (h_known : ∀ name ∈ names, Known name) :
    Interface.addNamed 0 (names.map String.toList) = .ok (offered names) :=
  Interface.addNamed_of_known (fun _ => false) (List.forall_mem_map.mpr h_known)

variable {info : CameraInfo} {names others front rest : List String} {bad : String}

theorem offered_congr (h : ∀ name, name ∈ others ↔ name ∈ names) :
    offered others = offered names := by
  refine congrArg Interface.maskOf (funext fun i => ?_)
  rw [Interface.isNamed, Interface.isNamed, Bool.eq_iff_iff]
  simp only [List.any_map, List.any_eq_true, h]

theorem exists_first_unknown (h : ∃ name ∈ names, ¬ Known name) :
    ∃ front bad rest, names = front ++ bad :: rest ∧ (∀ name ∈ front, Known name) ∧
      ¬ Known bad := by
  obtain ⟨bad, h_find⟩ := Option.isSome_iff_exists.mp
    (List.find?_isSome (p := fun name => decide ¬ Known name) |>.mpr (by simpa using h))
  obtain ⟨h_bad, front, rest, h_names, h_front⟩ := List.find?_eq_some_iff_append.mp h_find
  exact ⟨front, bad, rest, h_names, by simpa using h_front, by simpa using h_bad⟩

theorem agree_offered (h_info : info.interfaces = 0) (h_some : names ≠ [])
    (h_names : ∀ name ∈ names, PlainName name) (h_known : ∀ name ∈ names, Known name) :
    Agree info names (offered names) where
  listed := by rw [InterfaceList.toMask, addNamed_toList h_known]
  joined := by
    rw [applyInterfaces?_intercalate 0 h_some h_names, addNamed_toList h_known]
    rfl
  inTurn := by
    refine interfaces.applyWith_of_some spelling_interfaces
      (fun name h_mem => (h_names name h_mem).comma) ?_
    have h_fold := foldlM_applyInterfaces? info.interfaces h_names
    rwa [h_info, addNamed_toList h_known, ← h_info] at h_fold

theorem refused_of_unknown (h_info : info.interfaces = 0)
    (h_names : ∀ name ∈ front ++ bad :: rest, PlainName name) (h_front : ∀ name ∈ front, Known name)
    (h_bad : ¬ Known bad) : Refused info front bad rest := by
  have h_unknown : Interface.named? bad.toList = none := not_not.mp h_bad
  have h_all : Interface.addNamed 0 ((front ++ bad :: rest).map String.toList) =
      .error bad.toList := by
    rw [List.map_append, List.map_cons]
    exact Interface.addNamed_of_unknown 0 (List.forall_mem_map.mpr h_front) h_unknown
  have h_name : PlainName bad := h_names bad (by simp)
  refine ⟨?_, ?_, ?_⟩
  · simp only [InterfaceList.toMask, h_all, String.ofList_toList]
  · rw [applyInterfaces?_intercalate 0 (by simp) h_names, h_all]
    rfl
  · refine interfaces.applyWith_of_refused spelling_interfaces
      (fun name h_mem => (h_names name h_mem).comma) ?_ ?_
    · have h_fold := foldlM_applyInterfaces? info.interfaces
        fun name h_mem => h_names name (List.mem_append_left _ h_mem)
      rwa [h_info, addNamed_toList h_front, ← h_info] at h_fold
    · exact (h_name.applyInterfaces?_eq _).trans (by rw [h_unknown, Option.map_none])

/-- Names that are all known come to the mask of the interfaces they name, so their order and
number do not matter; and the first unknown name is refused. -/
theorem interface_notations (h_info : info.interfaces = 0) (h_some : names ≠ [])
    (h_names : ∀ name ∈ names, PlainName name) :
    ((∃ name ∈ names, ¬ Known name) →
      ∃ front bad rest, names = front ++ bad :: rest ∧ (∀ name ∈ front, Known name) ∧
        ¬ Known bad ∧ Refused info front bad rest) ∧
    ((∀ name ∈ names, Known name) → Agree info names (offered names) ∧
      ∀ others, (∀ name, name ∈ others ↔ name ∈ names) → Agree info others (offered names)) := by
  refine ⟨fun h_unknown => ?_, fun h_known => ?_⟩
  · obtain ⟨front, bad, rest, rfl, h_front, h_bad⟩ := exists_first_unknown h_unknown
    exact ⟨front, bad, rest, rfl, h_front, h_bad, refused_of_unknown h_info h_names h_front h_bad⟩
  · refine ⟨agree_offered h_info h_some h_names h_known, fun others h_others => ?_⟩
    obtain ⟨name, h_mem⟩ := List.exists_mem_of_ne_nil names h_some
    rw [← offered_congr h_others]
    exact agree_offered h_info (List.ne_nil_of_mem ((h_others name).mpr h_mem))
      (fun name h_mem => h_names name ((h_others name).mp h_mem))
      fun name h_mem => h_known name ((h_others name).mp h_mem)

/-- Blanks, mixed case, another order with a name repeated, and an unknown name. -/
theorem interface_notations_mixed :
    let info : CameraInfo := {}
    Agree info [" MIPI ", "gpio"] 5 ∧ Agree info ["gpio", " MIPI ", "gpio"] 5 ∧
      Refused info ["I2C"] "usb " ["mipi"] := by
  intro info
  have plain : ∀ name ∈ [" MIPI ", "gpio", "I2C", "usb ", "mipi"], PlainName name := by decide
  have known : ∀ name ∈ [" MIPI ", "gpio", "I2C"], Known name := by decide
  obtain ⟨-, h_agree⟩ := @interface_notations info [" MIPI ", "gpio"] rfl (by simp)
    fun name h_mem => plain name (List.mem_append_left _ h_mem)
  obtain ⟨h_refused, -⟩ := @interface_notations info ["I2C", "usb ", "mipi"] rfl (by simp)
    fun name h_mem => plain name (List.mem_append_right [" MIPI ", "gpio"] h_mem)
  have h_offered : offered [" MIPI ", "gpio"] = 5 := by decide
  obtain ⟨agree, h_others⟩ := h_agree fun name h_mem => known name (List.mem_append_left _ h_mem)
  have agree_others := h_others ["gpio", " MIPI ", "gpio"] (by simp)
  rw [h_offered] at agree agree_others
  refine ⟨agree, agree_others, ?_⟩
  obtain ⟨front, bad, rest, h_split, h_front, h_bad, refused⟩ :=
    h_refused ⟨"usb ", by simp, by decide⟩
  match front, h_split with
  | [], h_split =>
    obtain rfl : "I2C" = bad := (List.cons.inj h_split).1
    exact absurd (by decide) h_bad
  | [_], h_split =>
    simp only [List.cons_append, List.nil_append, List.cons.injEq] at h_split
    obtain ⟨rfl, rfl, rfl⟩ := h_split
    exact refused
  | _ :: second :: _, h_split =>
    simp only [List.cons_append, List.cons.injEq] at h_split
    obtain ⟨-, rfl, -⟩ := h_split
    exact absurd (h_front "usb " (by simp)) (by decide)

end Settings

end FlashImage
