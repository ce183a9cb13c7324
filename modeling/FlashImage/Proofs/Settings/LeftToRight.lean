import FlashImage.Proofs.Settings.Runs
import FlashImage.Settings.Camera
import FlashImage.Settings.Root

/-!
# Settings strings are applied from left to right

Root images and cameras have settings of their own, but their strings are applied in one
way: item by item, and each item changes the one field that its key names.

* `LeftToRight`: what is true of both kinds of strings.
-/

namespace FlashImage.Settings

/-! ## Root images -/

inductive RootSets (s : LayoutSettings) : Item → LayoutSettings → Prop where
  | layoutVersion {value : String} {w : UInt32} (number : Literal.word? value = some w) :
      RootSets s ⟨"layoutversion", value⟩ { s with layoutVersion := w }
  | updateCount {value : String} {w : UInt32} (number : Literal.word? value = some w) :
      RootSets s ⟨"updatecount", value⟩ { s with updateCount := w }
  | controlField {value : String} {w : UInt32}
      (flags : applyControlFlag? s.controlField value = some w) :
      RootSets s ⟨"controlfield", value⟩ { s with controlField := w }
  | startOfDirectory {value : String} {w : UInt32} (number : Literal.word? value = some w) :
      RootSets s ⟨"startofdirectory", value⟩ { s with startOfDirectory := some w }
  | bootIdentifier {value : String} {w : UInt32} (number : Literal.word? value = some w) :
      RootSets s ⟨"uidoffirmwaretoboot", value⟩ { s with bootIdentifier := some w }

def rootVocabulary : Vocabulary LayoutSettings where
  topic := "rfs configuration"
  keys := ["layoutversion", "updatecount", "controlfield", "startofdirectory",
    "uidoffirmwaretoboot"]
  Sets := RootSets
  known := fun sets => by cases sets <;> simp

theorem answers_setRootItem (s : LayoutSettings) (i : Item) :
    rootVocabulary.Answers s i (setRootItem s i) := by
  obtain ⟨key, value⟩ := i
  unfold setRootItem
  split
  next h_key =>
    obtain rfl : key = "layoutversion" := h_key
    exact Vocabulary.answers_word (by simp [rootVocabulary]) fun _ => .layoutVersion
  next h_key =>
    obtain rfl : key = "updatecount" := h_key
    exact Vocabulary.answers_word (by simp [rootVocabulary]) fun _ => .updateCount
  next h_key =>
    obtain rfl : key = "controlfield" := h_key
    cases h_flags : applyControlFlag? s.controlField value with
    | some w => exact .applied (.controlField h_flags)
    | none => exact Vocabulary.answers_invalid (by simp [rootVocabulary])
  next h_key =>
    obtain rfl : key = "startofdirectory" := h_key
    exact Vocabulary.answers_word (by simp [rootVocabulary]) fun _ => .startOfDirectory
  next h_key =>
    obtain rfl : key = "uidoffirmwaretoboot" := h_key
    exact Vocabulary.answers_word (by simp [rootVocabulary]) fun _ => .bootIdentifier
  next => exact Vocabulary.answers_unknown (by simp_all [rootVocabulary])

theorem governs_setRootItem : rootVocabulary.Governs setRootItem where
  answers := answers_setRootItem
  applies := by
    intro s i t sets
    cases sets with
    | controlField flags => simp [setRootItem, flags]
    | layoutVersion number | updateCount number | startOfDirectory number
    | bootIdentifier number => simp [setRootItem, word_eq_ok number, bind, Except.bind]

/-- The fields without a key, and those whose keys are not among the given ones, are the
same before and after. -/
structure RootFrame (keys : List String) (s t : LayoutSettings) : Prop where
  eraseBlockAlignment : t.eraseBlockAlignment = s.eraseBlockAlignment
  directoryCopies : t.directoryCopies = s.directoryCopies
  layoutVersion (h_keys : "layoutversion" ∉ keys) : t.layoutVersion = s.layoutVersion
  updateCount (h_keys : "updatecount" ∉ keys) : t.updateCount = s.updateCount
  controlField (h_keys : "controlfield" ∉ keys) : t.controlField = s.controlField
  startOfDirectory (h_keys : "startofdirectory" ∉ keys) : t.startOfDirectory = s.startOfDirectory
  bootIdentifier (h_keys : "uidoffirmwaretoboot" ∉ keys) : t.bootIdentifier = s.bootIdentifier

theorem RootFrame.refl (s : LayoutSettings) : RootFrame [] s s := by
  constructor <;> simp

theorem RootFrame.cons {s t u : LayoutSettings} {i : Item} {keys : List String}
    (sets : RootSets s i t) (frame : RootFrame keys t u) : RootFrame (i.key :: keys) s u := by
  obtain ⟨_, _, _, _, _, _, _⟩ := frame
  cases sets <;> constructor <;> simp_all

/-! ## Cameras -/

inductive CameraSets (s : CameraInfo) : Item → CameraInfo → Prop where
  | layoutVersion {value : String} {w : UInt32} (number : Literal.word? value = some w) :
      CameraSets s ⟨"layoutversion", value⟩ { s with layoutVersion := w }
  | vendorName (value : String) : CameraSets s ⟨"vendorname", value⟩ { s with vendorName := value }
  | modelName (value : String) : CameraSets s ⟨"modelno", value⟩ { s with modelName := value }
  | driverVersion (value : String) :
      CameraSets s ⟨"driverversion", value⟩ { s with driverVersion := value }
  | interfaces {key value : String} {mask : UInt32}
      (h_key : key = "interfaces" ∨ key = "interface")
      (named : applyInterfaces? s.interfaces value = some mask) :
      CameraSets s ⟨key, value⟩ { s with interfaces := mask }

def cameraVocabulary : Vocabulary CameraInfo where
  topic := "basic configuration"
  keys := ["layoutversion", "vendorname", "modelno", "driverversion", "interfaces", "interface"]
  Sets := CameraSets
  known := fun sets => by cases sets <;> simp_all

theorem answers_interfaces (s : CameraInfo) {key : String}
    (h_key : key = "interfaces" ∨ key = "interface") (value : String) :
    cameraVocabulary.Answers s ⟨key, value⟩
      (match applyInterfaces? s.interfaces value with
      | some interfaces => .ok { s with interfaces }
      | none => .error (.invalidValue key value)) := by
  cases h_named : applyInterfaces? s.interfaces value with
  | some mask => exact .applied (.interfaces h_key h_named)
  | none => exact Vocabulary.answers_invalid (by simp_all [cameraVocabulary])

theorem answers_setCameraItem (s : CameraInfo) (i : Item) :
    cameraVocabulary.Answers s i (setCameraItem s i) := by
  obtain ⟨key, value⟩ := i
  unfold setCameraItem
  split
  next h_key =>
    obtain rfl : key = "layoutversion" := h_key
    exact Vocabulary.answers_word (by simp [cameraVocabulary]) fun _ => .layoutVersion
  next h_key =>
    obtain rfl : key = "vendorname" := h_key
    exact .applied (.vendorName value)
  next h_key =>
    obtain rfl : key = "modelno" := h_key
    exact .applied (.modelName value)
  next h_key =>
    obtain rfl : key = "driverversion" := h_key
    exact .applied (.driverVersion value)
  next h_key => exact answers_interfaces s (.inl h_key) value
  next h_key => exact answers_interfaces s (.inr h_key) value
  next => exact Vocabulary.answers_unknown (by simp_all [cameraVocabulary])

theorem governs_setCameraItem : cameraVocabulary.Governs setCameraItem where
  answers := answers_setCameraItem
  applies := by
    intro s i t sets
    cases sets with
    | layoutVersion number => simp [setCameraItem, word_eq_ok number, bind, Except.bind]
    | vendorName | modelName | driverVersion => rfl
    | interfaces h_key named => obtain rfl | rfl := h_key <;> simp [setCameraItem, named]

structure CameraFrame (keys : List String) (s t : CameraInfo) : Prop where
  directoryEntryCount : t.directoryEntryCount = s.directoryEntryCount
  layoutVersion (h_keys : "layoutversion" ∉ keys) : t.layoutVersion = s.layoutVersion
  vendorName (h_keys : "vendorname" ∉ keys) : t.vendorName = s.vendorName
  modelName (h_keys : "modelno" ∉ keys) : t.modelName = s.modelName
  driverVersion (h_keys : "driverversion" ∉ keys) : t.driverVersion = s.driverVersion
  interfaces (h_keys : "interfaces" ∉ keys) (h_others : "interface" ∉ keys) :
    t.interfaces = s.interfaces

theorem CameraFrame.refl (s : CameraInfo) : CameraFrame [] s s := by
  constructor <;> simp

theorem CameraFrame.cons {s t u : CameraInfo} {i : Item} {keys : List String}
    (sets : CameraSets s i t) (frame : CameraFrame keys t u) :
    CameraFrame (i.key :: keys) s u := by
  obtain ⟨_, _, _, _, _, _⟩ := frame
  cases sets with
  | interfaces h_key => obtain rfl | rfl := h_key <;> constructor <;> simp_all
  | layoutVersion | vendorName | modelName | driverVersion => constructor <;> simp_all

/-! ## Whole strings -/

/-- Strings are applied from left to right: how each of them ends, what it leaves alone,
and what a string does that is continued behind a comma. -/
structure LeftToRight {σ : Type} (v : Vocabulary σ) (Frame : List String → σ → σ → Prop)
    (apply : σ → String → Except SettingsError Unit × σ) : Prop where
  outcome : ∀ s input r t,
    apply s input = (r, t) ↔ ∃ applied, v.Outcome s (rawItems input.toList) applied r t
  frame : ∀ {s raws applied r t}, v.Outcome s raws applied r t → Frame (applied.map Item.key) s t
  continued : ∀ s a b, (∀ raw ∈ rawItems b.toList, '=' ∈ raw) →
    apply s (a ++ "," ++ b) = andThen (apply s a) (apply · b)

theorem Vocabulary.Governs.leftToRight {σ : Type} {v : Vocabulary σ}
    {set : σ → Item → Except SettingsError σ} (governs : v.Governs set)
    {Frame : List String → σ → σ → Prop} (refl : ∀ s, Frame [] s s)
    (cons : ∀ {s t u i keys}, v.Sets s i t → Frame keys t u → Frame (i.key :: keys) s u) :
    LeftToRight v Frame (applyWith set) where
  outcome s input r t := governs.applyWith_eq_iff
  frame := by
    intro s raws applied r t outcome
    cases outcome with
    | malformed => exact refl s
    | refused _ run | applied _ run => exact run.induct refl cons
  continued s a _ h_b := applyWith_append set s a h_b

theorem settings_leftToRight :
    LeftToRight rootVocabulary RootFrame applyRoot ∧
      LeftToRight cameraVocabulary CameraFrame applyCamera :=
  ⟨governs_setRootItem.leftToRight .refl .cons, governs_setCameraItem.leftToRight .refl .cons⟩

theorem settings_leftToRight_twoStrings :
    let root := "UpdateCount=4, ,ControlField=0x7"
    let rest := "ControlField=Config-Valid,Bogus=1"
    let interfaces := "ModelNo=m2,Interface=i2c|gpio"
    (applyRoot {} root = (.ok (), { updateCount := 4, controlField := 7 }) ∧
      (∀ raw ∈ rawItems rest.toList, '=' ∈ raw) ∧
      applyRoot {} (root ++ "," ++ rest) =
        (.error (.unknownKey "rfs configuration" "bogus"),
          { updateCount := 4, controlField := 6 })) ∧
    (∀ raw ∈ rawItems interfaces.toList, '=' ∈ raw) ∧
      applyCamera {} ("Interfaces=mipi" ++ "," ++ interfaces) =
        (.ok (), { modelName := "m2", interfaces := 7 }) ∧
      ∃ applied, cameraVocabulary.Outcome {} (rawItems "Interfaces=mipi|i2c,Bogus=1".toList) applied
        (.error (.unknownKey "basic configuration" "bogus")) { interfaces := 3 } := by
  obtain ⟨root, camera⟩ := settings_leftToRight
  have h_rest : ∀ raw ∈ rawItems "ControlField=Config-Valid,Bogus=1".toList, '=' ∈ raw := by
    decide
  have h_interfaces : ∀ raw ∈ rawItems "ModelNo=m2,Interface=i2c|gpio".toList, '=' ∈ raw := by
    decide
  refine ⟨⟨rfl, h_rest, ?_⟩, h_interfaces, ?_, (camera.outcome {} _ _ _).mp (by rfl)⟩
  · rw [root.continued {} _ _ h_rest]
    rfl
  · rw [camera.continued {} _ _ h_interfaces]
    rfl

end FlashImage.Settings
