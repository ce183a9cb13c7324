import FlashImage.Digest.Sha256
import FlashImage.Proofs.Decoding.Outcomes

/-!
# Padded files

A dump of a flash chip is as long as the chip, and the image ends somewhere inside it.
Decoding looks at ranges that the file itself names, so bytes behind the last of them
are never seen: neither what is decoded nor the reason of a refusal depends on them,
unless the reason is that bytes are missing.

* `inspect_padded`: decoding a file and the same file with any bytes behind it.
-/

namespace FlashImage

/-! ## Fields of a longer file -/

section Fields

variable {d : Bytes} {o : Nat}

theorem DirectoryEntry.at?_append {e : DirectoryEntry} (h : at? d o = some e) (s : Bytes) :
    at? (d ++ s) o = some e := by
  have h_take := at?_take (d := d ++ s) (le_length_of_at? h)
  rw [List.take_left, h] at h_take
  exact h_take.symm

theorem RootHeader.at?_append {r : RootHeader} (h : at? d o = some r) (s : Bytes) :
    at? (d ++ s) o = some r := by
  have h_take := at?_take (d := d ++ s) (le_length_of_at? h)
  rw [List.take_left, h] at h_take
  exact h_take.symm

end Fields

/-- A file is refused because it does not reach as far as it says. -/
inductive InspectError.LacksBytes : InspectError → Prop where
  | truncated (offset needed available : Nat) : LacksBytes (.truncated offset needed available)
  | entryOutOfBounds (identifier : UInt32) (offset : Nat) (size : UInt32) (available : Nat) :
      LacksBytes (.entryOutOfBounds identifier offset size available)

namespace Inspect

/-! ## Refusals -/

section Refused

variable {digest : Bytes → String} {d : Bytes} {e : InspectError}

theorem Headed.append {header : RootHeader} (headed : Headed d header) (s : Bytes) :
    Headed (d ++ s) header where
  header_eq := RootHeader.at?_append headed.header_eq s
  signature_eq := headed.signature_eq
  entrySize_eq := headed.entrySize_eq

/-- The entries of a directory are refused only for want of bytes. -/
theorem Digested.lacksBytes {base : Nat} {kind : UInt32 → Option String}
    {directory : List DirectoryEntry}
    (digested : Digested digest d base kind directory (.error e)) : e.LacksBytes := by
  cases digested with
  | outside => exact .entryOutOfBounds _ _ _ _

theorem RootOutcome.padded (outcome : RootOutcome digest d (.error e)) (h_enough : ¬ e.LacksBytes)
    (s : Bytes) : RootOutcome digest (d ++ s) (.error e) := by
  generalize h_result : Except.error e = result at outcome
  cases outcome with
  | noHeader =>
    cases h_result
    exact absurd (.truncated _ _ _) h_enough
  | badSignature h_header h =>
    cases h_result
    exact .badSignature (RootHeader.at?_append h_header s) h
  | badEntrySize h_header h_signature h =>
    cases h_result
    exact .badEntrySize (RootHeader.at?_append h_header s) h_signature h
  | ragged headed h =>
    cases h_result
    exact .ragged (headed.append s) h
  | noDirectory =>
    cases h_result
    exact absurd (.truncated _ _ _) h_enough
  | digested _ _ _ digested =>
    rw [map_eq_error.mp h_result.symm] at digested
    exact absurd digested.lacksBytes h_enough

/-- Of a camera configuration only the size of the directory is checked for itself. -/
theorem CameraOutcome.ragged_of_enough (outcome : CameraOutcome digest d (.error e))
    (h_enough : ¬ e.LacksBytes) :
    ∃ first, DirectoryEntry.at? d 0 = some first ∧ ¬ 12 ∣ first.offset.toNat ∧
      e = .raggedDirectory first.offset 12 := by
  generalize h_result : Except.error e = result at outcome
  cases outcome with
  | noEntry | noDirectory | noInfo =>
    cases h_result
    exact absurd (.truncated _ _ _) h_enough
  | ragged h_first h =>
    cases h_result
    exact ⟨_, h_first, h, rfl⟩
  | digested _ _ _ digested =>
    rw [map_eq_error.mp h_result.symm] at digested
    exact absurd digested.lacksBytes h_enough

theorem CameraOutcome.padded (outcome : CameraOutcome digest d (.error e))
    (h_enough : ¬ e.LacksBytes) (s : Bytes) : CameraOutcome digest (d ++ s) (.error e) := by
  obtain ⟨first, h_first, h, rfl⟩ := outcome.ragged_of_enough h_enough
  exact .ragged (DirectoryEntry.at?_append h_first s) h

theorem Outcome.padded (outcome : Outcome digest d (.error e)) (h_enough : ¬ e.LacksBytes)
    (s : Bytes) : Outcome digest (d ++ s) (.error e) := by
  generalize h_result : Except.error e = result at outcome
  cases outcome with
  | root h_kind outcome =>
    have h_inner := map_eq_error.mp h_result.symm
    rw [h_inner] at outcome ⊢
    exact .root (h_kind.trans (List.prefix_append d s)) (outcome.padded h_enough s)
  | camera h_kind outcome =>
    have h_inner := map_eq_error.mp h_result.symm
    rw [h_inner] at outcome ⊢
    refine .camera (fun h_root => h_kind ?_) (outcome.padded h_enough s)
    obtain ⟨first, h_first, -⟩ := outcome.ragged_of_enough h_enough
    have h_long := DirectoryEntry.le_length_of_at? h_first
    apply List.prefix_of_prefix_length_le h_root (List.prefix_append d s)
    rw [Word.length_encode]
    omega

end Refused

/-! ## Any bytes behind a file -/

/-- What a file is decoded to, the same file with any bytes behind it is decoded to as
well, by the same branch; and it is refused for the same reason, unless it lacks bytes. -/
theorem inspect_padded (digest : Bytes → String) {img padded : Image} {d s : Bytes}
    (h_file : img.toBytes = d) (h_padded : padded.toBytes = d ++ s) :
    (∀ r, inspectRoot digest img = .ok r → inspectRoot digest padded = .ok r) ∧
    (∀ i, inspectCamera digest img = .ok i → inspectCamera digest padded = .ok i) ∧
    (∀ x, inspect digest img = .ok x → inspect digest padded = .ok x) ∧
    ∀ e : InspectError, ¬ e.LacksBytes →
      (inspectRoot digest img = .error e → inspectRoot digest padded = .error e) ∧
      (inspectCamera digest img = .error e → inspectCamera digest padded = .error e) ∧
      (inspect digest img = .error e → inspect digest padded = .error e) := by
  subst h_file
  have h_begins : img.Begins padded := by
    rw [Image.Begins, h_padded]
    exact List.prefix_append img.toBytes s
  refine ⟨fun r => inspectRoot_mono h_begins, fun i => inspectCamera_mono h_begins,
    fun x => inspect_mono h_begins, fun e h_enough => ?_⟩
  simp only [inspectRoot_eq_iff, inspectCamera_eq_iff, inspect_eq_iff, h_padded]
  exact ⟨fun outcome => outcome.padded h_enough s, fun outcome => outcome.padded h_enough s,
    fun outcome => outcome.padded h_enough s⟩

open Sha256 (hexDigest)

/-- A camera configuration with an empty command where it ends. -/
def emptyCommandFile : Bytes :=
  DirectoryEntry.encode ⟨0x1001, 24, 60⟩ ++ DirectoryEntry.encode ⟨0x1011, 84, 0⟩ ++
    CameraInfo.encode { directoryEntryCount := 2 }

/-- A root image with an empty module where it ends. -/
def emptyModuleFile : Bytes :=
  RootHeader.encode { startOfDirectory := 40, sizeOfDirectory := 24 } ++
    DirectoryEntry.encode ⟨0x2001, 24, 2⟩ ++ DirectoryEntry.encode ⟨0x4001, 26, 0⟩ ++ [7, 9]

theorem inspect_padded_emptyEnd :
    (∃ i, inspect hexDigest (.ofBytes emptyCommandFile) = .ok (.camera i) ∧
      i.entries.map (fun x => x.absoluteOffset + x.size.toNat) = [84, emptyCommandFile.length] ∧
      inspect hexDigest (.ofBytes (emptyCommandFile ++ List.replicate 0xFFFFAC 0xFF)) =
        .ok (.camera i)) ∧
    (∃ r, inspect hexDigest (.ofBytes emptyModuleFile) = .ok (.root r) ∧
      r.entries.map (fun x => x.absoluteOffset + x.size.toNat) = [66, emptyModuleFile.length] ∧
      inspect hexDigest (.ofBytes (emptyModuleFile ++ List.replicate 0xFFFFBE 0xFF)) =
        .ok (.root r)) ∧
    inspect hexDigest (.ofBytes (RootHeader.encode { directoryEntrySize := 16 } ++ [0])) =
      .error (.raggedDirectory 0 16) := by
  refine ⟨⟨_, rfl, rfl, ?_⟩, ⟨_, rfl, rfl, ?_⟩, ?_⟩
  · have h_same := inspect_padded hexDigest (Image.toBytes_ofBytes _)
      (Image.toBytes_ofBytes (emptyCommandFile ++ List.replicate 0xFFFFAC 0xFF))
    exact h_same.2.2.1 _ rfl
  · have h_same := inspect_padded hexDigest (Image.toBytes_ofBytes _)
      (Image.toBytes_ofBytes (emptyModuleFile ++ List.replicate 0xFFFFBE 0xFF))
    exact h_same.2.2.1 _ rfl
  · have h_same := inspect_padded hexDigest (Image.toBytes_ofBytes _)
      (Image.toBytes_ofBytes (RootHeader.encode { directoryEntrySize := 16 } ++ [0]))
    refine (h_same.2.2.2 (.raggedDirectory 0 16) ?_).2.2 rfl
    intro h_lacks
    cases h_lacks

end Inspect

end FlashImage
