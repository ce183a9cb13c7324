import FlashImage.Camera.Builder
import Mathlib.Data.List.Nodup

/-!
# Queueing commands

A request to queue a command is granted if its identifier is known and free and
its file is there.  A request that is refused changes nothing.

* `CameraBuilder.distinct_addAll`: no identifier is queued twice, and none is that
  of the basic information record.
-/

namespace FlashImage

inductive CommandInput where
  | memory (bytes : Bytes)
  | file (files : FileTree) (source : CommandSource)

structure CommandRequest where
  id : CommandId
  input : CommandInput

namespace CommandInput

/-- Bytes from memory are always there, a file has to exist. -/
def Present : CommandInput → Prop
  | memory _ => True
  | file files source => files.isFile source.path = true

def payload : CommandInput → Payload
  | memory bytes => .inline bytes
  | file _ source => .source source

end CommandInput

namespace CameraBuilder

/-! ## One request -/

def request (b : CameraBuilder) (r : CommandRequest) :
    Except CameraError (UInt32 × CameraBuilder) :=
  match r.input with
  | .memory bytes => b.addBytes r.id bytes
  | .file files source => b.addSource files r.id source

theorem reserve_eq_ok_iff {b : CameraBuilder} {id : CommandId} {identifier : UInt32} :
    b.reserve id = .ok identifier ↔ id.resolve = .ok identifier ∧ b.isTaken identifier = false := by
  unfold reserve
  cases id.resolve with
  | error e => simp [bind, Except.bind]
  | ok found =>
    simp only [bind, Except.bind, Except.ok.injEq]
    cases h_taken : b.isTaken found with
    | true =>
      refine iff_of_false (by simp) fun ⟨h_eq, h_free⟩ => ?_
      rw [← h_eq, h_taken] at h_free
      cases h_free
    | false => exact ⟨fun h => by cases h; exact ⟨rfl, h_taken⟩, fun h => congrArg Except.ok h.1⟩

theorem request_eq_ok_iff {b after : CameraBuilder} {r : CommandRequest} {identifier : UInt32} :
    b.request r = .ok (identifier, after) ↔
      r.id.resolve = .ok identifier ∧ b.isTaken identifier = false ∧ r.input.Present ∧
        after = b.enqueue identifier r.input.payload := by
  rw [← and_assoc, ← reserve_eq_ok_iff]
  obtain ⟨id, input⟩ := r
  unfold request
  cases input with
  | memory bytes =>
    unfold addBytes
    cases b.reserve id with
    | error e => simp [bind, Except.bind]
    | ok found =>
      simp only [bind, Except.bind, Except.ok.injEq, Prod.mk.injEq, CommandInput.Present, true_and]
      refine and_congr_right fun h => ?_
      rw [h, eq_comm]
      rfl
  | file files source =>
    unfold addSource
    cases b.reserve id with
    | error e => simp [bind, Except.bind]
    | ok found =>
      simp only [bind, Except.bind, Except.ok.injEq, CommandInput.Present]
      split
      next is_file =>
        simp only [Except.ok.injEq, Prod.mk.injEq, is_file, true_and]
        refine and_congr_right fun h => ?_
        rw [h, eq_comm]
        rfl
      next not_file => exact iff_of_false (by simp) fun h => not_file h.2.1

/-- The builder after a request, which is the same as before if it was refused. -/
def afterRequest (b : CameraBuilder) (r : CommandRequest) : CameraBuilder :=
  match b.request r with
  | .ok (_, after) => after
  | .error _ => b

def acceptedBy (b : CameraBuilder) (r : CommandRequest) : List (UInt32 × Payload) :=
  match b.request r with
  | .ok (identifier, _) => [(identifier, r.input.payload)]
  | .error _ => []

/-- A request is refused, or its command goes to the end of the queue. -/
theorem afterRequest_cases (b : CameraBuilder) (r : CommandRequest) :
    (b.afterRequest r = b ∧ b.acceptedBy r = []) ∨
      ∃ identifier, b.isTaken identifier = false ∧
        b.afterRequest r = b.enqueue identifier r.input.payload ∧
        b.acceptedBy r = [(identifier, r.input.payload)] := by
  unfold afterRequest acceptedBy
  cases h_request : b.request r with
  | error e => exact .inl ⟨rfl, rfl⟩
  | ok granted =>
    obtain ⟨identifier, after⟩ := granted
    obtain ⟨-, h_free, -, rfl⟩ := request_eq_ok_iff.mp h_request
    exact .inr ⟨identifier, h_free, rfl, rfl⟩

/-! ## Runs of requests -/

/-- The builder after a run of requests, whatever became of each. -/
def addAll (b : CameraBuilder) : List CommandRequest → CameraBuilder
  | [] => b
  | r :: requests => addAll (b.afterRequest r) requests

/-- The commands that a run of requests queues, in the order of the requests. -/
def accepted (b : CameraBuilder) : List CommandRequest → List (UInt32 × Payload)
  | [] => []
  | r :: requests => b.acceptedBy r ++ accepted (b.afterRequest r) requests

/-- Requests queue commands and do nothing else. -/
theorem addAll_eq (b : CameraBuilder) (requests : List CommandRequest) :
    b.addAll requests = { b with commands := b.commands ++ b.accepted requests } := by
  induction requests generalizing b with
  | nil => simp only [addAll, accepted, List.append_nil]
  | cons r requests ih =>
    rw [addAll, accepted, ih]
    rcases b.afterRequest_cases r with ⟨h_same, h_none⟩ | ⟨identifier, -, h_after, h_one⟩
    · rw [h_same, h_none, List.nil_append]
    · rw [h_one, ← List.append_assoc, h_after]
      rfl

@[simp] theorem medium_addAll (b : CameraBuilder) (requests : List CommandRequest) :
    (b.addAll requests).medium = b.medium := by
  rw [addAll_eq]

@[simp] theorem info_addAll (b : CameraBuilder) (requests : List CommandRequest) :
    (b.addAll requests).info = b.info := by
  rw [addAll_eq]

@[simp] theorem commands_addAll (b : CameraBuilder) (requests : List CommandRequest) :
    (b.addAll requests).commands = b.commands ++ b.accepted requests := by
  rw [addAll_eq]

/-! ## Identifiers -/

/-- The identifiers of the directory: that of the basic information record and
those of the commands. -/
def identifiers (b : CameraBuilder) : List UInt32 :=
  Command.basicInfo :: b.commands.map (·.1)

theorem isTaken_iff {b : CameraBuilder} {identifier : UInt32} :
    b.isTaken identifier = true ↔ identifier ∈ b.identifiers := by
  simp only [isTaken, identifiers, Bool.or_eq_true, beq_iff_eq, List.any_eq_true, List.mem_cons,
    List.mem_map]

theorem distinct_afterRequest {b : CameraBuilder} (distinct : b.identifiers.Nodup)
    (r : CommandRequest) : (b.afterRequest r).identifiers.Nodup := by
  rcases b.afterRequest_cases r with ⟨h_same, -⟩ | ⟨identifier, h_free, h_after, -⟩
  · rwa [h_same]
  · have fresh : identifier ∉ b.identifiers := by
      rw [← isTaken_iff, h_free]
      exact Bool.false_ne_true
    have h_snoc : (b.afterRequest r).identifiers = b.identifiers ++ [identifier] := by
      rw [h_after, identifiers, enqueue, List.map_append]
      rfl
    rw [h_snoc]
    exact List.nodup_append.mpr ⟨distinct, List.nodup_singleton _, fun i h_mem j h_j => by
      rw [List.mem_singleton] at h_j
      exact h_j ▸ ne_of_mem_of_not_mem h_mem fresh⟩

theorem distinct_addAll {b : CameraBuilder} (distinct : b.identifiers.Nodup)
    (requests : List CommandRequest) : (b.addAll requests).identifiers.Nodup := by
  induction requests generalizing b with
  | nil => exact distinct
  | cons r requests ih => exact ih (distinct_afterRequest distinct r)

end CameraBuilder

end FlashImage
