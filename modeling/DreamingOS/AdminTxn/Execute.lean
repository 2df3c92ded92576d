import Mathlib.Data.Int.Notation
import Mathlib.Tactic.Common

namespace DreamingOS.AdminTxn

/-!
# The admin transaction runner

`webd_admin_txn_execute` over a shared state that the callbacks of the steps read and change.

* `Step`, `Checked`, `Armed` — a step as it is given, as it has been validated, and with its
  snapshot;
* `Event` — the calls of callbacks, with what they return;
* `execute` — the five phases.
-/

abbrev Text := List Char

/-! ### Steps -/

def MAX_STEPS : ℕ := 8
def NAME_MAX : ℕ := 48
def ERROR_MAX : ℕ := 160
def IRREVERSIBLE : UInt32 := 1

/-- What a callback returns, and the text it leaves in the error buffer. -/
structure Reply where
  rc : ℤ
  error : Text := []

/-- A callback returns zero when it has succeeded. -/
def Reply.ok (r : Reply) : Bool := r.rc = 0

variable {σ η : Type}

/-- `struct webd_admin_txn_step`; `σ` is the shared state and `η` what a snapshot is. What
    `snapshot_free` releases is not part of the shared state. -/
structure Step (σ η : Type) where
  name : Option Text
  flags : UInt32
  preflight : Option (σ → Reply × σ)
  snapshot : Option (σ → Reply × Option η × σ)
  apply : Option (σ → Reply × σ)
  restore : Option (η → σ → Reply × σ)
  snapshotFree : Bool

def Step.irreversible (step : Step σ η) : Bool := step.flags &&& IRREVERSIBLE ≠ 0

/-- How a step can be undone. -/
structure Undo (σ η : Type) where
  snapshot : σ → Reply × Option η × σ
  restore : η → σ → Reply × σ

/-- A step that has been validated; an irreversible one has no undo. -/
structure Checked (σ η : Type) where
  name : Text
  preflight : Option (σ → Reply × σ)
  apply : σ → Reply × σ
  undo : Option (Undo σ η)

/-- A step with its snapshot. -/
structure Armed (σ η : Type) where
  name : Text
  apply : σ → Reply × σ
  undo : Option (η × (η → σ → Reply × σ))

/-! ### The record of the caller -/

inductive Status where
  | ok
  | invalid
  | preflightFailed
  | snapshotFailed
  | applyFailed
  | rollbackFailed
  | irreversibleOrder
deriving DecidableEq

/-- `webd_admin_txn_status_error`. -/
def Status.error : Status → Text
  | .preflightFailed => "admin_transaction_preflight_failed".toList
  | .snapshotFailed => "admin_transaction_snapshot_failed".toList
  | .applyFailed => "admin_transaction_apply_failed".toList
  | .rollbackFailed => "admin_transaction_rollback_failed".toList
  | .irreversibleOrder => "admin_transaction_irreversible_order".toList
  | .invalid => "admin_transaction_invalid".toList
  | .ok => []

inductive Phase where
  | none
  | preflight
  | snapshot
  | apply
  | rollback
  | done

/-- `struct webd_admin_txn_result`; an index that is `SIZE_MAX` there is none here. -/
structure Result where
  status : Status
  phase : Phase
  failedStepIndex : Option ℕ
  (failedStep error applyFailedStep applyError rollbackFailedStep rollbackError : Text)
  (applyAttempted appliedSteps rollbackAttempted rollbackFailed : ℕ)
  irreversibleAttempted : Bool

/-- `txn_result_init`. -/
def Result.init : Result := ⟨.invalid, .none, none, [], [], [], [], [], [], 0, 0, 0, 0, false⟩

/-- `snprintf` into a buffer of `n` bytes. -/
def cut (n : ℕ) (t : Text) : Text := t.take (n - 1)

/-- A text, or another one when it is empty. -/
def orElse (t other : Text) : Text := if t = [] then other else t

/-- `txn_result_failure`. -/
def Result.failure (r : Result) (status : Status) (phase : Phase) (index : ℕ) (name error : Text) :
    Result :=
  { r with
    status, phase
    failedStepIndex := some index
    failedStep := cut NAME_MAX name
    error := cut ERROR_MAX (orElse error status.error) }

/-- A restore is called. -/
def Result.restoring (r : Result) : Result := { r with rollbackAttempted := r.rollbackAttempted + 1 }

/-- A restore has failed; the first failure is kept. -/
def Result.restoreFailed (r : Result) (first : Option (ℕ × Text × Text)) (name error : Text) :
    Result :=
  let r := { r with rollbackFailed := r.rollbackFailed + 1 }
  match first with
  | some _ => r
  | none => { r with rollbackFailedStep := cut NAME_MAX name, rollbackError := error }

/-- An apply is called. -/
def Result.applying (r : Result) (irreversible : Bool) : Result :=
  { r with
    applyAttempted := r.applyAttempted + 1
    irreversibleAttempted := r.irreversibleAttempted || irreversible }

def Result.applied (r : Result) : Result := { r with appliedSteps := r.appliedSteps + 1 }

def Result.applyFailed (r : Result) (name error : Text) : Result :=
  { r with applyFailedStep := cut NAME_MAX name, applyError := error }

/-- The record of a transaction that has been applied. -/
def Result.succeed (r : Result) : Result :=
  { r with status := .ok, phase := .done, failedStepIndex := none, failedStep := [], error := [] }

/-! ### Validation -/

/-- `txn_name_ok`. -/
def nameOk (name : Text) : Bool := 0 < name.length && name.length < NAME_MAX

/-- The checks of one step; `count` is the number of steps and `found` that of the irreversible ones
    in front of it. -/
def validateStep (count found i : ℕ) (step : Step σ η) : Except (Status × Text) (Checked σ η) :=
  match step.apply with
  | none => .error (.invalid, "invalid_transaction_step".toList)
  | some apply =>
    if !nameOk (step.name.getD []) || step.flags &&& ~~~IRREVERSIBLE ≠ 0 then
      .error (.invalid, "invalid_transaction_step".toList)
    else if step.irreversible then
      if i + 1 ≠ count ∨ found + 1 > 1 ∨ step.snapshot.isSome ∨ step.restore.isSome then
        .error (.irreversibleOrder, "irreversible_step_must_be_unique_and_last".toList)
      else .ok ⟨step.name.getD [], step.preflight, apply, none⟩
    else
      match step.snapshot, step.restore, step.snapshotFree with
      | some snapshot, some restore, true =>
        .ok ⟨step.name.getD [], step.preflight, apply, some ⟨snapshot, restore⟩⟩
      | _, _, _ => .error (.invalid, "reversible_step_requires_snapshot_restore_free".toList)

def validateLoop (count : ℕ) :
    ℕ → ℕ → List (Step σ η) → Except (ℕ × Text × Status × Text) (List (Checked σ η))
  | _, _, [] => .ok []
  | i, found, step :: steps =>
    match validateStep count found i step with
    | .error (status, error) => .error (i, step.name.getD [], status, error)
    | .ok checked =>
      (validateLoop count (i + 1) (found + step.irreversible.toNat) steps).map (checked :: ·)

/-- `txn_validate`; what fails is told with its index and its texts, if the list can be looked at. -/
def validate (steps : Option (List (Step σ η))) :
    Except (Option (ℕ × Text × Status × Text)) (List (Checked σ η)) :=
  match steps with
  | none => .error none
  | some steps =>
    if steps.length = 0 ∨ steps.length > MAX_STEPS then .error none
    else (validateLoop steps.length 0 0 steps).mapError some

/-! ### Runs -/

/-- A call of a callback of a step, and whether it has succeeded. -/
inductive Event (η : Type) where
  | preflight (i : ℕ) (ok : Bool)
  | snapshot (i : ℕ) (ok : Bool) (handle : Option η)
  | apply (i : ℕ) (ok : Bool)
  | restore (i : ℕ) (handle : η) (ok : Bool)
  | free (i : ℕ) (handle : η)

/-- The shared state, the calls so far and the record. -/
structure Run (σ η : Type) where
  state : σ
  events : List (Event η) := []
  result : Result := Result.init

/-- The outcome of the runner. -/
structure Outcome (σ η : Type) where
  status : Status
  state : σ
  events : List (Event η)
  result : Result

def Run.enter (r : Run σ η) (phase : Phase) : Run σ η := { r with result.phase := phase }

/-- A callback has been called. -/
def Run.called (r : Run σ η) (event : Event η) (state : σ) : Run σ η :=
  { r with state, events := r.events ++ [event] }

def preflightLoop : ℕ → List (Checked σ η) → Run σ η → Bool × Run σ η
  | _, [], r => (true, r)
  | i, step :: steps, r =>
    match step.preflight with
    | none => preflightLoop (i + 1) steps r
    | some preflight =>
      let answer := preflight r.state
      let r := (r.enter .preflight).called (.preflight i answer.1.ok) answer.2
      if answer.1.ok then preflightLoop (i + 1) steps r
      else
        let result := r.result.failure .preflightFailed .preflight i step.name answer.1.error
        (false, { r with result })

/-- The snapshots, with the handles that have been obtained. -/
def snapshotLoop : ℕ → List (Checked σ η) → Run σ η →
    (Option (List (Armed σ η)) × List (ℕ × η)) × Run σ η
  | _, [], r => ((some [], []), r)
  | i, step :: steps, r =>
    match step.undo with
    | none =>
      let rest := snapshotLoop (i + 1) steps r
      ((rest.1.1.map (⟨step.name, step.apply, none⟩ :: ·), rest.1.2), rest.2)
    | some undo =>
      let answer := undo.snapshot r.state
      let r := (r.enter .snapshot).called (.snapshot i answer.1.ok answer.2.1) answer.2.2
      match answer.1.ok, answer.2.1 with
      | true, some handle =>
        let rest := snapshotLoop (i + 1) steps r
        ((rest.1.1.map (⟨step.name, step.apply, some (handle, undo.restore)⟩ :: ·),
          (i, handle) :: rest.1.2), rest.2)
      | _, handle =>
        let result := r.result.failure .snapshotFailed .snapshot i step.name answer.1.error
        ((none, handle.toList.map fun handle => (i, handle)), { r with result })

/-- `txn_snapshots_free`, from the last handle to the first. -/
def snapshotsFree (handles : List (ℕ × η)) (r : Run σ η) : Run σ η :=
  { r with events := r.events ++ handles.reverse.map fun h => .free h.1 h.2 }

/-- The loop of `txn_rollback`, with the first failure so far; `steps` is in reverse order. -/
def rollbackLoop : List (ℕ × Armed σ η) → Run σ η → Option (ℕ × Text × Text) →
    Option (ℕ × Text × Text) × Run σ η
  | [], r, first => (first, r)
  | (i, step) :: steps, r, first =>
    match step.undo with
    | none => rollbackLoop steps r first
    | some (handle, restore) =>
      let answer := restore handle r.state
      let r := r.called (.restore i handle answer.1.ok) answer.2
      let r := { r with result := r.result.restoring }
      if answer.1.ok then rollbackLoop steps r first
      else
        let error := cut ERROR_MAX (orElse answer.1.error "step_restore_failed".toList)
        let result := r.result.restoreFailed first step.name error
        rollbackLoop steps { r with result } (first.or (some (i, step.name, error)))

/-- `txn_rollback`. -/
def rollback (steps : List (ℕ × Armed σ η)) (r : Run σ η) : Status × Run σ η :=
  match rollbackLoop steps (r.enter .rollback) none with
  | (none, r) => (.ok, r)
  | (some (i, name, error), r) =>
    (.rollbackFailed, { r with result := r.result.failure .rollbackFailed .rollback i name error })

/-- The applies; `done` are the steps before, the last one first. -/
def applyLoop : ℕ → List (ℕ × Armed σ η) → List (Armed σ η) → Run σ η → Status × Run σ η
  | _, _, [], r => (.ok, r)
  | i, done, step :: steps, r =>
    let r := r.enter .apply
    let r := { r with result := r.result.applying step.undo.isNone }
    let answer := step.apply r.state
    let r := r.called (.apply i answer.1.ok) answer.2
    if answer.1.ok then
      applyLoop (i + 1) ((i, step) :: done) steps { r with result := r.result.applied }
    else
      let error := cut ERROR_MAX (orElse answer.1.error "step_apply_failed".toList)
      let r := { r with result := r.result.applyFailed step.name error }
      -- an irreversible step has left nothing behind when it fails
      let attempted := if step.undo.isNone then done else (i, step) :: done
      match rollback attempted r with
      | (.ok, r) =>
        (.applyFailed, { r with result := r.result.failure .applyFailed .apply i step.name error })
      | (status, r) => (status, r)

def Run.ends (r : Run σ η) (status : Status) : Outcome σ η := ⟨status, r.state, r.events, r.result⟩

/-- `webd_admin_txn_execute`. -/
def execute (steps : Option (List (Step σ η))) (s : σ) : Outcome σ η :=
  let r : Run σ η := { state := s }
  match validate steps with
  | .error none => r.ends .invalid
  | .error (some (i, name, status, error)) =>
    { r with result := r.result.failure status .none i name error }.ends status
  | .ok checked =>
    match preflightLoop 0 checked r with
    | (false, r) => r.ends .preflightFailed
    | (true, r) =>
      match snapshotLoop 0 checked r with
      | ((none, handles), r) => (snapshotsFree handles r).ends .snapshotFailed
      | ((some armed, handles), r) =>
        match applyLoop 0 [] armed r with
        | (.ok, r) =>
          let r := snapshotsFree handles r
          { r with result := r.result.succeed }.ends .ok
        | (status, r) => (snapshotsFree handles r).ends status

end DreamingOS.AdminTxn
