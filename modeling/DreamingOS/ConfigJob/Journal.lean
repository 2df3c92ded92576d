import DreamingOS.Lib.Table
import Mathlib.Data.Int.Notation

namespace DreamingOS.ConfigJob

/-!
# Configuration jobs — the journal of an access point

The table `apd_config_job_journal` and the calls of `apd_config_job_journal.c` that write it.

* `Assignment`, `Row`, `Entry` — a job as it is assigned, stored, and read back;
* `Sqlite` — what SQLite does with the statements of one call;
* `guardedUpdate` — the transaction that the updates share;
* `offerStore`, `markStaged`, `markApplying`, `markApplied`, `finishStore`, `finishAck`,
  `sessionRebind`, `prune` — the calls;
* `Call`, `Call.perform` — one of them, with its arguments.

A pointer that is null stands for the empty text, which every call treats alike.
-/

/-! ### Jobs -/

/-- `struct apd_config_job_assignment`. -/
structure Assignment where
  (jobId attemptId : String)
  dispatchGeneration : ℤ
  (requestDigest candidateDigest apId sessionEpoch operation rollbackOfJobId : String)
  deriving DecidableEq

/-- The states of a job. -/
inductive State where
  | offered | staged | applying | applied | completed | failed | rolledBack
  deriving DecidableEq

/-- `struct apd_config_job_finish`. -/
structure Finish where
  assignment : Assignment
  (finishId outcome errorCode : String)
  observedAt : ℤ
  readbackJson : String

/-- A row of `apd_config_job_journal`. -/
structure Row where
  assignment : Assignment
  state : State
  candidateJson : String
  previousJson : String := ""
  readbackJson : String := ""
  finishId : String := ""
  outcome : String := ""
  errorCode : String := ""
  observedAt : ℤ := 0
  finishAcked : Bool := false
  finishAckedAt : ℤ := 0
  (createdAt updatedAt : ℤ)
  deriving DecidableEq

/-- The primary key. -/
def Row.jobId (r : Row) : String := r.assignment.jobId

/-- `struct apd_config_job_journal_entry`. -/
structure Entry where
  assignment : Assignment
  state : State
  (finishId outcome errorCode : String)
  observedAt : ℤ
  finishAcked : Bool
  (createdAt updatedAt : ℤ)

/-- `config_entry_from_statement`. -/
def Row.entry (r : Row) : Entry :=
  ⟨r.assignment, r.state, r.finishId, r.outcome, r.errorCode, r.observedAt, r.finishAcked,
    r.createdAt, r.updatedAt⟩

/-- The table. -/
abbrev Journal := Table Row.jobId

/-- `enum apd_config_job_journal_result`. -/
inductive Result where
  | error | ok | idempotent | notFound | conflict | invalid
  deriving DecidableEq

/-! ### The checks of the arguments -/

def CANDIDATE_MAX_BYTES : ℕ := 16 * 1024
def PREVIOUS_MAX_BYTES : ℕ := 16 * 1024
def READBACK_MAX_BYTES : ℕ := 16 * 1024
def RETENTION_SECONDS : ℤ := 86400
def RETENTION_MIN : ℕ := 64

/-- A lower-case hexadecimal digit. -/
def isHex (ch : Char) : Bool := ('0' ≤ ch ∧ ch ≤ '9') ∨ ('a' ≤ ch ∧ ch ≤ 'f')

/-- `config_uuid_valid`. -/
def uuidValid (value : String) : Bool :=
  value.toList.length = 36 ∧ value.toList.zipIdx.all fun (ch, i) =>
    if i ∈ [8, 13, 18, 23] then ch = '-' else isHex ch

/-- `config_epoch_valid`. -/
def epochValid (value : String) : Bool := value.toList.length = 64 ∧ value.toList.all isHex

/-- `config_digest_valid`. -/
def digestValid (value : String) : Bool :=
  value.toList.length = 71 ∧ value.toList.take 7 = ['s', 'h', 'a', '2', '5', '6', ':'] ∧
    (value.toList.drop 7).all isHex

/-- `config_assignment_operation`. -/
def Assignment.operationOrApply (a : Assignment) : String :=
  if a.operation = "" then "apply" else a.operation

/-- `config_assignment_valid`. -/
def Assignment.valid (a : Assignment) : Bool :=
  uuidValid a.jobId ∧ uuidValid a.attemptId ∧ a.dispatchGeneration > 0 ∧
    digestValid a.requestDigest ∧ digestValid a.candidateDigest ∧ uuidValid a.apId ∧
    epochValid a.sessionEpoch ∧
    (a.operationOrApply = "apply" ∨ (a.operationOrApply = "rollback" ∧ uuidValid a.rollbackOfJobId))

/-- `config_assignment_matches`; the session epoch is not compared. -/
def assignmentMatches (existing : Row) (a : Assignment) : Bool :=
  existing.assignment.attemptId = a.attemptId ∧
    existing.assignment.dispatchGeneration = a.dispatchGeneration ∧
    existing.assignment.requestDigest = a.requestDigest ∧
    existing.assignment.candidateDigest = a.candidateDigest ∧
    existing.assignment.apId = a.apId ∧
    existing.assignment.operationOrApply = a.operationOrApply ∧
    existing.assignment.rollbackOfJobId = a.rollbackOfJobId

/-! ### Transactions -/

/-- Which statements of a call SQLite carries out: `BEGIN`, the first `SELECT`, the statement that
    writes, the second `SELECT`, `COMMIT`.  A transaction that does not come to its `COMMIT` is
    rolled back. -/
structure Sqlite where
  begins : Bool := true
  loads : Bool := true
  writes : Bool := true
  reloads : Bool := true
  commits : Bool := true

/-- What a call returns, the table behind it, and the entry it fills in. -/
structure Reply where
  result : Result
  journal : Journal
  out : Option Entry := none

/-- The end of a transaction: the row is read back, and the transaction committed. -/
def finishTx (db : Sqlite) (j written : Journal) (jobId : String) : Reply :=
  match written.find jobId with
  | none => ⟨.error, j, none⟩
  | some row =>
    if !db.reloads then ⟨.error, j, none⟩
    else if !db.commits then ⟨.error, j, some row.entry⟩
    else ⟨.ok, written, some row.entry⟩

/-- What an update finds in the row. -/
inductive Check where
  | conflict | idempotent | ready

/-- The transaction of the updates: the row of the job is loaded and compared with the assignment;
    `check` looks at the row, and `set` gives it its new values. -/
def guardedUpdate (db : Sqlite) (j : Journal) (a : Assignment) (check : Row → Check)
    (set : Row → Row) (hset : ∀ r, (set r).jobId = r.jobId) : Reply :=
  if !db.begins then ⟨.error, j, none⟩
  else if !db.loads then ⟨.error, j, none⟩
  else
    match j.find a.jobId with
    | none => ⟨.notFound, j, none⟩
    | some existing =>
      if !assignmentMatches existing a then ⟨.conflict, j, none⟩
      else
        match check existing with
        | .conflict => ⟨.conflict, j, none⟩
        | .idempotent => ⟨.idempotent, j, some existing.entry⟩
        | .ready =>
          if !db.writes then ⟨.error, j, none⟩
          else finishTx db j (j.update (fun r => r.jobId = a.jobId) set hset) a.jobId

/-! ### The calls -/

/-- The row an offer inserts. -/
def offeredRow (a : Assignment) (candidateJson : String) (now : ℤ) : Row where
  assignment := { a with operation := a.operationOrApply }
  state := .offered
  candidateJson := candidateJson
  createdAt := now
  updatedAt := now

/-- The `INSERT`: both the job and the attempt are unique. -/
def insertRow (j : Journal) (r : Row) : Option Journal :=
  if h : r.jobId ∉ j.rows.map Row.jobId ∧
      r.assignment.attemptId ∉ j.rows.map fun r => r.assignment.attemptId then
    some (j.insert r h.1)
  else none

/-- `apd_config_job_offer_store`. -/
def offerStore (db : Sqlite) (j : Journal) (a : Assignment) (candidateJson : String) (now : ℤ) :
    Reply :=
  if !a.valid ∨ candidateJson = "" ∨ candidateJson.utf8ByteSize > CANDIDATE_MAX_BYTES ∨ now ≤ 0 then
    ⟨.invalid, j, none⟩
  else if !db.begins then ⟨.error, j, none⟩
  else if !db.loads then ⟨.error, j, none⟩
  else
    match j.find a.jobId with
    | some existing =>
      if !assignmentMatches existing a then ⟨.conflict, j, none⟩
      else ⟨.idempotent, j, some existing.entry⟩
    | none =>
      if !db.writes then ⟨.error, j, none⟩
      else
        match insertRow j (offeredRow a candidateJson now) with
        | none => ⟨.error, j, none⟩
        | some written => finishTx db j written a.jobId

/-- What a transition finds in the row. -/
def checkState (source target : State) (r : Row) : Check :=
  if r.state = target then .idempotent else if r.state ≠ source then .conflict else .ready

/-- The new values of a transition; the previous configuration stays where none is given. -/
def setState (target : State) (previousJson : Option String) (now : ℤ) (r : Row) : Row :=
  { r with
    state := target
    updatedAt := now
    previousJson := previousJson.getD r.previousJson }

/-- `config_transition`. -/
def transition (db : Sqlite) (j : Journal) (a : Assignment) (source target : State)
    (previousJson : Option String) (now : ℤ) : Reply :=
  if !a.valid ∨ now ≤ 0 then ⟨.invalid, j, none⟩
  else if previousJson.any fun p => p = "" ∨ p.utf8ByteSize > PREVIOUS_MAX_BYTES then
    ⟨.invalid, j, none⟩
  else guardedUpdate db j a (checkState source target) (setState target previousJson now) fun _ => rfl

/-- `apd_config_job_mark_staged`. -/
def markStaged (db : Sqlite) (j : Journal) (a : Assignment) (now : ℤ) : Reply :=
  transition db j a .offered .staged none now

/-- `apd_config_job_mark_applying`. -/
def markApplying (db : Sqlite) (j : Journal) (a : Assignment) (previousJson : String) (now : ℤ) :
    Reply :=
  if previousJson = "" then ⟨.invalid, j, none⟩
  else transition db j a .staged .applying (some previousJson) now

/-- `apd_config_job_mark_applied`. -/
def markApplied (db : Sqlite) (j : Journal) (a : Assignment) (now : ℤ) : Reply :=
  transition db j a .applying .applied none now

/-- The terminal state of an outcome. -/
def terminalOf (outcome : String) : Option State :=
  if outcome = "applied" then some .completed
  else if outcome = "failed" then some .failed
  else if outcome = "rolled_back" then some .rolledBack
  else none

/-- What a finish finds in the row. -/
def checkFinish (f : Finish) (r : Row) : Check :=
  if r.finishId = "" then .ready
  else if r.finishId = f.finishId ∧ r.outcome = f.outcome then .idempotent
  else .conflict

/-- The new values of a finish. -/
def setFinish (f : Finish) (terminal : State) (now : ℤ) (r : Row) : Row :=
  { r with
    state := terminal
    finishId := f.finishId
    outcome := f.outcome
    errorCode := f.errorCode
    observedAt := f.observedAt
    readbackJson := f.readbackJson
    updatedAt := now }

/-- `apd_config_job_finish_store`. -/
def finishStore (db : Sqlite) (j : Journal) (f : Finish) (now : ℤ) : Reply :=
  if !f.assignment.valid ∨ !uuidValid f.finishId ∨ f.observedAt ≤ 0 ∨ now ≤ 0 then
    ⟨.invalid, j, none⟩
  else
    match terminalOf f.outcome with
    | none => ⟨.invalid, j, none⟩
    | some terminal =>
      if f.readbackJson.utf8ByteSize > READBACK_MAX_BYTES then ⟨.invalid, j, none⟩
      else guardedUpdate db j f.assignment (checkFinish f) (setFinish f terminal now) fun _ => rfl

/-- What an acknowledgement finds in the row. -/
def checkAck (finishId : String) (r : Row) : Check :=
  if r.finishId = "" ∨ r.finishId ≠ finishId then .conflict
  else if r.finishAcked then .idempotent
  else .ready

/-- The new values of an acknowledgement. -/
def setAck (now : ℤ) (r : Row) : Row :=
  { r with finishAcked := true, finishAckedAt := now, updatedAt := now }

/-- `apd_config_job_finish_ack`. -/
def finishAck (db : Sqlite) (j : Journal) (a : Assignment) (finishId : String) (now : ℤ) : Reply :=
  if !a.valid ∨ !uuidValid finishId ∨ now ≤ 0 then ⟨.invalid, j, none⟩
  else guardedUpdate db j a (checkAck finishId) (setAck now) fun _ => rfl

/-- What a new session finds in the row. -/
def checkEpoch (epoch : String) (r : Row) : Check :=
  if r.assignment.sessionEpoch = epoch then .idempotent else .ready

/-- The new values of a new session. -/
def setEpoch (epoch : String) (now : ℤ) (r : Row) : Row :=
  { r with assignment := { r.assignment with sessionEpoch := epoch }, updatedAt := now }

/-- `apd_config_job_session_rebind`. -/
def sessionRebind (db : Sqlite) (j : Journal) (a : Assignment) (newSessionEpoch : String) (now : ℤ) :
    Reply :=
  if !a.valid ∨ !epochValid newSessionEpoch ∨ now ≤ 0 then ⟨.invalid, j, none⟩
  else guardedUpdate db j a (checkEpoch newSessionEpoch) (setEpoch newSessionEpoch now) fun _ => rfl

/-- The rows that stay whatever their age: the last ones that were updated. -/
def recent (j : Journal) : List String :=
  ((j.rows.mergeSort fun a b =>
    b.updatedAt < a.updatedAt ∨ (a.updatedAt = b.updatedAt ∧ a.jobId ≤ b.jobId)).take
      RETENTION_MIN).map Row.jobId

/-- `apd_config_job_journal_prune`; there is no transaction around the one statement. -/
def prune (db : Sqlite) (j : Journal) (now : ℤ) : Reply :=
  if now ≤ 0 then ⟨.invalid, j, none⟩
  else if !db.writes then ⟨.error, j, none⟩
  else
    ⟨.ok, j.delete fun r =>
      r.finishAcked ∧ r.updatedAt < now - RETENTION_SECONDS ∧ r.jobId ∉ recent j, none⟩

/-- A call with its arguments. -/
inductive Call where
  | offer (a : Assignment) (candidateJson : String) (now : ℤ)
  | markStaged (a : Assignment) (now : ℤ)
  | markApplying (a : Assignment) (previousJson : String) (now : ℤ)
  | markApplied (a : Assignment) (now : ℤ)
  | finish (f : Finish) (now : ℤ)
  | ack (a : Assignment) (finishId : String) (now : ℤ)
  | rebind (a : Assignment) (newSessionEpoch : String) (now : ℤ)
  | prune (now : ℤ)

def Call.perform (db : Sqlite) (j : Journal) : Call → Reply
  | .offer a candidateJson now => offerStore db j a candidateJson now
  | .markStaged a now => ConfigJob.markStaged db j a now
  | .markApplying a previousJson now => ConfigJob.markApplying db j a previousJson now
  | .markApplied a now => ConfigJob.markApplied db j a now
  | .finish f now => finishStore db j f now
  | .ack a finishId now => finishAck db j a finishId now
  | .rebind a newSessionEpoch now => sessionRebind db j a newSessionEpoch now
  | .prune now => ConfigJob.prune db j now

end DreamingOS.ConfigJob
