import DreamingOS.ConfigJob.Journal

namespace DreamingOS.RadioJob

/-!
# Radio jobs — the journal of an access point

The table `apd_radio_job_journal` and the calls of `apd_radio_job_journal.c` that write it.

* `Assignment`, `Row`, `Entry` — a job as it is assigned, stored, and read back;
* `Sqlite` — what SQLite does with the statements of one call;
* `offerStore`, `markRunning`, `cancelRequested`, `sessionRebind`, `finishStore`, `finishAck`,
  `restartRecover`, `prune` — the calls;
* `Call`, `Call.perform` — one of them, with its arguments.

The parser of the results is a parameter: the number of items of a text that is a JSON array.
-/

open ConfigJob (isHex)

/-! ### Jobs -/

/-- `struct apd_radio_job_assignment`. -/
structure Assignment where
  (jobId attemptId : String)
  dispatchGeneration : ℤ
  (requestDigest apId sessionEpoch radioId mode : String)
  deriving DecidableEq

/-- The states of a job. -/
inductive State where
  | offered | running | cancelRequested | completed | failed | cancelled | interrupted
  deriving DecidableEq

/-- `struct apd_radio_job_finish`; `none` stands for a result that is null. -/
structure Finish where
  assignment : Assignment
  (finishId outcome errorCode : String)
  observedAt : ℤ
  resultJson : Option String
  resultComplete : ℤ

/-- A row of `apd_radio_job_journal`. -/
structure Row where
  assignment : Assignment
  state : State
  finishId : String := ""
  outcome : String := ""
  errorCode : String := ""
  observedAt : ℤ := 0
  resultJson : String := "[]"
  resultCount : ℕ := 0
  resultBytes : ℕ := 2
  resultComplete : ℤ := 0
  finishAcked : Bool := false
  finishAckedAt : ℤ := 0
  (createdAt updatedAt : ℤ)

/-- The primary key. -/
def Row.jobId (r : Row) : String := r.assignment.jobId

/-- `struct apd_radio_job_journal_entry`. -/
structure Entry where
  assignment : Assignment
  state : State
  (finishId outcome errorCode : String)
  observedAt : ℤ
  (resultCount resultBytes : ℕ)
  resultComplete : ℤ
  finishAcked : Bool
  (createdAt updatedAt : ℤ)

/-- `entry_from_statement`. -/
def Row.entry (r : Row) : Entry :=
  ⟨r.assignment, r.state, r.finishId, r.outcome, r.errorCode, r.observedAt, r.resultCount,
    r.resultBytes, r.resultComplete, r.finishAcked, r.createdAt, r.updatedAt⟩

/-- The table. -/
abbrev Journal := Table Row.jobId

/-- `enum apd_radio_job_journal_result`. -/
inductive Result where
  | error | ok | idempotent | notFound | conflict | invalid | limit

/-! ### The checks of the arguments -/

def RADIO_ID_MAX : ℕ := 63
def MODE_MAX : ℕ := 31
def ERROR_MAX : ℕ := 127
def RESULT_MAX_ITEMS : ℕ := 128
def RESULT_MAX_BYTES : ℕ := 48 * 1024
def RETENTION_SECONDS : ℤ := 86400
def RETENTION_MIN : ℕ := 128

/-- `is_lower_hex`. -/
def isLowerHex (value : String) (length : ℕ) : Bool :=
  value.toList.length = length ∧ value.toList.all isHex

/-- `uuid_v4_valid`. -/
def uuidV4Valid (value : String) : Bool :=
  value.toList.length = 36 ∧ value.toList[14]? = some '4' ∧
    (value.toList[19]?.any fun ch => ch ∈ ['8', '9', 'a', 'b']) ∧
    value.toList.zipIdx.all fun (ch, i) => if i ∈ [8, 13, 18, 23] then ch = '-' else isHex ch

/-- `safe_name`. -/
def safeName (value : String) (maximum : ℕ) : Bool :=
  value.toList.length ≠ 0 ∧ value.toList.length ≤ maximum ∧
    value.toList.all fun ch => ch.isAlphanum ∨ ch ∈ ['_', '-', '.', ':']

/-- `digest_valid`. -/
def digestValid (value : String) : Bool :=
  value.toList.take 7 = ['s', 'h', 'a', '2', '5', '6', ':'] ∧
    isLowerHex (String.ofList (value.toList.drop 7)) 64

/-- `assignment_valid`. -/
def Assignment.valid (a : Assignment) : Bool :=
  uuidV4Valid a.jobId ∧ uuidV4Valid a.attemptId ∧ a.dispatchGeneration > 0 ∧
    digestValid a.requestDigest ∧ uuidV4Valid a.apId ∧ isLowerHex a.sessionEpoch 64 ∧
    safeName a.radioId RADIO_ID_MAX ∧ safeName a.mode MODE_MAX

/-- The states of the outcomes. -/
def outcomeState (outcome : String) : Option State :=
  if outcome = "completed" then some .completed
  else if outcome = "failed" then some .failed
  else if outcome = "cancelled" then some .cancelled
  else none

section
variable (arrayLength : String → Option ℕ)

/-- `result_validate`: the result, with the number of its items and its bytes. -/
def resultValidate (resultJson : Option String) : Except Result (String × ℕ × ℕ) :=
  match resultJson with
  | none => .error .invalid
  | some text =>
    if text.utf8ByteSize > RESULT_MAX_BYTES then .error .limit
    else
      match arrayLength text with
      | none => .error .invalid
      | some count =>
        if count > RESULT_MAX_ITEMS then .error .limit else .ok (text, count, text.utf8ByteSize)

/-- `finish_valid`: the state of the outcome as well. -/
def finishValid (f : Finish) : Except Result (State × String × ℕ × ℕ) :=
  if !f.assignment.valid ∨ !uuidV4Valid f.finishId ∨ f.observedAt ≤ 0 ∨
      (f.resultComplete ≠ 0 ∧ f.resultComplete ≠ 1) then .error .invalid
  else
    match outcomeState f.outcome with
    | none => .error .invalid
    | some state =>
      if f.errorCode.utf8ByteSize > ERROR_MAX ∨
          (f.errorCode ≠ "" ∧ !safeName f.errorCode ERROR_MAX) then .error .invalid
      else (resultValidate arrayLength f.resultJson).map (state, ·)

end

/-! ### Transactions -/

/-- Which statements of a call SQLite carries out: `BEGIN`, the first `SELECT`, that of a stored
    finish, the statement that writes, the second `SELECT`, the `DELETE` behind it, and `COMMIT`.
    A transaction that does not come to its `COMMIT` is rolled back. -/
structure Sqlite where
  begins : Bool := true
  loads : Bool := true
  compares : Bool := true
  writes : Bool := true
  reloads : Bool := true
  prunes : Bool := true
  commits : Bool := true

/-- What a call returns, the table behind it, the entry it fills in, and the rows it counts. -/
structure Reply where
  result : Result
  journal : Journal
  out : Option Entry := none
  changed : ℕ := 0

/-- The `COMMIT` of a transaction that began with `j`. -/
def commit (db : Sqlite) (j : Journal) (reply : Reply) : Reply :=
  if db.commits then reply else { reply with result := .error, journal := j }

/-- What an update finds in the row; `stored` stands for a finish, which is the same one or not. -/
inductive Check where
  | conflict | idempotent | ready
  | stored (same : Bool)

/-- The transaction of the updates: the row of the job is loaded and compared with the assignment;
    `check` looks at the row, and `set` gives it its new values.  The `UPDATE` names the job, and
    columns that have just been compared.  `behind` is what is left to do before the `COMMIT`. -/
def guardedUpdate (db : Sqlite) (j : Journal) (a : Assignment) (check : Row → Check)
    (set : Row → Row) (hset : ∀ r, (set r).jobId = r.jobId)
    (behind : Journal → Option Journal) : Reply :=
  if !db.begins then ⟨.error, j, none, 0⟩
  else if !db.loads then commit db j ⟨.error, j, none, 0⟩
  else
    match j.find a.jobId with
    | none => commit db j ⟨.notFound, j, none, 0⟩
    | some existing =>
      if a ≠ existing.assignment then commit db j ⟨.conflict, j, none, 0⟩
      else
        match check existing with
        | .conflict => commit db j ⟨.conflict, j, none, 0⟩
        | .idempotent => commit db j ⟨.idempotent, j, some existing.entry, 0⟩
        | .stored same =>
          if !db.compares then ⟨.error, j, none, 0⟩
          else commit db j ⟨if same then .idempotent else .conflict, j, some existing.entry, 0⟩
        | .ready =>
          let written := j.update (fun r => r.jobId = a.jobId) set hset
          if !db.writes ∨ !db.reloads then ⟨.error, j, none, 0⟩
          else
            match behind written with
            | none => ⟨.error, j, some (set existing).entry, 0⟩
            | some final => commit db j ⟨.ok, final, some (set existing).entry, 0⟩

/-! ### The calls -/

/-- The row an offer inserts. -/
def offeredRow (a : Assignment) (now : ℤ) : Row where
  assignment := a
  state := .offered
  createdAt := now
  updatedAt := now

/-- The `INSERT`: both the job and the attempt are unique. -/
def insertRow (j : Journal) (r : Row) : Option Journal :=
  if h : r.jobId ∉ j.rows.map Row.jobId ∧
      r.assignment.attemptId ∉ j.rows.map fun r => r.assignment.attemptId then
    some (j.insert r h.1)
  else none

/-- `apd_radio_job_offer_store`. -/
def offerStore (db : Sqlite) (j : Journal) (a : Assignment) (now : ℤ) : Reply :=
  if !a.valid ∨ now ≤ 0 then ⟨.invalid, j, none, 0⟩
  else if !db.begins ∨ !db.loads then ⟨.error, j, none, 0⟩
  else
    match j.find a.jobId with
    | some existing =>
      commit db j ⟨if a = existing.assignment then .idempotent else .conflict, j,
        some existing.entry, 0⟩
    | none =>
      if !db.writes then ⟨.notFound, j, none, 0⟩
      else
        match insertRow j (offeredRow a now) with
        | none => ⟨.conflict, j, none, 0⟩
        | some written =>
          if !db.reloads then ⟨.error, j, none, 0⟩
          else commit db j ⟨.ok, written, some (offeredRow a now).entry, 0⟩

/-- What a transition finds in the row. -/
def checkState (sources : List State) (target : State) (r : Row) : Check :=
  if r.state = target then .idempotent else if r.state ∉ sources then .conflict else .ready

def setState (target : State) (now : ℤ) (r : Row) : Row :=
  { r with state := target, updatedAt := now }

theorem setState_jobId (target : State) (now : ℤ) (r : Row) : (setState target now r).jobId = r.jobId :=
  rfl

/-- `assignment_transition`. -/
def assignmentTransition (db : Sqlite) (j : Journal) (a : Assignment) (sources : List State)
    (target : State) (now : ℤ) : Reply :=
  if !a.valid ∨ now ≤ 0 then ⟨.invalid, j, none, 0⟩
  else
    guardedUpdate db j a (checkState sources target) (setState target now) (setState_jobId target now)
      some

/-- `apd_radio_job_mark_running`. -/
def markRunning (db : Sqlite) (j : Journal) (a : Assignment) (now : ℤ) : Reply :=
  assignmentTransition db j a [.offered] .running now

/-- `apd_radio_job_cancel_requested`. -/
def cancelRequested (db : Sqlite) (j : Journal) (a : Assignment) (now : ℤ) : Reply :=
  assignmentTransition db j a [.offered, .running] .cancelRequested now

/-- What a new session finds in the row. -/
def checkEpoch (epoch : String) (r : Row) : Check :=
  if r.finishAcked then .conflict
  else if r.assignment.sessionEpoch = epoch then .idempotent
  else .ready

def setEpoch (epoch : String) (now : ℤ) (r : Row) : Row :=
  { r with assignment := { r.assignment with sessionEpoch := epoch }, updatedAt := now }

theorem setEpoch_jobId (epoch : String) (now : ℤ) (r : Row) : (setEpoch epoch now r).jobId = r.jobId :=
  rfl

/-- `apd_radio_job_session_rebind`. -/
def sessionRebind (db : Sqlite) (j : Journal) (a : Assignment) (newSessionEpoch : String) (now : ℤ) :
    Reply :=
  if !a.valid ∨ !isLowerHex newSessionEpoch 64 ∨ now ≤ 0 then ⟨.invalid, j, none, 0⟩
  else
    guardedUpdate db j a (checkEpoch newSessionEpoch) (setEpoch newSessionEpoch now)
      (setEpoch_jobId newSessionEpoch now) some

/-- `stored_finish_equal`. -/
def storedFinishEqual (r : Row) (f : Finish) (text : String) (count bytes : ℕ) : Bool :=
  r.finishId = f.finishId ∧ r.outcome = f.outcome ∧ r.errorCode = f.errorCode ∧
    r.observedAt = f.observedAt ∧ r.resultComplete = f.resultComplete ∧ r.resultJson = text ∧
    r.resultCount = count ∧ r.resultBytes = bytes

/-- What a finish finds in the row. -/
def checkFinish (f : Finish) (text : String) (count bytes : ℕ) (r : Row) : Check :=
  if r.finishId ≠ "" then .stored (storedFinishEqual r f text count bytes)
  else if r.state ∉ [.running, .cancelRequested, .interrupted] ∧
      ¬ (r.state = .offered ∧ f.outcome = "cancelled") then .conflict
  else if r.state = .interrupted ∧ f.outcome ≠ "failed" then .conflict
  else .ready

/-- The new values of a finish. -/
def setFinish (f : Finish) (state : State) (text : String) (count bytes : ℕ) (now : ℤ) (r : Row) :
    Row :=
  { r with
    state := state
    finishId := f.finishId
    outcome := f.outcome
    errorCode := f.errorCode
    observedAt := f.observedAt
    resultJson := text
    resultCount := count
    resultBytes := bytes
    resultComplete := f.resultComplete
    finishAcked := false
    finishAckedAt := 0
    updatedAt := now }

theorem setFinish_jobId (f : Finish) (state : State) (text : String) (count bytes : ℕ) (now : ℤ)
    (r : Row) : (setFinish f state text count bytes now r).jobId = r.jobId := rfl

/-- `apd_radio_job_finish_store`. -/
def finishStore (arrayLength : String → Option ℕ) (db : Sqlite) (j : Journal) (f : Finish)
    (now : ℤ) : Reply :=
  match finishValid arrayLength f with
  | .error result => ⟨result, j, none, 0⟩
  | .ok (state, text, count, bytes) =>
    if now ≤ 0 then ⟨.invalid, j, none, 0⟩
    else
      guardedUpdate db j f.assignment (checkFinish f text count bytes)
        (setFinish f state text count bytes now) (setFinish_jobId f state text count bytes now) some

/-- The states behind a finish. -/
def State.terminal (s : State) : Bool := s ∈ [.completed, .failed, .cancelled, .interrupted]

/-- A row that the access point does not have to report any more. -/
def Row.reported (r : Row) : Bool := r.finishAcked ∧ r.state.terminal

/-- How many rows of the access point have been reported behind a row. -/
def newer (j : Journal) (r : Row) : ℕ :=
  j.count fun r' => r'.assignment.apId = r.assignment.apId ∧ r'.reported ∧
    (r'.updatedAt > r.updatedAt ∨ (r'.updatedAt = r.updatedAt ∧ r'.jobId > r.jobId))

/-- The condition of the `DELETE`. -/
def expired (j : Journal) (now : ℤ) (r : Row) : Bool :=
  r.reported ∧ r.updatedAt < now - RETENTION_SECONDS ∧ newer j r ≥ RETENTION_MIN

/-- `journal_prune_locked`, with the number of rows that are deleted; its condition looks at the
    rows as they are in front of the statement. -/
def pruneLocked (db : Sqlite) (j : Journal) (now : ℤ) : Option (Journal × ℕ) :=
  if now ≤ RETENTION_SECONDS then some (j, 0)
  else if !db.prunes then none
  else some (j.delete (expired j now), j.count (expired j now))

/-- `apd_radio_job_journal_prune`. -/
def prune (db : Sqlite) (j : Journal) (now : ℤ) : Reply :=
  if now ≤ 0 ∨ !db.begins then ⟨.error, j, none, 0⟩
  else
    match pruneLocked db j now with
    | none => ⟨.error, j, none, 0⟩
    | some (pruned, changed) => commit db j ⟨.ok, pruned, none, changed⟩

/-- What an acknowledgement finds in the row. -/
def checkAck (finishId : String) (r : Row) : Check :=
  if r.finishId ≠ finishId then .conflict else if r.finishAcked then .idempotent else .ready

def setAck (now : ℤ) (r : Row) : Row :=
  { r with finishAcked := true, finishAckedAt := now, updatedAt := now }

theorem setAck_jobId (now : ℤ) (r : Row) : (setAck now r).jobId = r.jobId := rfl

/-- `apd_radio_job_finish_ack`. -/
def finishAck (db : Sqlite) (j : Journal) (a : Assignment) (finishId : String) (now : ℤ) : Reply :=
  if !a.valid ∨ !uuidV4Valid finishId ∨ now ≤ 0 then ⟨.invalid, j, none, 0⟩
  else
    guardedUpdate db j a (checkAck finishId) (setAck now) (setAck_jobId now) fun written =>
      (pruneLocked db written now).map Prod.fst

/-- The digit that ends the finish of an interrupted job: the `CASE` of the `UPDATE`. -/
def interruptedDigit (ch : Char) : Option Char :=
  ["08", "19", "2a", "3b", "4c", "5d", "6e", "7f", "80", "91", "a2", "b3", "c4", "d5", "e6",
    "f7"].findSome? fun pair =>
      if pair.toList[0]? = some ch then pair.toList[1]? else none

/-- The finish of an interrupted job, made from the text of the job; `none` stands for `NULL`. -/
def interruptedFinishId (jobId : String) : Option String := do
  let last ← jobId.toList[35]?
  let digit ← interruptedDigit last
  some (String.ofList (jobId.toList.take 35 ++ [digit]))

/-- The jobs that a restart interrupts. -/
def Row.executing (r : Row) : Bool := r.state ∈ [.running, .cancelRequested]

/-- The new values of an interrupted job. -/
def setInterrupted (now : ℤ) (r : Row) : Row :=
  { r with
    state := .interrupted
    outcome := "failed"
    errorCode := "apd_restarted_during_execution"
    observedAt := now
    resultJson := "[]"
    resultCount := 0
    resultBytes := 2
    resultComplete := 0
    finishId := (interruptedFinishId r.jobId).getD ""
    finishAcked := false
    finishAckedAt := 0
    updatedAt := now }

theorem setInterrupted_jobId (now : ℤ) (r : Row) : (setInterrupted now r).jobId = r.jobId := rfl

/-- `apd_radio_job_restart_recover`; a finish that is null violates a constraint. -/
def restartRecover (db : Sqlite) (j : Journal) (now : ℤ) : Reply :=
  if now ≤ 0 then ⟨.invalid, j, none, 0⟩
  else if !db.begins ∨ !db.writes then ⟨.error, j, none, 0⟩
  else if j.rows.any fun r => r.executing ∧ (interruptedFinishId r.jobId).isNone then
    ⟨.error, j, none, 0⟩
  else
    commit db j ⟨.ok, j.update Row.executing (setInterrupted now) (setInterrupted_jobId now),
      none, j.count Row.executing⟩

/-- A call with its arguments. -/
inductive Call where
  | offer (a : Assignment) (now : ℤ)
  | markRunning (a : Assignment) (now : ℤ)
  | cancelRequested (a : Assignment) (now : ℤ)
  | rebind (a : Assignment) (newSessionEpoch : String) (now : ℤ)
  | finish (f : Finish) (now : ℤ)
  | ack (a : Assignment) (finishId : String) (now : ℤ)
  | restart (now : ℤ)
  | prune (now : ℤ)

def Call.perform (arrayLength : String → Option ℕ) (db : Sqlite) (j : Journal) : Call → Reply
  | .offer a now => offerStore db j a now
  | .markRunning a now => RadioJob.markRunning db j a now
  | .cancelRequested a now => RadioJob.cancelRequested db j a now
  | .rebind a newSessionEpoch now => sessionRebind db j a newSessionEpoch now
  | .finish f now => finishStore arrayLength db j f now
  | .ack a finishId now => finishAck db j a finishId now
  | .restart now => restartRecover db j now
  | .prune now => RadioJob.prune db j now

end DreamingOS.RadioJob
