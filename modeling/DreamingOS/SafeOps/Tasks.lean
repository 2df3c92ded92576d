import DreamingOS.Lib.Table
import Mathlib.Data.Int.Notation

namespace DreamingOS.SafeOps

/-!
# Safe operations — tasks and their rollback lease

The rows of `config_apply_tasks` and the two statements of `rollback_claim.h`.

* `Task` — a row, `none` standing for NULL;
* `rollbackClaim`, `rollbackFinish` — the two calls, with what SQLite answers;
* `rollbackClaim_cases`, `rollbackFinish_cases` — all a call can do.

A string that is not given is the empty one.
-/

/-! ### Rows -/

/-- A row of `config_apply_tasks`. -/
structure Task where
  id : ℤ
  state : String
  configRevision : Option ℤ := none
  appliedDigest : Option String := none
  idempotencyKey : Option String := none
  rollbackOwner : Option String := some ""
  rollbackClaimedAt : Option ℤ := some 0
  rollbackClaimRevision : Option ℤ := some 0
  finishedAt : Option ℤ := some 0
  error : Option String := some ""
  rollbackApplied : Option ℤ := some 0
  rollbackError : Option String := some ""
  rollbackReason : Option String := some ""
  deriving DecidableEq

def PENDING : String := "pending"
def ROLLING_BACK : String := "rolling_back"

/-- `SAFEOPS_ROLLBACK_LEASE_SECONDS`. -/
def ROLLBACK_LEASE_SECONDS : ℤ := 120

/-- The table; its primary key is the id. -/
abbrev Tasks := Table Task.id

/-! ### The calls -/

/-- The arguments of `safeops_rollback_claim`. -/
structure Claim where
  (taskId configRevision : ℤ)
  (appliedDigest owner : String)
  now : ℤ

/-- The rows a claim selects, beside the id: the revision and the digest are the task's own, and the
    task is pending or its lease has expired. -/
def Claim.selects (c : Claim) (t : Task) : Bool :=
  t.configRevision = some c.configRevision ∧ t.appliedDigest = some c.appliedDigest ∧
    (t.state = PENDING ∨
      (t.state = ROLLING_BACK ∧ t.rollbackClaimedAt.any (· ≤ c.now - ROLLBACK_LEASE_SECONDS)))

def Claim.set (c : Claim) (t : Task) : Task :=
  { t with
    state := ROLLING_BACK
    rollbackOwner := some c.owner
    rollbackClaimedAt := some c.now
    rollbackClaimRevision := some c.configRevision }

/-- `safeops_rollback_claim`; `sqlite` tells whether the statement is prepared and done. -/
def rollbackClaim (sqlite : Bool) (tasks : Tasks) (c : Claim) : Tasks × ℤ :=
  if c.taskId ≤ 0 ∨ c.owner = "" then (tasks, -1)
  else if ¬ sqlite then (tasks, -1)
  else
    (tasks.update (fun t => t.id = c.taskId ∧ c.selects t) c.set fun _ => rfl,
      if tasks.count (fun t => t.id = c.taskId ∧ c.selects t) = 1 then 1 else 0)

/-- The arguments of `safeops_rollback_finish`. -/
structure Finish where
  (taskId configRevision : ℤ)
  (owner state : String)
  finishedAt : ℤ
  error : String
  rollbackApplied : ℤ
  (rollbackError rollbackReason : String)

/-- The rows a finish selects, beside the id: the owner holds the lease of this revision. -/
def Finish.selects (f : Finish) (t : Task) : Bool :=
  t.state = ROLLING_BACK ∧ t.configRevision = some f.configRevision ∧
    t.rollbackClaimRevision = some f.configRevision ∧ t.rollbackOwner = some f.owner

def Finish.set (f : Finish) (t : Task) : Task :=
  { t with
    state := f.state
    finishedAt := some f.finishedAt
    error := some f.error
    rollbackApplied := some f.rollbackApplied
    rollbackError := some f.rollbackError
    rollbackReason := some f.rollbackReason }

/-- `safeops_rollback_finish`. -/
def rollbackFinish (sqlite : Bool) (tasks : Tasks) (f : Finish) : Tasks × ℤ :=
  if f.taskId ≤ 0 ∨ f.owner = "" ∨ f.state = "" then (tasks, -1)
  else if ¬ sqlite then (tasks, -1)
  else
    (tasks.update (fun t => t.id = f.taskId ∧ f.selects t) f.set fun _ => rfl,
      if tasks.count (fun t => t.id = f.taskId ∧ f.selects t) = 1 then 1 else 0)

/-! ### What a call can do -/

section
variable {tasks : Tasks} {id : ℤ} {q : Task → Bool} {set : Task → Task}

/-- An update of the row of an id, with the number of rows it has changed. -/
theorem update_cases (hset : ∀ t, (set t).id = t.id) : (∃ t, tasks.find id = some t ∧ q t = true ∧
      (if tasks.count (fun t => t.id = id ∧ q t) = 1 then (1 : ℤ) else 0) = 1 ∧
      ∀ id', (tasks.update (fun t => t.id = id ∧ q t) set hset).find id' =
        if id' = id then some (set t) else tasks.find id') ∨
    ((if tasks.count (fun t => t.id = id ∧ q t) = 1 then (1 : ℤ) else 0) ≠ 1 ∧
      ∀ id', (tasks.update (fun t => t.id = id ∧ q t) set hset).find id' = tasks.find id') := by
  have hcount := Table.count_key tasks id q
  -- rows of other ids, and rows that are not selected, keep their values
  have hkeep : ∀ id' t, tasks.find id' = some t → ¬ (id' = id ∧ q t = true) →
      (tasks.update (fun t => t.id = id ∧ q t) set hset).find id' = some t := by
    intro id' t hfind hno
    have hid := (Table.find_eq_some.mp hfind).2
    rw [Table.find_update, hfind, Option.map_some, hid, if_neg (by simpa using hno)]
  have hnone : ∀ id', tasks.find id' = none →
      (tasks.update (fun t => t.id = id ∧ q t) set hset).find id' = none := by
    intro id' hfind
    rw [Table.find_update, hfind]
    rfl
  cases hfind : tasks.find id with
  | none =>
    rw [hfind] at hcount
    have hnot : tasks.count (fun t => t.id = id ∧ q t) ≠ 1 := by
      rw [hcount]
      exact Nat.zero_ne_one
    refine .inr ⟨by rw [if_neg hnot]; decide, fun id' => ?_⟩
    cases hfind' : tasks.find id' with
    | none => exact hnone id' hfind'
    | some t =>
      apply hkeep id' t hfind'
      rintro ⟨rfl, -⟩
      rw [hfind] at hfind'
      cases hfind'
  | some t =>
    by_cases hq : q t = true
    · refine .inl ⟨t, rfl, hq, ?_, fun id' => ?_⟩
      · rw [hfind] at hcount
        exact if_pos (hcount.trans (if_pos hq))
      by_cases heq : id' = id
      · have hid := (Table.find_eq_some.mp hfind).2
        rw [if_pos heq, heq, Table.find_update, hfind, Option.map_some, hid]
        simp [hq]
      · rw [if_neg heq]
        cases hfind' : tasks.find id' with
        | none => exact hnone id' hfind'
        | some t' => exact hkeep id' t' hfind' fun h => heq h.1
    · refine .inr ⟨?_, fun id' => ?_⟩
      · rw [hfind] at hcount
        have hnot : tasks.count (fun t => t.id = id ∧ q t) ≠ 1 := by
          rw [hcount]
          simp [hq]
        rw [if_neg hnot]
        decide
      cases hfind' : tasks.find id' with
      | none => exact hnone id' hfind'
      | some t' =>
        apply hkeep id' t' hfind'
        rintro ⟨rfl, hq'⟩
        rw [hfind] at hfind'
        cases hfind'
        exact hq hq'

end

/-- **A claim** takes the task of its id, or changes nothing. -/
theorem rollbackClaim_cases (sqlite : Bool) (tasks : Tasks) (c : Claim) :
    (∃ t, tasks.find c.taskId = some t ∧ c.selects t = true ∧ (rollbackClaim sqlite tasks c).2 = 1 ∧
      ∀ id, (rollbackClaim sqlite tasks c).1.find id =
        if id = c.taskId then some (c.set t) else tasks.find id) ∨
    ((rollbackClaim sqlite tasks c).2 ≠ 1 ∧
      ∀ id, (rollbackClaim sqlite tasks c).1.find id = tasks.find id) := by
  have hrefused : (-1 : ℤ) ≠ 1 := by decide
  unfold rollbackClaim
  split
  · exact .inr ⟨hrefused, fun id => rfl⟩
  split
  · exact .inr ⟨hrefused, fun id => rfl⟩
  · exact @update_cases tasks c.taskId c.selects c.set fun _ => rfl

/-- **A finish** ends the lease on the task of its id, or changes nothing. -/
theorem rollbackFinish_cases (sqlite : Bool) (tasks : Tasks) (f : Finish) :
    (∃ t, tasks.find f.taskId = some t ∧ f.selects t = true ∧
      (rollbackFinish sqlite tasks f).2 = 1 ∧
      ∀ id, (rollbackFinish sqlite tasks f).1.find id =
        if id = f.taskId then some (f.set t) else tasks.find id) ∨
    ((rollbackFinish sqlite tasks f).2 ≠ 1 ∧
      ∀ id, (rollbackFinish sqlite tasks f).1.find id = tasks.find id) := by
  have hrefused : (-1 : ℤ) ≠ 1 := by decide
  unfold rollbackFinish
  split
  · exact .inr ⟨hrefused, fun id => rfl⟩
  split
  · exact .inr ⟨hrefused, fun id => rfl⟩
  · exact @update_cases tasks f.taskId f.selects f.set fun _ => rfl

end DreamingOS.SafeOps
