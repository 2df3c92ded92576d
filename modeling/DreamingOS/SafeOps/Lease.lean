import DreamingOS.SafeOps.Tasks
import Mathlib.Data.List.Induction

namespace DreamingOS.SafeOps

open List

/-!
# Safe operations — the rollback lease over whole runs

Any owners call claim and finish on any tasks, in any order and at any times.

* `Step` — what one call does to one task;
* `Tracks` — a task that is rolling back is held by the last claim of the log;
* **`lease_exclusive`** — the lease over runs in which finishes publish terminal states;
* `finished_twice` — what a finish that publishes another state leads to.
-/

/-! ### Runs -/

inductive Call where
  | claim (sqlite : Bool) (c : Claim)
  | finish (sqlite : Bool) (f : Finish)

/-- One call, in its turn: the database serves one at a time. -/
def Call.exec (tasks : Tasks) : Call → Tasks × ℤ
  | .claim sqlite c => rollbackClaim sqlite tasks c
  | .finish sqlite f => rollbackFinish sqlite tasks f

def runCalls (tasks : Tasks) (calls : List Call) : Tasks :=
  calls.foldl (fun tasks call => (call.exec tasks).1) tasks

/-- A call with its result. -/
abbrev Entry := Call × ℤ

def log (tasks : Tasks) : List Call → List Entry
  | [] => []
  | call :: calls => (call, (call.exec tasks).2) :: log (call.exec tasks).1 calls

/-- The claim of an entry that has taken a task. -/
def claimed (id : ℤ) (e : Entry) : Option Claim :=
  match e.1 with
  | .claim _ c => if c.taskId = id ∧ e.2 = 1 then some c else none
  | .finish _ _ => none

/-- The finish of an entry that has ended the lease on a task. -/
def finished (id : ℤ) (e : Entry) : Option Finish :=
  match e.1 with
  | .claim _ _ => none
  | .finish _ f => if f.taskId = id ∧ e.2 = 1 then some f else none

/-- The last claim that has taken a task. -/
def lastClaim (id : ℤ) (entries : List Entry) : Option Claim :=
  entries.foldl (fun last e => (claimed id e).or last) none

/-- The task is in the state `rolling_back`. -/
def RollingBack (tasks : Tasks) (id : ℤ) : Prop :=
  ∃ t, tasks.find id = some t ∧ t.state = ROLLING_BACK

/-- What holds of a run for one task. -/
structure Exclusive (id : ℤ) (tasks : Tasks) (calls : List Call) : Prop where
  /-- At most one finish succeeds. -/
  once : ((log tasks calls).filterMap (finished id)).length ≤ 1
  /-- It is one of the owner of the last claim, and that claim named the task's own revision and
      digest. -/
  owner : ∀ before e after f, log tasks calls = before ++ e :: after → finished id e = some f →
    ∃ c t, lastClaim id before = some c ∧ c.owner = f.owner ∧ tasks.find id = some t ∧
      t.configRevision = some c.configRevision ∧ t.appliedDigest = some c.appliedDigest
  /-- A claim succeeds only when every claim in front of it has expired. -/
  kept : ∀ before e after d, log tasks calls = before ++ e :: after → claimed id e = some d →
    ∀ e' ∈ before, ∀ c, claimed id e' = some c → c.now + ROLLBACK_LEASE_SECONDS ≤ d.now
  /-- The task leaves `rolling_back` exactly through a finish that succeeds. -/
  left : ∀ before call after, calls = before ++ call :: after →
    (RollingBack (runCalls tasks before) id ∧ ¬ RollingBack (runCalls tasks (before ++ [call])) id ↔
      (finished id (call, (call.exec (runCalls tasks before)).2)).isSome)

/-- A finish publishes a state that ends the rollback. -/
def Terminal (id : ℤ) (calls : List Call) : Prop :=
  ∀ sqlite f, Call.finish sqlite f ∈ calls → f.taskId = id →
    f.state ≠ PENDING ∧ f.state ≠ ROLLING_BACK

/-! ### One call -/

/-- What a call with its result does to the row of a task. -/
inductive Step (id : ℤ) (e : Entry) (row : Option Task) : Option Task → Prop where
  | kept (hclaim : claimed id e = none) (hfinish : finished id e = none) : Step id e row row
  | claimed (sqlite : Bool) (c : Claim) (t : Task) (hcall : e.1 = .claim sqlite c)
      (hclaim : claimed id e = some c) (hfinish : finished id e = none) (hrow : row = some t)
      (hselects : c.selects t = true) : Step id e row (some (c.set t))
  | finished (sqlite : Bool) (f : Finish) (t : Task) (hcall : e.1 = .finish sqlite f)
      (hid : f.taskId = id) (hclaim : SafeOps.claimed id e = none)
      (hfinish : finished id e = some f) (hrow : row = some t) (hselects : f.selects t = true) :
      Step id e row (some (f.set t))

/-- **The step lemma.** -/
theorem exec_step (id : ℤ) (tasks : Tasks) (call : Call) :
    Step id (call, (call.exec tasks).2) (tasks.find id) ((call.exec tasks).1.find id) := by
  cases call with
  | claim sqlite c =>
    show Step id (_, (rollbackClaim sqlite tasks c).2) _ ((rollbackClaim sqlite tasks c).1.find id)
    rcases rollbackClaim_cases sqlite tasks c with ⟨t, hfind, hsel, hone, hafter⟩ | ⟨hno, hafter⟩
    · rw [hafter]
      by_cases hid : id = c.taskId
      · rw [if_pos hid]
        refine .claimed sqlite c t rfl ?_ rfl (hid ▸ hfind) hsel
        exact if_pos ⟨hid.symm, hone⟩
      · rw [if_neg hid]
        exact .kept (if_neg fun h => hid h.1.symm) rfl
    · rw [hafter]
      exact .kept (if_neg fun h => hno h.2) rfl
  | finish sqlite f =>
    show Step id (_, (rollbackFinish sqlite tasks f).2) _
      ((rollbackFinish sqlite tasks f).1.find id)
    rcases rollbackFinish_cases sqlite tasks f with ⟨t, hfind, hsel, hone, hafter⟩ | ⟨hno, hafter⟩
    · rw [hafter]
      by_cases hid : id = f.taskId
      · rw [if_pos hid]
        refine .finished sqlite f t rfl hid.symm rfl ?_ (hid ▸ hfind) hsel
        exact if_pos ⟨hid.symm, hone⟩
      · rw [if_neg hid]
        exact .kept rfl (if_neg fun h => hid h.1.symm)
    · rw [hafter]
      exact .kept rfl (if_neg fun h => hno h.2)

/-! ### Runs, call by call -/

theorem runCalls_append (tasks : Tasks) (calls more : List Call) :
    runCalls tasks (calls ++ more) = runCalls (runCalls tasks calls) more := foldl_append

theorem runCalls_concat (tasks : Tasks) (calls : List Call) (call : Call) :
    runCalls tasks (calls ++ [call]) = (call.exec (runCalls tasks calls)).1 := by
  rw [runCalls_append]
  rfl

theorem log_append (tasks : Tasks) (calls more : List Call) :
    log tasks (calls ++ more) = log tasks calls ++ log (runCalls tasks calls) more := by
  induction calls generalizing tasks with
  | nil => rfl
  | cons call calls ih =>
    rw [cons_append, log, log, ih]
    rfl

/-- An entry of a log belongs to a call of the run. -/
theorem log_split {tasks : Tasks} {calls : List Call} {before after : List Entry} {e : Entry}
    (h : log tasks calls = before ++ e :: after) :
    ∃ front call back, calls = front ++ call :: back ∧ before = log tasks front ∧
      e = (call, (call.exec (runCalls tasks front)).2) := by
  induction calls generalizing tasks before with
  | nil => cases before <;> cases h
  | cons call calls ih =>
    cases before with
    | nil =>
      cases h
      exact ⟨[], call, calls, rfl, rfl, rfl⟩
    | cons e' before =>
      obtain ⟨rfl, htail⟩ := List.cons.inj h
      obtain ⟨front, call', back, rfl, rfl, rfl⟩ := ih htail
      exact ⟨call :: front, call', back, rfl, rfl, rfl⟩

theorem lastClaim_concat (id : ℤ) (entries : List Entry) (e : Entry) :
    lastClaim id (entries ++ [e]) = (claimed id e).or (lastClaim id entries) := by
  rw [lastClaim, foldl_append]
  rfl

/-! ### The lease -/

/-- What the log says about the row of a task. -/
structure Tracks (id : ℤ) (first : Option Task) (entries : List Entry) (row : Option Task) :
    Prop where
  /-- The revision and the digest are those of the beginning. -/
  same : ∀ t, row = some t → ∃ t₀, first = some t₀ ∧ t.configRevision = t₀.configRevision ∧
    t.appliedDigest = t₀.appliedDigest
  /-- A task that is rolling back is held by the last claim, which named its revision and digest. -/
  held : ∀ t, row = some t → t.state = ROLLING_BACK → ∃ c, lastClaim id entries = some c ∧
    t.rollbackOwner = some c.owner ∧ t.rollbackClaimedAt = some c.now ∧
    t.configRevision = some c.configRevision ∧ t.appliedDigest = some c.appliedDigest
  /-- A task that was claimed is rolling back until a finish ends that. -/
  open_ : entries.filterMap (finished id) = [] → lastClaim id entries ≠ none →
    ∀ t, row = some t → t.state = ROLLING_BACK
  /-- Behind a finish no state is left from which a claim or a finish could go on. -/
  closed : entries.filterMap (finished id) ≠ [] →
    ∀ t, row = some t → t.state ≠ PENDING ∧ t.state ≠ ROLLING_BACK
  /-- No claim is newer than the last one. -/
  latest : ∀ e ∈ entries, ∀ c, claimed id e = some c →
    ∃ d, lastClaim id entries = some d ∧ c.now ≤ d.now
  once : (entries.filterMap (finished id)).length ≤ 1

section
variable {id : ℤ} {first row row' : Option Task} {entries : List Entry} {e : Entry}

theorem Claim.selects_iff (c : Claim) (t : Task) :
    c.selects t = true ↔ t.configRevision = some c.configRevision ∧
      t.appliedDigest = some c.appliedDigest ∧
      (t.state = PENDING ∨ (t.state = ROLLING_BACK ∧
        ∃ at', t.rollbackClaimedAt = some at' ∧ at' ≤ c.now - ROLLBACK_LEASE_SECONDS)) := by
  unfold Claim.selects
  rw [decide_eq_true_iff]
  cases t.rollbackClaimedAt with
  | none => simp
  | some at' => simp

theorem Finish.selects_iff (f : Finish) (t : Task) :
    f.selects t = true ↔ t.state = ROLLING_BACK ∧ t.configRevision = some f.configRevision ∧
      t.rollbackClaimRevision = some f.configRevision ∧ t.rollbackOwner = some f.owner := by
  unfold Finish.selects
  rw [decide_eq_true_iff]

/-- A claim that is about to succeed comes before every finish and after every lease. -/
theorem Tracks.claim_expired (h : Tracks id first entries row) {c : Claim} {t : Task}
    (hrow : row = some t) (hsel : c.selects t = true) :
    entries.filterMap (finished id) = [] ∧
      ∀ d, lastClaim id entries = some d → d.now + ROLLBACK_LEASE_SECONDS ≤ c.now := by
  obtain ⟨-, -, hstate⟩ := (Claim.selects_iff c t).mp hsel
  have hnone : entries.filterMap (finished id) = [] := by
    by_contra hsome
    obtain ⟨hpending, hrolling⟩ := h.closed hsome t hrow
    rcases hstate with hp | ⟨hr, -⟩
    · exact hpending hp
    · exact hrolling hr
  refine ⟨hnone, fun d hd => ?_⟩
  have hrolling := h.open_ hnone (by rw [hd]; exact Option.some_ne_none d) t hrow
  obtain ⟨d', hd', -, hat, -⟩ := h.held t hrow hrolling
  cases hd.symm.trans hd'
  rcases hstate with hp | ⟨-, at', hat', hle⟩
  · rw [hrolling] at hp
    exact absurd hp (by decide)
  · rw [hat] at hat'
    cases hat'
    omega

/-- A finish that is about to succeed is the first one, by the owner of the last claim. -/
theorem Tracks.finish_owner (h : Tracks id first entries row) {f : Finish} {t : Task}
    (hrow : row = some t) (hsel : f.selects t = true) :
    entries.filterMap (finished id) = [] ∧ t.state = ROLLING_BACK ∧
      ∃ c t₀, lastClaim id entries = some c ∧ c.owner = f.owner ∧ first = some t₀ ∧
        t₀.configRevision = some c.configRevision ∧ t₀.appliedDigest = some c.appliedDigest := by
  obtain ⟨hrolling, -, -, howner⟩ := (Finish.selects_iff f t).mp hsel
  obtain ⟨t₀, hfirst, hrev, hdigest⟩ := h.same t hrow
  obtain ⟨c, hc, howner', -, hrev', hdigest'⟩ := h.held t hrow hrolling
  refine ⟨?_, hrolling, c, t₀, hc, ?_, hfirst, hrev ▸ hrev', hdigest ▸ hdigest'⟩
  · by_contra hsome
    exact (h.closed hsome t hrow).2 hrolling
  · rw [howner] at howner'
    exact (Option.some.inj howner').symm

theorem filterMap_concat_none {α β : Type} (f : α → Option β) (l : List α) {a : α}
    (h : f a = none) : (l ++ [a]).filterMap f = l.filterMap f := by
  rw [filterMap_append, filterMap_cons_none h, filterMap_nil, append_nil]

/-- One more call. -/
theorem Tracks.step (h : Tracks id first entries row) (hstep : Step id e row row')
    (hterminal : ∀ f, finished id e = some f → f.state ≠ PENDING ∧ f.state ≠ ROLLING_BACK) :
    Tracks id first (entries ++ [e]) row' := by
  cases hstep with
  | kept hclaim hfinish =>
    have hlast : lastClaim id (entries ++ [e]) = lastClaim id entries := by
      rw [lastClaim_concat, hclaim]
      rfl
    have hfin := filterMap_concat_none (finished id) entries hfinish
    refine ⟨h.same, ?_, ?_, ?_, ?_, ?_⟩
    · rw [hlast]
      exact h.held
    · rw [hlast, hfin]
      exact h.open_
    · rw [hfin]
      exact h.closed
    · intro e' he' c hc
      rw [hlast]
      rcases mem_append.mp he' with he' | he'
      · exact h.latest e' he' c hc
      · rw [mem_singleton.mp he', hclaim] at hc
        cases hc
    · rw [hfin]
      exact h.once
  | claimed sqlite c t hcall hclaim hfinish hrow hsel =>
    have hlast : lastClaim id (entries ++ [e]) = some c := by
      rw [lastClaim_concat, hclaim]
      rfl
    have hfin := filterMap_concat_none (finished id) entries hfinish
    obtain ⟨hnone, hexpired⟩ := h.claim_expired hrow hsel
    obtain ⟨hrev, hdigest, -⟩ := (Claim.selects_iff c t).mp hsel
    refine ⟨?_, ?_, ?_, ?_, ?_, ?_⟩
    · intro t' ht'
      cases ht'
      exact h.same t hrow
    · intro t' ht' _
      cases ht'
      exact ⟨c, hlast, rfl, rfl, hrev, hdigest⟩
    · intro _ _ t' ht'
      cases ht'
      rfl
    · rw [hfin, hnone]
      intro hne
      exact absurd rfl hne
    · intro e' he' d hd
      refine ⟨c, hlast, ?_⟩
      rcases mem_append.mp he' with he' | he'
      · obtain ⟨d', hd', hle⟩ := h.latest e' he' d hd
        have hlease := hexpired d' hd'
        have hpos : (0 : ℤ) ≤ ROLLBACK_LEASE_SECONDS := by decide
        omega
      · rw [mem_singleton.mp he', hclaim] at hd
        cases hd
        exact Int.le_refl _
    · rw [hfin]
      exact h.once
  | finished sqlite f t hcall hid hclaim hfinish hrow hsel =>
    have hlast : lastClaim id (entries ++ [e]) = lastClaim id entries := by
      rw [lastClaim_concat, hclaim]
      rfl
    obtain ⟨hnone, -, -⟩ := h.finish_owner hrow hsel
    obtain ⟨hpending, hrolling⟩ := hterminal f hfinish
    have hfin : (entries ++ [e]).filterMap (finished id) = [f] := by
      rw [filterMap_append, hnone, filterMap_cons_some hfinish]
      rfl
    refine ⟨?_, ?_, ?_, ?_, ?_, ?_⟩
    · intro t' ht'
      cases ht'
      exact h.same t hrow
    · intro t' ht' hstate
      cases ht'
      exact absurd hstate hrolling
    · rw [hfin]
      intro hnil
      cases hnil
    · intro _ t' ht'
      cases ht'
      exact ⟨hpending, hrolling⟩
    · intro e' he' d hd
      rw [hlast]
      rcases mem_append.mp he' with he' | he'
      · exact h.latest e' he' d hd
      · rw [mem_singleton.mp he', hclaim] at hd
        cases hd
    · rw [hfin]
      exact Nat.le_refl 1

end

/-- **The run lemma.** -/
theorem tracks_run (id : ℤ) (tasks : Tasks) (hidle : ¬ RollingBack tasks id) (calls : List Call)
    (hterminal : Terminal id calls) :
    Tracks id (tasks.find id) (log tasks calls) ((runCalls tasks calls).find id) := by
  induction calls using List.reverseRecOn with
  | nil =>
    refine ⟨fun t ht => ⟨t, ht, rfl, rfl⟩, ?_, ?_, ?_, ?_, Nat.zero_le _⟩
    · intro t ht hstate
      exact absurd ⟨t, ht, hstate⟩ hidle
    · intro _ hne
      exact absurd rfl hne
    · intro hne
      exact absurd rfl hne
    · intro e he
      cases he
  | append_singleton calls call ih =>
    have hfront : Terminal id calls := fun sqlite f hf =>
      hterminal sqlite f (mem_append_left _ hf)
    have hlog : log tasks (calls ++ [call]) =
        log tasks calls ++ [(call, (call.exec (runCalls tasks calls)).2)] := by
      rw [log_append]
      rfl
    rw [hlog, runCalls_concat]
    apply (ih hfront).step (exec_step id (runCalls tasks calls) call)
    intro f hf
    unfold finished at hf
    split at hf
    · cases hf
    rename_i sqlite f' hcall
    split at hf
    · next hid =>
      cases hf
      have hcall' : call = .finish sqlite f := hcall
      exact hterminal sqlite f (mem_append_right _ (by simp [hcall'])) hid.1
    · cases hf

/-- **The rollback lease.** From a task that is not rolling back, in every run of claims and finishes
    whose finishes publish terminal states: at most one finish succeeds, for the owner of the last
    claim, no claim is taken over before it has expired, and the task leaves `rolling_back` exactly
    through that finish. -/
theorem lease_exclusive (id : ℤ) (tasks : Tasks) (hidle : ¬ RollingBack tasks id)
    (calls : List Call) (hterminal : Terminal id calls) : Exclusive id tasks calls := by
  have hreach : ∀ front call back, calls = front ++ call :: back →
      Tracks id (tasks.find id) (log tasks front) ((runCalls tasks front).find id) := by
    intro front call back hsplit
    apply tracks_run id tasks hidle front
    intro sqlite f hf
    exact hterminal sqlite f (hsplit ▸ mem_append_left _ hf)
  refine ⟨(tracks_run id tasks hidle calls hterminal).once, ?_, ?_, ?_⟩
  · intro before e after f hlog hf
    obtain ⟨front, call, back, hsplit, rfl, rfl⟩ := log_split hlog
    have htracks := hreach front call back hsplit
    have hstep := exec_step id (runCalls tasks front) call
    generalize (call.exec (runCalls tasks front)).1.find id = row' at hstep
    cases hstep with
    | kept _ hfinish => cases hf.symm.trans hfinish
    | claimed _ _ _ _ _ hfinish => cases hf.symm.trans hfinish
    | finished _ f' t _ _ _ hfinish hrow hsel =>
      cases hf.symm.trans hfinish
      exact (htracks.finish_owner hrow hsel).2.2
  · intro before e after d hlog hd e' he' c hc
    obtain ⟨front, call, back, hsplit, rfl, rfl⟩ := log_split hlog
    have htracks := hreach front call back hsplit
    have hstep := exec_step id (runCalls tasks front) call
    generalize (call.exec (runCalls tasks front)).1.find id = row' at hstep
    cases hstep with
    | kept hclaim _ => cases hd.symm.trans hclaim
    | finished _ _ _ _ _ hclaim => cases hd.symm.trans hclaim
    | claimed _ d' t _ hclaim _ hrow hsel =>
      cases hd.symm.trans hclaim
      obtain ⟨last, hlast, hle⟩ := htracks.latest e' he' c hc
      have hexpired := (htracks.claim_expired hrow hsel).2 last hlast
      omega
  · intro before call after hsplit
    have htracks := hreach before call after hsplit
    have hstep := exec_step id (runCalls tasks before) call
    rw [runCalls_concat]
    unfold RollingBack
    generalize (call.exec (runCalls tasks before)).1.find id = row' at hstep ⊢
    cases hstep with
    | kept _ hfinish =>
      rw [hfinish]
      simp
    | claimed _ c t _ _ hfinish hrow _ =>
      rw [hfinish]
      refine ⟨fun h => absurd ⟨c.set t, rfl, rfl⟩ h.2, fun h => by cases h⟩
    | finished sqlite f t hcall hid _ hfinish hrow hsel =>
      rw [hfinish]
      refine ⟨fun _ => rfl, fun _ => ⟨⟨t, hrow, ?_⟩, ?_⟩⟩
      · exact ((Finish.selects_iff f t).mp hsel).1
      · rintro ⟨t', ht', hstate⟩
        cases ht'
        have hmem : Call.finish sqlite f ∈ calls := by
          rw [hsplit, ← hcall]
          exact mem_append_right _ mem_cons_self
        exact (hterminal sqlite f hmem hid).2 hstate

/-! ### Runs on one task -/

/-- A task that waits for its confirmation. -/
def pendingTask : Task where
  id := 1
  state := PENDING
  configRevision := some 1
  appliedDigest := some "d"

def oneTask : Tasks where
  rows := [pendingTask]
  nodup := by decide

def claimAt (owner : String) (now : ℤ) : Call :=
  .claim true { taskId := 1, configRevision := 1, appliedDigest := "d", owner := owner, now := now }

def finishAs (owner state : String) : Call :=
  .finish true {
    taskId := 1
    configRevision := 1
    owner := owner
    state := state
    finishedAt := 0
    error := ""
    rollbackApplied := 1
    rollbackError := ""
    rollbackReason := "" }

/-- The second owner takes over an expired lease, and only its finish succeeds. -/
def takenOver : List Call :=
  [claimAt "a" 0, claimAt "b" 119, claimAt "b" 120, finishAs "a" "rolled_back",
    finishAs "b" "rolled_back", finishAs "b" "rolled_back"]

theorem lease_takenOver :
    (log oneTask takenOver).map Prod.snd = [1, 0, 1, 0, 1, 0] ∧ Exclusive 1 oneTask takenOver := by
  refine ⟨by decide +kernel, ?_⟩
  apply lease_exclusive
  · rintro ⟨t, ht, hstate⟩
    have hrow : oneTask.find 1 = some pendingTask := by decide +kernel
    cases hrow.symm.trans ht
    exact absurd hstate (by decide +kernel)
  · intro sqlite f hf _
    have hstates : ∀ call ∈ takenOver, match call with
        | .claim _ _ => True
        | .finish _ f => f.state = "rolled_back" := by
      simp [takenOver, claimAt, finishAs]
    have hstate := hstates _ hf
    rw [show f.state = "rolled_back" from hstate]
    decide +kernel

/-- A finish that publishes `rolling_back` leaves the lease as it is. -/
def republished : List Call :=
  [claimAt "a" 0, finishAs "a" ROLLING_BACK, finishAs "a" "rolled_back"]

/-- **Two finishes succeed**, as the call publishes any state it is given. -/
theorem finished_twice :
    (log oneTask republished).map Prod.snd = [1, 1, 1] ∧ ¬ Exclusive 1 oneTask republished := by
  refine ⟨by decide +kernel, fun h => ?_⟩
  have hone := h.once
  have htwo : ((log oneTask republished).filterMap (finished 1)).length = 2 := by decide +kernel
  omega

end DreamingOS.SafeOps
