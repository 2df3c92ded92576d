import Mathlib.Algebra.Group.Nat.Defs
import Mathlib.Data.List.Sort

namespace DreamingOS.WanSla

/-!
# WAN SLA — the evaluator

`wan_sla_eval.c`: rounds of probes are kept in a window, a severity is computed from the window,
and the stable level follows it with hysteresis.

* `Arith` — the double arithmetic of the window, as a parameter: no result depends on it;
* `Profile`, `profileRead` — the settings, and the ranges they are accepted in;
* `Evaluator`, `reset`, `add` — the rounds, and what the evaluator remembers of earlier ones;
* `scan`, `severity` — the window and its raw severity;
* `settle` — the step of the hysteresis for a new sample: `worse`, `better` or `unchanged`;
* `evaluate` — one evaluation, with all it reports.
-/

/-- The operations on `double` the evaluator uses. -/
structure Arith (D : Type) where
  ofInt : ℤ → D
  (add sub mul div : D → D → D)
  abs : D → D
  le : D → D → Bool
  isFinite : D → Bool

def maxTargets : ℕ := 16

def maxRounds : ℕ := 3600

/-! ### The profile -/

/-- `struct wan_sla_threshold`. -/
structure Threshold (D : Type) where
  (lossPct latencyP95Ms jitterMs : D)

/-- `struct wan_sla_profile`. -/
structure Profile (D : Type) where
  (reliability windowS failureIntervalS recoveryIntervalS cooldownS failCount recoverCount : ℤ)
  (intervalS : ℤ)
  (degraded critical : Threshold D)
  downLossPct : D

/-- A member of the rule: it may be missing, an integer, or of another type. -/
inductive Member where
  | absent
  | int (n : ℤ)
  | other

/-- `integer`: the value and whether it is to be accepted. -/
def integer (v : Member) (fallback min max : ℤ) : Option ℤ :=
  match v with
  | .absent => some fallback
  | .int n => if n < min ∨ n > max then none else some n
  | .other => none

/-- The members of a rule that are integers, and the thresholds of `wan_sla_profile_normalize`,
    which are `none` where it rejects them. -/
structure Rule (D : Type) where
  targetCount : ℕ
  (reliability windowS failureIntervalS recoveryIntervalS cooldownS intervalS failCount : Member)
  (recoverCount : Member)
  thresholds : Option (Threshold D × Threshold D × D)

/-- `wan_sla_profile_read`. -/
def profileRead {D : Type} (rule : Rule D) : Option (Profile D) :=
  if rule.targetCount < 1 ∨ rule.targetCount > maxTargets then none
  else do
    let reliability ← integer rule.reliability ((rule.targetCount + 1) / 2) 1 rule.targetCount
    let windowS ← integer rule.windowS 60 2 maxRounds
    let failureIntervalS ← integer rule.failureIntervalS 2 1 3600
    let recoveryIntervalS ← integer rule.recoveryIntervalS 10 1 3600
    let cooldownS ← integer rule.cooldownS 60 0 86400
    let thresholds ← rule.thresholds
    let intervalS ← integer rule.intervalS 5 1 3600
    let failCount ← integer rule.failCount 3 1 100
    let recoverCount ← integer rule.recoverCount 2 1 100
    return ⟨reliability, windowS, failureIntervalS, recoveryIntervalS, cooldownS, failCount,
      recoverCount, intervalS, thresholds.1, thresholds.2.1, thresholds.2.2⟩

/-! ### The evaluator -/

/-- `struct wan_sla_round`. -/
structure Round (D : Type) where
  at' : ℤ
  (count okMask : ℕ)
  latencyMs : ℕ → D
  forwardingLossPct : D

/-- `struct wan_sla_evaluator`; the rounds of the ring, the oldest first. -/
structure Evaluator (D : Type) where
  rounds : List (Round D)
  (level candidateLevel : ℤ)
  (failureStreak successStreak : ℕ)
  recovering : Bool
  (revision stateSince lastTransitionAt lastSampleAt recoverySince cooldownUntil : ℤ)

variable {D : Type}

/-- `wan_sla_evaluator_reset`. -/
def Evaluator.reset (revision : ℤ) : Evaluator D where
  rounds := []
  level := -1
  candidateLevel := -1
  failureStreak := 0
  successStreak := 0
  recovering := false
  revision := revision
  stateSince := 0
  lastTransitionAt := 0
  lastSampleAt := 0
  recoverySince := 0
  cooldownUntil := 0

/-- `wan_sla_evaluator_add`; `none` is its `-1`, which leaves the evaluator as it was. -/
def Evaluator.add (arith : Arith D) (e : Evaluator D) (revision : ℤ) (round : Round D) :
    Option (Evaluator D) :=
  if revision ≠ e.revision ∨ round.at' ≤ 0 ∨ round.count < 1 ∨ round.count > maxTargets ∨
      round.okMask ≥ 2 ^ round.count then none
  else if !arith.isFinite round.forwardingLossPct ||
      !arith.le (arith.ofInt (-1)) round.forwardingLossPct ||
      !arith.le round.forwardingLossPct (arith.ofInt 100) then none
  else if (List.range round.count).any fun i => round.okMask.testBit i &&
      (!arith.isFinite (round.latencyMs i) || !arith.le (arith.ofInt 0) (round.latencyMs i)) then
    none
  else if e.rounds.getLast?.any fun last => round.at' ≤ last.at' then none
  else
    -- the ring keeps the last `maxRounds` rounds
    let rounds := e.rounds ++ [round]
    some { e with rounds := rounds.drop (rounds.length - maxRounds) }

/-- `successes`. -/
def successes (mask : ℕ) : ℕ := ((List.range 32).filter mask.testBit).length

/-! ### The window -/

/-- What the loop over the window adds up. -/
structure Scan (D : Type) where
  rtts : List D
  previous : ℕ → Option D
  deltaSum : D
  deltas : ℕ
  (targetTotal targetOk : ℕ → ℕ)
  (total good rounds roundOk latestOk count : ℕ)
  oldest : ℤ
  forwarding : D

def Scan.start (arith : Arith D) : Scan D where
  rtts := []
  previous := fun _ => none
  deltaSum := arith.ofInt 0
  deltas := 0
  targetTotal := fun _ => 0
  targetOk := fun _ => 0
  total := 0
  good := 0
  rounds := 0
  roundOk := 0
  latestOk := 0
  count := 0
  oldest := 0
  forwarding := arith.ofInt (-1)

/-- Target `j` of a round. -/
def scanTarget (arith : Arith D) (r : Round D) (s : Scan D) (j : ℕ) : Scan D :=
  let s := { s with targetTotal := Function.update s.targetTotal j (s.targetTotal j + 1) }
  if r.okMask.testBit j then
    let latency := r.latencyMs j
    { s with
      rtts := s.rtts ++ [latency]
      targetOk := Function.update s.targetOk j (s.targetOk j + 1)
      deltaSum := match s.previous j with
        | none => s.deltaSum
        | some previous => arith.add s.deltaSum (arith.abs (arith.sub latency previous))
      deltas := match s.previous j with
        | none => s.deltas
        | some _ => s.deltas + 1
      previous := Function.update s.previous j (some latency) }
  else s

/-- A round, if it is in the window. -/
def scanRound (arith : Arith D) (p : Profile D) (now latest : ℤ) (s : Scan D) (r : Round D) :
    Scan D :=
  if r.at' ≤ now - p.windowS ∨ r.at' > now then s
  else
    let voted := successes r.okMask
    let s := { s with
      oldest := if s.oldest = 0 then r.at' else s.oldest
      count := r.count
      rounds := s.rounds + 1
      roundOk := if voted ≥ p.reliability then s.roundOk + 1 else s.roundOk
      latestOk := voted
      total := s.total + r.count
      good := s.good + voted }
    let s := (List.range r.count).foldl (scanTarget arith r) s
    if r.at' = latest then { s with forwarding := r.forwardingLossPct } else s

def scan (arith : Arith D) (p : Profile D) (now latest : ℤ) (rounds : List (Round D)) : Scan D :=
  rounds.foldl (scanRound arith p now latest) (Scan.start arith)

/-- `100.0 * (total - good) / total`, or zero. -/
def Scan.loss (arith : Arith D) (s : Scan D) : D :=
  if s.total = 0 then arith.ofInt 0
  else arith.div (arith.mul (arith.ofInt 100) (arith.ofInt (s.total - s.good)))
    (arith.ofInt s.total)

/-- A percentile of the latencies, or zero. -/
def Scan.percentile (arith : Arith D) (s : Scan D) (k : ℕ) : D :=
  let n := s.rtts.length
  (s.rtts.insertionSort fun x y => arith.le x y = true).getD ((n * k + 99) / 100 - 1) (arith.ofInt 0)

/-- The mean of the changes of latency, or zero. -/
def Scan.jitter (arith : Arith D) (s : Scan D) : D :=
  if s.deltas = 0 then arith.ofInt 0 else arith.div s.deltaSum (arith.ofInt s.deltas)

/-- An entry of `breached_dimensions`. -/
inductive Dimension where
  | activeLossPct
  | targetQuorum
  | latencyP95Ms
  | jitterMs
  | forwardingLossPct

/-- The macro `BREACH`, on the raw severity and the breaches so far. -/
def breach (arith : Arith D) (key : Dimension) (observed degraded critical : D)
    (acc : ℕ × List Dimension) : ℕ × List Dimension :=
  if arith.le degraded observed then
    let level := if arith.le critical observed then 2 else 1
    (max acc.1 level, acc.2 ++ [key])
  else acc

/-- The raw severity of a window, and what it comes from. -/
def severity (arith : Arith D) (p : Profile D) (s : Scan D) : ℕ × List Dimension :=
  let acc : ℕ × List Dimension := (0, [])
  let acc :=
    if (s.latestOk : ℤ) < p.reliability then
      let acc := breach arith .activeLossPct (s.loss arith) p.degraded.lossPct p.critical.lossPct acc
      (if arith.le p.downLossPct (s.loss arith) then 3 else max acc.1 1, acc.2 ++ [.targetQuorum])
    else acc
  let acc :=
    if s.rtts ≠ [] then breach arith .latencyP95Ms (s.percentile arith 95) p.degraded.latencyP95Ms
      p.critical.latencyP95Ms acc
    else acc
  let acc :=
    if s.deltas ≠ 0 then breach arith .jitterMs (s.jitter arith) p.degraded.jitterMs
      p.critical.jitterMs acc
    else acc
  if arith.le (arith.ofInt 0) s.forwarding then
    breach arith .forwardingLossPct s.forwarding p.degraded.lossPct p.critical.lossPct acc
  else acc

/-! ### The hysteresis -/

/-- The longest interval of the profile. -/
def Profile.maxInterval (p : Profile D) : ℤ :=
  max (max p.intervalS p.failureIntervalS) p.recoveryIntervalS

/-- The streaks begin anew. -/
def Evaluator.restart (e : Evaluator D) : Evaluator D :=
  { e with failureStreak := 0, successStreak := 0, recovering := false, recoverySince := 0 }

/-- A sample worse than the level. -/
def worse (p : Profile D) (e : Evaluator D) (raw : ℕ) (latest : ℤ) : Evaluator D × Bool :=
  let e := { e with
    successStreak := 0
    recovering := false
    recoverySince := 0
    -- another severity than that of the streak begins it anew
    failureStreak := min 100 ((if e.candidateLevel ≠ raw then 0 else e.failureStreak) + 1)
    candidateLevel := raw }
  if e.failureStreak ≥ p.failCount then
    ({ e with level := raw, cooldownUntil := latest + p.cooldownS }, true)
  else (e, false)

/-- A recovery begins, if none is on. -/
def startRecovery (e : Evaluator D) (latest : ℤ) : Evaluator D × Bool :=
  if e.recovering then (e, false)
  else ({ e with recovering := true, recoverySince := latest }, true)

/-- A sample better than the level, or one that is healthy where there is no level yet. -/
def better (p : Profile D) (e : Evaluator D) (raw : ℕ) (latest : ℤ) : Evaluator D × Bool :=
  let e := { e with failureStreak := 0, successStreak := min 100 (e.successStreak + 1) }
  if e.level < 0 then
    if raw = 0 ∧ e.successStreak ≥ p.recoverCount then ({ e with level := 0 }, true) else (e, false)
  else
    let (e, transition) := startRecovery e latest
    if e.successStreak ≥ p.recoverCount ∧ e.successStreak ≥ 2 ∧ latest - e.recoverySince ≥ 20 ∧
        latest ≥ e.cooldownUntil then
      ({ e with
        level := e.level - 1
        recovering := false
        successStreak := 0
        recoverySince := 0
        cooldownUntil := latest + p.cooldownS }, true)
    else (e, transition)

/-- A sample of the level itself. -/
def unchanged (e : Evaluator D) (raw : ℕ) : Evaluator D × Bool :=
  ({ e.restart with candidateLevel := raw }, e.recovering)

/-- The samples before a gap do not count. -/
def afterGap (p : Profile D) (e : Evaluator D) (latest : ℤ) : Evaluator D :=
  if e.lastSampleAt ≠ 0 ∧ latest - e.lastSampleAt > p.maxInterval * 3 then
    { e.restart with candidateLevel := -1 }
  else e

/-- A new sample against the level. -/
def judge (p : Profile D) (e : Evaluator D) (raw : ℕ) (latest : ℤ) : Evaluator D × Bool :=
  if (raw : ℤ) > (if e.level < 0 then 0 else e.level) then worse p e raw latest
  else if (raw : ℤ) < e.level ∨ e.level < 0 then better p e raw latest
  else unchanged e raw

/-- A new sample, with whether it is a transition. -/
def settle (p : Profile D) (e : Evaluator D) (raw : ℕ) (latest : ℤ) : Evaluator D × Bool :=
  let (e, transition) := judge p { afterGap p e latest with lastSampleAt := latest } raw latest
  (if transition then { e with stateSince := latest, lastTransitionAt := latest } else e, transition)

/-! ### The evaluation -/

/-- `decision_suppressed_reason`. -/
inductive Suppressed where
  | no
  | insufficientSamples
  | evidenceStale
  | initialHysteresis
  | failureHysteresis
  | cooldown
  | recoveryObservation

/-- `state_name`, and the state of an evaluator that recovers. -/
inductive StateName where
  | unknown
  | healthy
  | degraded
  | critical
  | down
  | recovering

def stateName (level : ℤ) : StateName :=
  if level = 0 then .healthy
  else if level = 1 then .degraded
  else if level = 2 then .critical
  else if level = 3 then .down
  else .unknown

/-- The document `wan_sla_evaluate` returns.  `scan` has the sums of its window. -/
structure Report (D : Type) where
  (state stableState : StateName)
  (sampleFresh transition : Bool)
  requestedLevel : Option ℤ
  suppressed : Suppressed
  (stateSince lastTransitionAt cooldownUntil : ℤ)
  (successStreak failureStreak : ℕ)
  lastSampleAt : ℤ
  scan : Scan D
  breaches : List Dimension

/-- What an evaluation found before it reports. -/
structure Outcome (D : Type) where
  after : Evaluator D
  (fresh transition : Bool)
  suppressed : Suppressed
  latest : ℤ
  scan : Scan D
  breaches : List Dimension

/-- Whether the newest round is recent enough. -/
def fresh (p : Profile D) (latest now : ℤ) : Bool :=
  decide (now ≥ latest) && decide (now - latest ≤ p.maxInterval * 3)

/-- The reason a level is kept against the severity. -/
def suppression (e : Evaluator D) (raw : ℕ) (now : ℤ) : Suppressed :=
  if e.level < 0 then .initialHysteresis
  else if (raw : ℤ) > e.level then .failureHysteresis
  else if e.recovering then (if now < e.cooldownUntil then .cooldown else .recoveryObservation)
  else .no

def evaluateOutcome (arith : Arith D) (p : Profile D) (e : Evaluator D) (now : ℤ) : Outcome D :=
  match e.rounds.getLast? with
  | none => ⟨e.restart, false, false, .insufficientSamples, 0, .start arith, []⟩
  | some last =>
    if !fresh p last.at' now then
      ⟨e.restart, false, false, .evidenceStale, last.at', .start arith, []⟩
    else
      let s := scan arith p now last.at' e.rounds
      if s.rounds < 2 then
        ⟨e.restart, true, false, .insufficientSamples, last.at', s, []⟩
      else
        let (raw, breaches) := severity arith p s
        let (e, transition) :=
          if last.at' > e.lastSampleAt then settle p e raw last.at' else (e, false)
        ⟨e, true, transition, suppression e raw now, last.at', s, breaches⟩

/-- `wan_sla_evaluate`. -/
def evaluate (arith : Arith D) (p : Profile D) (e : Evaluator D) (now : ℤ) :
    Report D × Evaluator D :=
  let o := evaluateOutcome arith p e now
  (⟨if o.after.recovering then .recovering else stateName o.after.level, stateName o.after.level,
    o.fresh, o.transition, if o.after.level ≥ 0 then some o.after.level else none, o.suppressed,
    o.after.stateSince, o.after.lastTransitionAt, o.after.cooldownUntil, o.after.successStreak,
    o.after.failureStreak, o.latest, o.scan, o.breaches⟩, o.after)

end DreamingOS.WanSla
