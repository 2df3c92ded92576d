import DreamingOS.V3.Index
import Mathlib.Data.Prod.Lex

namespace DreamingOS.V3

open Outcome

/-!
# v3 chain rules — matching a payload

`jmx_v3_match_payload` and what it calls (`jmx_v3_rules.c`), every function with the work budget it
spends from.

* `completeChain` — the backtracking search for the positions of the later steps: one `ends`,
  `nextPos` and `windowEnd` slot per level, as in the source's local arrays;
* `ruleGate`, `evaluateFirst` — what an occurrence of a rule's first step leads to;
* `matchPayload` — the scan, and the reset of the result when the budget runs out.
-/

def JMX_V3_PACKET_WORK_BUDGET : ℕ := 65536

/-- `fold_byte`. -/
def foldByte (byte : UInt8) : UInt8 :=
  if 0x41 ≤ byte ∧ byte ≤ 0x5a then byte + (0x61 - 0x41) else byte

/-! ### One step at one position -/

/-- Two bytes agree, up to ASCII case when `nocase` is set. -/
def byteAgrees (nocase : Bool) (left right : UInt8) : Prop :=
  if nocase then foldByte left = foldByte right else left = right

instance (nocase : Bool) (left right : UInt8) : Decidable (byteAgrees nocase left right) :=
  inferInstanceAs (Decidable (if nocase then foldByte left = foldByte right else left = right))

/-- The loop of `exact_at` over the remaining pattern bytes and the payload at the same place. -/
def exactAtLoop (nocase : Bool) : List UInt8 → List UInt8 → ℕ → Except Errno (Bool × ℕ)
  | [], _, work => .ok (true, work)
  | right :: pattern, rest, work => do
    let work ← spend work
    match rest with
    | [] => .error .outOfBounds
    | left :: rest =>
      if byteAgrees nocase left right then exactAtLoop nocase pattern rest work
      else .ok (false, work)

/-- `exact_at`. -/
def exactAt (step : StepK) (payload : List UInt8) (start work : ℕ) : Except Errno (Bool × ℕ) :=
  if payload.length < start ∨ payload.length - start < step.payloadLen then .ok (false, work)
  else exactAtLoop (step.caseMode = JMX_V3_CASE_NOCASE) (step.payload.take step.payloadLen)
    (payload.drop start) work

/-- `add_signed_offset`. -/
def addSignedOffset (base : ℕ) (delta : ℤ) : Except Errno ℕ :=
  let value := base + delta
  if value < 0 ∨ (U32_MAX : ℤ) < value then .error .ERANGE else .ok value.toNat

/-- The start of a step's window before it is compared with the end. -/
def windowStart (step : StepK) (previousEnd : ℕ) : Except Errno ℕ :=
  let start := if hasFlag step.positionFlags JMX_V3_POS_OFFSET then u32 step.offset else 0
  if hasFlag step.positionFlags JMX_V3_POS_DISTANCE then
    match addSignedOffset previousEnd step.distance with
    | .error rc => .error rc
    | .ok value =>
      if hasFlag step.positionFlags JMX_V3_POS_OFFSET ∧ value < u32 step.offset then
        .ok (u32 step.offset)
      else .ok value
  else .ok start

/-- The end of a step's window before it is compared with the start. -/
def windowStop (step : StepK) (payloadLen previousEnd : ℕ) : Except Errno ℕ :=
  let stop :=
    if hasFlag step.positionFlags JMX_V3_POS_DEPTH ∧ u32 step.depth < payloadLen then
      u32 step.depth
    else payloadLen
  if hasFlag step.positionFlags JMX_V3_POS_WITHIN then
    match addSignedOffset previousEnd step.within with
    | .error rc => .error rc
    | .ok value => if value < stop then .ok value else .ok stop
  else .ok stop

/-- `step_window`. -/
def stepWindow (step : StepK) (payloadLen previousEnd : ℕ) : Except Errno (ℕ × ℕ) :=
  match windowStart step previousEnd with
  | .error rc => .error rc
  | .ok start =>
    match windowStop step payloadLen previousEnd with
    | .error rc => .error rc
    | .ok stop =>
      if stop < start ∨ payloadLen < start then .error .ERANGE
      else .ok (start, if payloadLen < stop then payloadLen else stop)

/-- `occurrence_valid`. -/
def occurrenceValid (step : StepK) (payload : List UInt8) (previousEnd start stop work : ℕ) :
    Except Errno (Bool × ℕ) :=
  match stepWindow step payload.length previousEnd with
  | .error _ => .ok (false, work)
  | .ok (wstart, wstop) =>
    if start < wstart ∨ wstop < stop then .ok (false, work)
    else exactAt step payload start work

/-! ### The chain -/

/-- The local variables of `complete_chain`; each array is indexed by the level. -/
structure ChainState where
  level : ℕ
  (ends nextPos windowEnd : ℕ → ℕ)

/-- Fill in the window of the current level when it is not filled in yet; `none` when the step has
    no room there. -/
def openLevel (step : StepK) (payloadLen : ℕ) (s : ChainState) : Option ChainState :=
  if s.nextPos s.level = U32_MAX then
    match stepWindow step payloadLen (s.ends (s.level - 1)) with
    | .error _ => none
    | .ok (start, stop) =>
      if stop - start < step.payloadLen then none
      else some { s with
        nextPos := Function.update s.nextPos s.level start
        windowEnd := Function.update s.windowEnd s.level stop }
  else some s

/-- The loop over the positions of a level; `n` positions up to `windowEnd` are left. -/
def seekPos (step : StepK) (payload : List UInt8) (previousEnd windowEnd : ℕ) :
    ℕ → ℕ → ℕ → Except Errno (Option ℕ × ℕ)
  | 0, _, work => .ok (none, work)
  | n + 1, pos, work =>
    if windowEnd - pos < step.payloadLen then .ok (none, work)
    else if pos + step.payloadLen < previousEnd then
      seekPos step payload previousEnd windowEnd n (pos + 1) work
    else do
      let (matched, work) ← exactAt step payload pos work
      if matched then .ok (some pos, work)
      else seekPos step payload previousEnd windowEnd n (pos + 1) work

/-- Give up the current level. -/
def ChainState.back (s : ChainState) : ChainState :=
  { s with nextPos := Function.update s.nextPos s.level U32_MAX, level := s.level - 1 }

/-- Place the current level's step, of length `len`, at `pos`. -/
def ChainState.place (s : ChainState) (pos len : ℕ) : ChainState :=
  { s with
    nextPos := Function.update s.nextPos s.level (pos + 1)
    ends := Function.update s.ends s.level (pos + len) }

/-- Turn to the next level, whose window is not filled in. -/
def ChainState.advance (s : ChainState) : ChainState :=
  { s with level := s.level + 1, nextPos := Function.update s.nextPos (s.level + 1) U32_MAX }

/-- The `while (level > 0)` loop of `complete_chain`. -/
def chainLoop (set : RuleSet) (rule : RuleK) (payload : List UInt8) :
    ℕ → ChainState → ℕ → Except Errno (Bool × ℕ)
  | 0, _, _ => .error .outOfFuel
  | fuel + 1, s, work =>
    if s.level = 0 then .ok (false, work)
    else
      match set.steps[rule.firstStep + s.level]? with
      | none => .error .outOfBounds
      | some step =>
        match openLevel step payload.length s with
        | none => chainLoop set rule payload fuel s.back work
        | some s => do
          let (found, work) ← seekPos step payload (s.ends (s.level - 1)) (s.windowEnd s.level)
            (s.windowEnd s.level + 1 - s.nextPos s.level) (s.nextPos s.level) work
          match found with
          | none => chainLoop set rule payload fuel s.back work
          | some pos =>
            if s.level + 1 = rule.stepCount then .ok (true, work)
            else chainLoop set rule payload fuel (s.place pos step.payloadLen).advance work

/-- `complete_chain`. -/
def completeChain (set : RuleSet) (rule : RuleK) (payload : List UInt8) (firstEnd work : ℕ) :
    Except Errno (Bool × ℕ) :=
  if rule.stepCount = 1 then .ok (true, work)
  else
    chainLoop set rule payload (2 * work + 2)
      { level := 1
        ends := fun _ => firstEnd
        nextPos := fun _ => U32_MAX
        windowEnd := fun _ => 0 } work

/-! ### Rules -/

/-- What a packet brings to the match. -/
structure Packet where
  payload : List UInt8
  (proto dir sport dport : ℕ)

/-- The test of one port of a rule. -/
def portMatches (port : PortK) (sport dport : ℕ) : Prop :=
  ((port.endpoint = JMX_V3_PORT_SOURCE ∨ port.endpoint = JMX_V3_PORT_EITHER) ∧
      port.minPort ≤ sport ∧ sport ≤ port.maxPort) ∨
    ((port.endpoint = JMX_V3_PORT_DESTINATION ∨ port.endpoint = JMX_V3_PORT_EITHER) ∧
      port.minPort ≤ dport ∧ dport ≤ port.maxPort)

instance (port : PortK) (sport dport : ℕ) : Decidable (portMatches port sport dport) :=
  inferInstanceAs (Decidable (_ ∨ _))

/-- The port loop of `rule_gate`. -/
def gatePorts (sport dport : ℕ) : List PortK → ℕ → Except Errno (Bool × ℕ)
  | [], work => .ok (false, work)
  | port :: ports, work => do
    let work ← spend work
    if portMatches port sport dport then .ok (true, work) else gatePorts sport dport ports work

/-- `rule_gate`. -/
def ruleGate (set : RuleSet) (rule : RuleK) (pkt : Packet) (work : ℕ) :
    Except Errno (Bool × ℕ) := do
  let work ← spend work
  if rule.proto ≠ JMX_V3_PROTO_ANY ∧ rule.proto ≠ pkt.proto then .ok (false, work)
  else if rule.dir ≠ JMX_V3_DIR_ANY ∧ rule.dir ≠ JMX_V3_DIR_BIDIRECTIONAL ∧ rule.dir ≠ pkt.dir then
    .ok (false, work)
  else if rule.portCount = 0 then .ok (true, work)
  else gatePorts pkt.sport pkt.dport (set.portsOf rule) work

/-- The best rule so far (the mutable part of `struct match_context`). -/
structure Best where
  appid : ℕ := 0
  priority : ℕ := U32_MAX
  ruleId : ℕ := U32_MAX

/-- The last part of `evaluate_first`: keep the lesser of the best rule and a matching one. -/
def Best.update (best : Best) (rule : RuleK) : Best :=
  if rule.priority < best.priority ∨
      (rule.priority = best.priority ∧ rule.signatureRuleId < best.ruleId) then
    ⟨rule.appid, rule.priority, rule.signatureRuleId⟩
  else best

/-- `evaluate_first`. -/
def evaluateFirst (set : RuleSet) (pkt : Packet) : Emit Best := fun best e work =>
  if e.stepIndex ≠ 0 then .ok (best, work)
  else
    match set.rules[e.ruleIndex]? with
    | none => .ok (best, work)
    | some rule => do
      let (gate, work) ← ruleGate set rule pkt work
      if !gate then .ok (best, work)
      else
        match set.steps[rule.firstStep]? with
        | none => .error .outOfBounds
        | some step => do
          let (valid, work) ← occurrenceValid step pkt.payload 0 e.start e.stop work
          if !valid then .ok (best, work)
          else do
            let (chain, work) ← completeChain set rule pkt.payload e.stop work
            if !chain then .ok (best, work) else .ok (best.update rule, work)

/-- What a match reports: the result, the priority and mode written through the pointers, and
    whether the counter of exhausted budgets goes up. -/
structure MatchResult where
  appid : ℕ := 0
  priority : ℕ := U32_MAX
  mode : ℕ := JMX_V3_MODE_OFF
  exhausted : Bool := false
  deriving DecidableEq

/-- `jmx_v3_match_payload` under the active set `active`. -/
def matchPayload (active : Option RuleSet) (pkt : Packet) : MatchResult :=
  if pkt.payload.isEmpty then {}
  else
    match active with
    | none => {}
    | some set =>
      if set.mode = JMX_V3_MODE_OFF then {}
      else
        match set.ac with
        | none => {}
        | some ac =>
          match acScan ac pkt.payload (evaluateFirst set pkt) {} JMX_V3_PACKET_WORK_BUDGET with
          | .error rc => { mode := set.mode, exhausted := rc = .E2BIG }
          | .ok (best, _) => { appid := best.appid, priority := best.priority, mode := set.mode }

end DreamingOS.V3
