import DreamingOS.V3.Wire

namespace DreamingOS.V3

open Bytes

/-!
# v3 chain rules — the daemon's push

`jmx_nl_push_chain_rules` of `jmx_nl_push.c`: one transaction of requests over a netlink channel that
may lose a request, or lose or delay a reply, while other senders talk to the kernel as well.

* `Exchange`, `World` — what the channel and the others do around one request, and what has happened
  so far;
* `v3DecodeStatus`, `firstAck` — the replies the daemon reads until it accepts one;
* `v3PreflightRuleset`, `v3SendBatches` — the checks and the batches of a rule store;
* `jmxNlPushChainRules` — the whole push, with its reconciliation and its ABORT;
* `ChainRuleSet.content`, `ChainRuleSet.pushed` — what a store holds, and what is pushed of it.
-/

/-- `JMX_V3_BATCH_SIZE`. -/
def JMX_V3_BATCH_SIZE : ℕ := 128

/-! ### The channel -/

/-- Not a message of this port. -/
def Event.Foreign (portid : ℕ) : Event → Prop
  | .message _ m => m.portid ≠ portid
  | .tick _ => True

instance (portid : ℕ) (e : Event) : Decidable (e.Foreign portid) := by
  cases e <;> unfold Event.Foreign <;> infer_instance

/-- What happens to one request: whether it can be allocated, what the others do before it arrives,
    whether it is delivered, what the others do until the daemon stops waiting, and which replies
    in the mailbox the daemon reads, in this order. -/
structure Exchange (portid : ℕ) where
  alloc : Bool := true
  before : List { e : Event // e.Foreign portid } := []
  delivered : Option Env
  after : List { e : Event // e.Foreign portid } := []
  reads : List ℕ

/-- What has happened so far: the events at the kernel, the counter `g_v3_next_seq`, the number of
    requests and the sequence numbers they used, and the replies to the daemon's port that may
    still be read. -/
structure World where
  history : List Event
  seq : ℕ
  requests : ℕ := 0
  used : List ℕ := []
  mailbox : List StatusReply := []

/-- `v3_next_seq_locked`. -/
def nextSeq (seq : ℕ) : ℕ := if (seq + 1) % 4294967296 = 0 then 1 else (seq + 1) % 4294967296

/-- The replies to a port that a sequence of events brings. -/
def repliesTo (portid : ℕ) : KState → List Event → List StatusReply
  | _, [] => []
  | st, e :: es =>
    ((step st e).2.filter fun r => r.portid = portid).toList ++ repliesTo portid (step st e).1 es

/-! ### Replies -/

/-- `jmx_v3_kernel_status_t`. -/
structure KernelStatus where
  (engineCapabilities activeGeneration activeRules activeSteps activePorts activeMode : ℕ)
  activeCatalogDigest : List UInt8
  (stagingGeneration stagingState reason detail : ℕ)

/-- `enum v3_ack_result`, with the status that was decoded. -/
inductive Ack where
  | ok (status : KernelStatus)
  | nack (status : KernelStatus)
  | unknown

/-- The checks of `v3_decode_status` on the header of a status message. -/
def statusHeaderBad (header : NlHdr) (len generation : ℕ) : Prop :=
  len ≠ sizeofHdr + sizeofStatus ∨ header.action ≠ JMX_NL_ACT_RULESET_STATUS_V3 ∨
    header.abiVersion ≠ JMX_RULE_ABI_V3 ∨ header.headerSize ≠ sizeofHdr ∨
    header.recordSize ≠ sizeofStatus ∨ header.count ≠ 1 ∨ header.payloadBytes ≠ sizeofStatus ∨
    header.flags ≠ 0 ∨ header.generation ≠ generation

instance (header : NlHdr) (len generation : ℕ) : Decidable (statusHeaderBad header len generation) :=
  inferInstanceAs (Decidable (_ ∨ _))

/-- `v3_decode_status`, behind the netlink framing: a message `inner` with the sequence number
    `nlSeq`. -/
def v3DecodeStatus (nlSeq : ℕ) (inner : List UInt8) (seq requestAction generation : ℕ) : Ack :=
  let wire := inner.drop sizeofHdr
  if nlSeq ≠ seq then .unknown
  else if statusHeaderBad (NlHdr.ofBytes inner) inner.length generation then .unknown
  else if (payloadCrc32 wire).toNat ≠ (NlHdr.ofBytes inner).crc32 ∨
      fieldLE wire 0 4 ≠ requestAction then .unknown
  else
    let status : KernelStatus := {
      engineCapabilities := fieldLE wire 16 4
      activeGeneration := fieldLE wire 20 4
      activeRules := fieldLE wire 24 4
      activeSteps := fieldLE wire 28 4
      activePorts := fieldLE wire 32 4
      activeMode := fieldLE wire 36 4
      activeCatalogDigest := fieldBytes wire 40 32
      stagingGeneration := fieldLE wire 72 4
      stagingState := fieldLE wire 76 4
      reason := fieldLE wire 8 4
      detail := fieldLE wire 12 4 }
    if fieldLE wire 4 4 = JMX_V3_STATUS_OK then .ok status else .nack status

/-- The loop of `v3_wait_status_locked`: it reads replies until one is accepted. -/
def firstAck (mailbox : List StatusReply) (seq requestAction generation : ℕ) : List ℕ → Ack
  | [] => .unknown
  | i :: reads =>
    match mailbox[i]? with
    | none => firstAck mailbox seq requestAction generation reads
    | some r =>
      match v3DecodeStatus r.seq r.toBytes seq requestAction generation with
      | .ok status => .ok status
      | .nack status => .nack status
      | .unknown => firstAck mailbox seq requestAction generation reads

/-- `v3_status_matches`. -/
def v3StatusMatches (status : KernelStatus) (generation rules steps ports mode : ℕ)
    (catalogDigest : List UInt8) : Prop :=
  status.activeGeneration = generation ∧ status.activeRules = rules ∧
    status.activeSteps = steps ∧ status.activePorts = ports ∧ status.activeMode = mode ∧
    status.activeCatalogDigest = catalogDigest

instance (status : KernelStatus) (generation rules steps ports mode : ℕ)
    (catalogDigest : List UInt8) :
    Decidable (v3StatusMatches status generation rules steps ports mode catalogDigest) :=
  inferInstanceAs (Decidable (_ ∧ _))

/-! ### Requests -/

/-- The events around a request that is the message `request` with the sequence number `seq`. -/
def Exchange.events {portid : ℕ} (x : Exchange portid) (request : List UInt8) (seq : ℕ) :
    List Event :=
  x.before.map (fun e => e.1) ++
    (x.delivered.map fun env => Event.message env ⟨request, portid, seq⟩).toList ++
    x.after.map (fun e => e.1)

section Channel

variable {portid : ℕ} (channel : ℕ → Exchange portid)

/-- `v3_send_request_locked`. -/
def v3SendRequest (action generation flags recordSize count : ℕ) (payload : List UInt8)
    (w : World) : Ack × World :=
  let x := channel w.requests
  if U32_MAX < sizeofHdr + payload.length ∨ x.alloc = false then
    (.unknown, { w with requests := w.requests + 1 })
  else
    let seq := nextSeq w.seq
    let events := x.events (requestBytes action generation flags recordSize count payload) seq
    let mailbox := w.mailbox ++ repliesTo portid (run rulesInit w.history) events
    (firstAck mailbox seq action generation x.reads,
      { history := w.history ++ events
        seq := seq
        requests := w.requests + 1
        used := w.used ++ [seq]
        mailbox := mailbox })

/-- A request without a payload. -/
def v3SendControl (action generation : ℕ) (w : World) : Ack × World :=
  v3SendRequest channel action generation 0 0 0 [] w

/-- `v3_reconcile_status_locked`. -/
def v3ReconcileStatus (generation rules steps ports mode : ℕ) (catalogDigest : List UInt8)
    (w : World) : Bool × World :=
  match v3SendControl channel JMX_NL_ACT_RULESET_STATUS_V3 generation w with
  | (.ok status, w) =>
    (decide (v3StatusMatches status generation rules steps ports mode catalogDigest), w)
  | (_, w) => (false, w)

/-! ### Batches -/

/-- What the three batch loops differ in. -/
structure PushKind (σ ρ : Type) where
  (action recordSize : ℕ)
  toWire : σ → Option ρ
  toBytes : ρ → List UInt8
  request : List ρ → Request

def rulePush : PushKind ChainRule NlRule where
  action := JMX_NL_ACT_RULE_V3_BATCH
  recordSize := sizeofRule
  toWire := v3RuleToWire
  toBytes := NlRule.toBytes
  request := Request.rules

def stepPush : PushKind ChainStep NlStep where
  action := JMX_NL_ACT_STEP_V3_BATCH
  recordSize := sizeofStep
  toWire := v3StepToWire
  toBytes := NlStep.toBytes
  request := Request.steps

def portPush : PushKind ChainPort NlPort where
  action := JMX_NL_ACT_PORT_V3_BATCH
  recordSize := sizeofPort
  toWire := v3PortToWire
  toBytes := NlPort.toBytes
  request := Request.ports

/-- One batch; it counts only when it is acknowledged. -/
def v3SendBatch {σ ρ : Type} (k : PushKind σ ρ) (generation : ℕ) (batch : List ρ) (w : World) :
    Bool × World :=
  match v3SendRequest channel k.action generation 0 k.recordSize batch.length
      (batch.flatMap k.toBytes) w with
  | (.ok _, w) => (true, w)
  | (_, w) => (false, w)

/-- `v3_send_rule_batches_locked`, `v3_send_step_batches_locked` and `v3_send_port_batches_locked`:
    records are gathered into `batch`, which is sent when it is full and at the end. -/
def v3SendBatches {σ ρ : Type} (k : PushKind σ ρ) (generation : ℕ) :
    List σ → List ρ → World → Bool × World
  | [], batch, w => if batch.isEmpty then (true, w) else v3SendBatch channel k generation batch w
  | src :: srcs, batch, w =>
    match k.toWire src with
    | none => (false, w)
    | some wire =>
      let batch := batch ++ [wire]
      if batch.length = JMX_V3_BATCH_SIZE then
        match v3SendBatch channel k generation batch w with
        | (true, w) => v3SendBatches k generation srcs [] w
        | (false, w) => (false, w)
      else v3SendBatches k generation srcs batch w

/-! ### The rule store -/

/-- The rules that are not skipped. -/
def ChainRuleSet.activeRules (rs : ChainRuleSet) : List ChainRule :=
  rs.rules.filter fun rule => rule.active ≠ 0

/-- The steps of a rule. -/
def ChainRuleSet.stepsOf (rs : ChainRuleSet) (rule : ChainRule) : List ChainStep :=
  (rs.steps.drop rule.firstStep.toNat).take rule.stepCount.toNat

/-- The ports of a rule. -/
def ChainRuleSet.portsOf (rs : ChainRuleSet) (rule : ChainRule) : List ChainPort :=
  (rs.ports.drop rule.firstPort.toNat).take rule.portCount.toNat

/-- The steps of the active rules, in order. -/
def ChainRuleSet.activeSteps (rs : ChainRuleSet) : List ChainStep :=
  rs.activeRules.flatMap rs.stepsOf

/-- The ports of the active rules, in order. -/
def ChainRuleSet.activePorts (rs : ChainRuleSet) : List ChainPort :=
  rs.activeRules.flatMap rs.portsOf

/-- The counts and the capabilities `v3_preflight_ruleset` collects. -/
structure Preflight where
  rules : ℕ := 0
  steps : ℕ := 0
  ports : ℕ := 0
  caps : UInt32 := 0

/-- The checks of `v3_preflight_ruleset` on one active rule. -/
def preflightBad (rs : ChainRuleSet) (rule : ChainRule) : Prop :=
  JMX_V3_MAX_STEPS_PER_RULE < rule.stepCount.toNat ∨
    JMX_V3_MAX_PORTS_PER_RULE < rule.portCount.toNat ∨
    rs.steps.length < rule.firstStep.toNat ∨
    rs.steps.length < rule.firstStep.toNat + rule.stepCount.toNat ∨
    rs.ports.length < rule.firstPort.toNat ∨
    rs.ports.length < rule.firstPort.toNat + rule.portCount.toNat ∨
    (∃ step ∈ rs.stepsOf rule, step.signatureRuleId ≠ rule.signatureRuleId ∨
      JMX_V3_PAYLOAD_MAX < step.payloadLen.toNat) ∨
    ∃ port ∈ rs.portsOf rule, port.signatureRuleId ≠ rule.signatureRuleId

instance (rs : ChainRuleSet) (rule : ChainRule) : Decidable (preflightBad rs rule) :=
  inferInstanceAs (Decidable (_ ∨ _))

/-- The loop of `v3_preflight_ruleset`. -/
def preflightLoop (rs : ChainRuleSet) : List ChainRule → Preflight → Option Preflight
  | [], c => some c
  | rule :: rules, c =>
    if rule.active = 0 then preflightLoop rs rules c
    else if preflightBad rs rule then none
    else
      let c : Preflight := {
        rules := c.rules + 1
        steps := c.steps + rule.stepCount.toNat
        ports := c.ports + rule.portCount.toNat
        caps := c.caps ||| rule.requiredCaps }
      if U32_MAX < c.rules ∨ U32_MAX < c.steps ∨ U32_MAX < c.ports then none
      else preflightLoop rs rules c

/-- `v3_preflight_ruleset`. -/
def v3PreflightRuleset (rs : ChainRuleSet) : Option Preflight :=
  match preflightLoop rs rs.rules {} with
  | none => none
  | some c => if c.rules ≠ 0 ∧ bytesZero rs.catalogDigest.toList then none else some c

/-- The digest of the explicit empty set. -/
def emptyDigest : List UInt8 :=
  [0x95, 0xe4, 0x80, 0x9a, 0x4a, 0xb2, 0xd9, 0x1c, 0xc2, 0x37, 0x57, 0xae, 0xb0, 0x10, 0x9a, 0xac,
    0x65, 0xe7, 0x19, 0x24, 0x96, 0xda, 0xb5, 0xb3, 0x46, 0x6d, 0x5e, 0x8c, 0x93, 0x22, 0x64, 0xdc]

/-! ### The push -/

/-- The exits `abort` and `abort_preserve`. -/
def v3Abort (generation : ℕ) (w : World) : Bool × World :=
  (false, (v3SendControl channel JMX_NL_ACT_RULESET_ABORT_V3 generation w).2)

/-- The three batch loops, which an empty set skips. -/
def v3SendRecords (rs : ChainRuleSet) (generation rules : ℕ) (w : World) : Bool × World :=
  if rules = 0 then (true, w)
  else
    match v3SendBatches channel rulePush generation rs.activeRules [] w with
    | (false, w) => (false, w)
    | (true, w) =>
      match v3SendBatches channel stepPush generation rs.activeSteps [] w with
      | (false, w) => (false, w)
      | (true, w) => v3SendBatches channel portPush generation rs.activePorts [] w

/-- The COMMIT and what follows it. -/
def v3FinishPush (generation mode : ℕ) (begin : NlBegin) (w : World) : Bool × World :=
  let reconcile (w : World) : Bool × World :=
    match v3ReconcileStatus channel generation begin.expectedRules begin.expectedSteps
        begin.expectedPorts mode begin.catalogDigest w with
    | (true, w) => (true, w)
    | (false, w) => v3Abort channel generation w
  match v3SendControl channel JMX_NL_ACT_RULESET_COMMIT_V3 generation w with
  | (.nack _, w) => v3Abort channel generation w
  | (.unknown, w) => reconcile w
  | (.ok status, w) =>
    if v3StatusMatches status generation begin.expectedRules begin.expectedSteps
        begin.expectedPorts mode begin.catalogDigest then (true, w)
    else reconcile w

/-- The counts and the mode that are pushed: none and OFF for the mode OFF or without an active
    rule. -/
def pushedCounts (c : Preflight) (mode : ℕ) : Preflight × ℕ :=
  if mode = JMX_V3_MODE_OFF ∨ c.rules = 0 then ({}, JMX_V3_MODE_OFF) else (c, mode)

/-- The BEGIN record of a push. -/
def pushedBegin (rs : ChainRuleSet) (c : Preflight) : NlBegin where
  expectedRules := c.rules
  expectedSteps := c.steps
  expectedPorts := c.ports
  requiredCapabilities := c.caps.toNat
  catalogDigest := if c.rules ≠ 0 then rs.catalogDigest.toList else emptyDigest

/-- `jmx_nl_push_chain_rules`: whether it returns 0. -/
def jmxNlPushChainRules (rs : ChainRuleSet) (generation : UInt32) (mode : UInt8) (w : World) :
    Bool × World :=
  if generation = 0 ∨ JMX_V3_MODE_ACTIVE < mode.toNat then (false, w)
  else
    match v3PreflightRuleset rs with
    | none => (false, w)
    | some c =>
      let (c, mode) := pushedCounts c mode.toNat
      match v3SendRequest channel JMX_NL_ACT_RULESET_BEGIN_V3 generation.toNat mode sizeofBegin 1
          (pushedBegin rs c).toBytes w with
      | (.ok _, w) =>
        match v3SendRecords channel rs generation.toNat c.rules w with
        | (true, w) => v3FinishPush channel generation.toNat mode (pushedBegin rs c) w
        | (false, w) => v3Abort channel generation.toNat w
      | (_, w) => v3Abort channel generation.toNat w

end Channel

/-! ### Contents -/

/-- What a rule set says: its mode, its digest and its records. -/
structure Content where
  mode : ℕ
  catalogDigest : List UInt8
  rules : List RuleK
  steps : List StepK
  ports : List PortK
  deriving DecidableEq

/-- The content of a set of the kernel, without what indexing writes. -/
def RuleSet.content (set : RuleSet) : Content where
  mode := set.mode
  catalogDigest := set.catalogDigest
  rules := set.rules.map RuleK.unindexed
  steps := set.steps
  ports := set.ports

/-- The content of the active part of a rule store. -/
def ChainRuleSet.content (rs : ChainRuleSet) (mode : UInt8) : Content where
  mode := mode.toNat
  catalogDigest := rs.catalogDigest.toList
  rules := rs.activeRules.map ChainRule.kernel
  steps := rs.activeSteps.map ChainStep.kernel
  ports := rs.activePorts.map ChainPort.kernel

/-- The content that is pushed: the explicit empty set for the mode OFF or without an active rule. -/
def ChainRuleSet.pushed (rs : ChainRuleSet) (mode : UInt8) : Content :=
  if mode.toNat = JMX_V3_MODE_OFF ∨ rs.activeRules = [] then
    ⟨JMX_V3_MODE_OFF, emptyDigest, [], [], []⟩
  else rs.content mode

end DreamingOS.V3
