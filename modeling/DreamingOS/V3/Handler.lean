import DreamingOS.V3.Rules

namespace DreamingOS.V3

open Bytes

/-!
# v3 chain rules — the netlink handler

`jmx_v3_nl_handle` of `jmx_v3_nl_handler.c`, from the bytes of a message to its status reply.

* `parse` — the checks of the header and the payload, in the order of the source; what passes them
  is a `Request`;
* `markBatch` — a rejected batch marks the transaction of its sender;
* `statusReply` — `send_status`, with `StatusReply.toBytes` its wire form;
* `handle` — the three in a row, as one call under `v3_nl_lock`; ticks of the expiry work may fall
  between them;
* `Event`, `step`, `run` — messages and ticks, one after the other.
-/

/-! ### Parsing -/

/-- A message that passed all checks. -/
inductive Request where
  | capability
  | status
  | commit
  | abort
  | begin (b : NlBegin) (flags : UInt32)
  | rules (wires : List NlRule)
  | steps (wires : List NlStep)
  | ports (wires : List NlPort)

/-- A batch of records. -/
def Request.IsBatch : Request → Prop
  | .rules _ | .steps _ | .ports _ => True
  | _ => False

/-- What the handler knows of a message: the action, the generation (zero when the header is
    incomplete), and the request or the reason it is malformed. -/
structure Parsed where
  (action generation : ℕ)
  request : Except ℕ Request

/-- `action_is_v3`. -/
def actionIsV3 (action : ℕ) : Prop :=
  JMX_NL_ACT_RULESET_BEGIN_V3 ≤ action ∧ action ≤ JMX_NL_ACT_CAPABILITY_V3

instance (action : ℕ) : Decidable (actionIsV3 action) := inferInstanceAs (Decidable (_ ∧ _))

/-- `action_is_batch`. -/
def actionIsBatch (action : ℕ) : Prop :=
  action = JMX_NL_ACT_RULE_V3_BATCH ∨ action = JMX_NL_ACT_STEP_V3_BATCH ∨
    action = JMX_NL_ACT_PORT_V3_BATCH

instance (action : ℕ) : Decidable (actionIsBatch action) := inferInstanceAs (Decidable (_ ∨ _))

/-- `expected_record_size`. -/
def expectedRecordSize (action : ℕ) : ℕ :=
  if action = JMX_NL_ACT_RULESET_BEGIN_V3 then sizeofBegin
  else if action = JMX_NL_ACT_RULE_V3_BATCH then sizeofRule
  else if action = JMX_NL_ACT_STEP_V3_BATCH then sizeofStep
  else if action = JMX_NL_ACT_PORT_V3_BATCH then sizeofPort
  else 0

/-- The checks of a message without records. -/
def parseControl (h : NlHdr) : Except ℕ Request :=
  if h.recordSize ≠ 0 ∨ h.count ≠ 0 ∨ h.payloadBytes ≠ 0 ∨ h.flags ≠ 0 ∨
      (h.action = JMX_NL_ACT_CAPABILITY_V3 ∧ h.generation ≠ 0) ∨
      ((h.action = JMX_NL_ACT_RULESET_COMMIT_V3 ∨ h.action = JMX_NL_ACT_RULESET_ABORT_V3) ∧
        h.generation = 0) then
    .error JMX_V3_REASON_BAD_SIZE
  else if h.action = JMX_NL_ACT_CAPABILITY_V3 then .ok .capability
  else if h.action = JMX_NL_ACT_RULESET_STATUS_V3 then .ok .status
  else if h.action = JMX_NL_ACT_RULESET_COMMIT_V3 then .ok .commit
  else .ok .abort

/-- The checks of a message with records, and its records. -/
def parseRecords (h : NlHdr) (payload : List UInt8) : Except ℕ Request :=
  if expectedRecordSize h.action = 0 ∨ h.recordSize ≠ expectedRecordSize h.action ∨ h.count = 0 ∨
      U32_MAX < h.count * h.recordSize ∨ h.count * h.recordSize ≠ h.payloadBytes ∨
      h.generation = 0 then
    .error JMX_V3_REASON_BAD_SIZE
  else if h.action = JMX_NL_ACT_RULESET_BEGIN_V3 then
    if h.count ≠ 1 then .error JMX_V3_REASON_BAD_SIZE
    else .ok (.begin (NlBegin.ofBytes payload) (UInt32.ofNat h.flags))
  else if h.flags ≠ 0 then .error JMX_V3_REASON_BAD_HEADER
  else if h.action = JMX_NL_ACT_RULE_V3_BATCH then
    .ok (.rules (records NlRule.ofBytes sizeofRule h.count payload))
  else if h.action = JMX_NL_ACT_STEP_V3_BATCH then
    .ok (.steps (records NlStep.ofBytes sizeofStep h.count payload))
  else if h.action = JMX_NL_ACT_PORT_V3_BATCH then
    .ok (.ports (records NlPort.ofBytes sizeofPort h.count payload))
  else .error JMX_V3_REASON_UNSUPPORTED_ACTION

/-- The checks behind a complete header. -/
def parseBody (h : NlHdr) (len : ℕ) (payload : List UInt8) : Except ℕ Request :=
  if h.abiVersion ≠ JMX_RULE_ABI_V3 then .error JMX_V3_REASON_BAD_ABI
  else if h.headerSize ≠ sizeofHdr then .error JMX_V3_REASON_BAD_HEADER
  else if U32_MAX < sizeofHdr + h.payloadBytes ∨ sizeofHdr + h.payloadBytes ≠ len then
    .error JMX_V3_REASON_BAD_SIZE
  else if (payloadCrc32 payload).toNat ≠ h.crc32 then .error JMX_V3_REASON_BAD_CRC
  else if h.action = JMX_NL_ACT_CAPABILITY_V3 ∨ h.action = JMX_NL_ACT_RULESET_STATUS_V3 ∨
      h.action = JMX_NL_ACT_RULESET_COMMIT_V3 ∨ h.action = JMX_NL_ACT_RULESET_ABORT_V3 then
    parseControl h
  else parseRecords h payload

/-- The message as the handler reads it; `none` when it is not a v3 message. -/
def parse (data : List UInt8) : Option Parsed :=
  if data.length < 4 then none
  else if ¬ actionIsV3 (fieldLE data 0 4) then none
  else if data.length < sizeofHdr then
    some ⟨fieldLE data 0 4, 0, .error JMX_V3_REASON_BAD_HEADER⟩
  else
    some ⟨fieldLE data 0 4, (NlHdr.ofBytes data).generation,
      parseBody (NlHdr.ofBytes data) data.length (data.drop sizeofHdr)⟩

variable {r : Request} {h : NlHdr}

/-- What a message without records asks for. -/
theorem parseControl_eq_ok (hp : parseControl h = .ok r) :
    (r = .capability ∧ h.action = JMX_NL_ACT_CAPABILITY_V3) ∨
      (r = .status ∧ h.action = JMX_NL_ACT_RULESET_STATUS_V3) ∨
      (r = .commit ∧ h.action = JMX_NL_ACT_RULESET_COMMIT_V3) ∨
      (r = .abort ∧ h.action ≠ JMX_NL_ACT_RULESET_COMMIT_V3) := by
  unfold parseControl at hp
  split at hp
  · cases hp
  split at hp
  · next hact =>
    cases hp
    exact .inl ⟨rfl, hact⟩
  split at hp
  · next hact =>
    cases hp
    exact .inr (.inl ⟨rfl, hact⟩)
  split at hp
  · next hact =>
    cases hp
    exact .inr (.inr (.inl ⟨rfl, hact⟩))
  · next hact =>
    cases hp
    exact .inr (.inr (.inr ⟨rfl, hact⟩))

/-- What a message with records asks for, and the sizes that were checked. -/
theorem parseRecords_eq_ok {payload : List UInt8} (hp : parseRecords h payload = .ok r) :
    h.generation ≠ 0 ∧ h.count * expectedRecordSize h.action = h.payloadBytes ∧
      ((h.action = JMX_NL_ACT_RULESET_BEGIN_V3 ∧
          r = .begin (NlBegin.ofBytes payload) (UInt32.ofNat h.flags)) ∨
        (h.action = JMX_NL_ACT_RULE_V3_BATCH ∧
          r = .rules (records NlRule.ofBytes sizeofRule h.count payload)) ∨
        (h.action = JMX_NL_ACT_STEP_V3_BATCH ∧
          r = .steps (records NlStep.ofBytes sizeofStep h.count payload)) ∨
        (h.action = JMX_NL_ACT_PORT_V3_BATCH ∧
          r = .ports (records NlPort.ofBytes sizeofPort h.count payload))) := by
  unfold parseRecords at hp
  split at hp
  · cases hp
  next hsize =>
  simp only [not_or, not_not, ne_eq] at hsize
  obtain ⟨-, hrecord, -, -, hbytes, hgen⟩ := hsize
  refine ⟨hgen, hrecord ▸ hbytes, ?_⟩
  split at hp
  · next hact =>
    split at hp
    · cases hp
    · cases hp
      exact .inl ⟨hact, rfl⟩
  split at hp
  · cases hp
  split at hp
  · next hact =>
    cases hp
    exact .inr (.inl ⟨hact, rfl⟩)
  split at hp
  · next hact =>
    cases hp
    exact .inr (.inr (.inl ⟨hact, rfl⟩))
  split at hp
  · next hact =>
    cases hp
    exact .inr (.inr (.inr ⟨hact, rfl⟩))
  · cases hp

variable {data : List UInt8} {p : Parsed}

/-- A well-formed message has a complete header, and a payload of the length it announces. -/
theorem parse_eq_ok (hp : parse data = some p) (hreq : p.request = .ok r) :
    p.action = (NlHdr.ofBytes data).action ∧ p.generation = (NlHdr.ofBytes data).generation ∧
      data.length = sizeofHdr + (NlHdr.ofBytes data).payloadBytes ∧
      (¬ actionIsBatch p.action ∧ parseControl (NlHdr.ofBytes data) = .ok r ∨
        parseRecords (NlHdr.ofBytes data) (data.drop sizeofHdr) = .ok r) := by
  unfold parse at hp
  split at hp
  · cases hp
  split at hp
  · cases hp
  split at hp
  · cases hp
    cases hreq
  cases hp
  simp only at hreq
  unfold parseBody at hreq
  split at hreq
  · cases hreq
  split at hreq
  · cases hreq
  split at hreq
  · cases hreq
  next hsize =>
  split at hreq
  · cases hreq
  simp only [not_or, not_not, ne_eq] at hsize
  refine ⟨rfl, rfl, hsize.2.symm, ?_⟩
  split at hreq
  · next hact =>
    refine .inl ⟨?_, hreq⟩
    show ¬ actionIsBatch (NlHdr.ofBytes data).action
    rcases hact with h | h | h | h <;> rw [h] <;> decide
  · exact .inr hreq

/-- A batch message that is well formed is a batch. -/
theorem parse_batch (hp : parse data = some p)
    (hbatch : actionIsBatch p.action) (hreq : p.request = .ok r) : r.IsBatch := by
  obtain ⟨hact, _, _, ⟨hno, _⟩ | hrec⟩ := parse_eq_ok hp hreq
  · exact absurd hbatch hno
  · rw [hact] at hbatch
    rcases (parseRecords_eq_ok hrec).2.2 with ⟨h, _⟩ | ⟨_, rfl⟩ | ⟨_, rfl⟩ | ⟨_, rfl⟩
    · rw [h] at hbatch
      exact absurd hbatch (by decide)
    · trivial
    · trivial
    · trivial

/-- A COMMIT message that is well formed is a COMMIT. -/
theorem parse_commit (hp : parse data = some p)
    (hcommit : p.action = JMX_NL_ACT_RULESET_COMMIT_V3) (hreq : p.request = .ok r) :
    r = .commit := by
  obtain ⟨hact, _, _, ⟨_, hctl⟩ | hrec⟩ := parse_eq_ok hp hreq
  · rw [hact] at hcommit
    rcases parseControl_eq_ok hctl with ⟨_, h⟩ | ⟨_, h⟩ | ⟨h, _⟩ | ⟨_, h⟩
    · rw [h] at hcommit
      exact absurd hcommit (by decide)
    · rw [h] at hcommit
      exact absurd hcommit (by decide)
    · exact h
    · exact absurd hcommit h
  · rw [hact] at hcommit
    rcases (parseRecords_eq_ok hrec).2.2 with ⟨h, _⟩ | ⟨h, _⟩ | ⟨h, _⟩ | ⟨h, _⟩ <;>
      exact absurd (h.symm.trans hcommit) (by decide)

/-- A BEGIN that is well formed names a generation. -/
theorem parse_begin (hp : parse data = some p) {b : NlBegin}
    {flags : UInt32} (hreq : p.request = .ok (.begin b flags)) : p.generation ≠ 0 := by
  obtain ⟨_, hgen, _, ⟨_, hctl⟩ | hrec⟩ := parse_eq_ok hp hreq
  · rcases parseControl_eq_ok hctl with ⟨h, _⟩ | ⟨h, _⟩ | ⟨h, _⟩ | ⟨h, _⟩ <;> cases h
  · rw [hgen]
    exact (parseRecords_eq_ok hrec).1

/-! ### Performing -/

/-- What the surroundings of one call contribute: the readings of the clock, the outcomes of the
    allocations, and the ticks of the expiry work between the sections of the handler. -/
structure Env where
  clock : Clock
  beginAlloc : Bool := true
  commitAlloc : CommitAlloc := {}
  beforeFail : List (BitVec 64) := []
  beforeReply : List (BitVec 64) := []
  deriving DecidableEq

/-- A message on its way to the handler. -/
structure Message where
  data : List UInt8
  (portid seq : ℕ)
  deriving DecidableEq

/-- The operation a parsed message asks for. -/
def perform (env : Env) (portid : ℕ) (p : Parsed) (st : KState) : KState × Answer :=
  match p.request with
  | .error reason => (st, ⟨some .EINVAL, reason, 0⟩)
  | .ok .capability => (st, ⟨none, JMX_V3_REASON_NONE, 0⟩)
  | .ok .status => (st, ⟨none, JMX_V3_REASON_NONE, 0⟩)
  | .ok .commit => txCommit env.commitAlloc env.clock portid p.generation st
  | .ok .abort => txAbort env.clock portid p.generation st
  | .ok (.begin b flags) => txBegin env.beginAlloc env.clock portid p.generation b flags st
  | .ok (.rules wires) => txAddRules env.clock portid p.generation wires st
  | .ok (.steps wires) => txAddSteps env.clock portid p.generation wires st
  | .ok (.ports wires) => txAddPorts env.clock portid p.generation wires st

/-- A rejected batch marks the transaction of its sender and generation as failed. -/
def markBatch (env : Env) (portid : ℕ) (p : Parsed) (ans : Answer) (st : KState) : KState :=
  if ans.rc ≠ none ∧ p.generation ≠ 0 ∧ actionIsBatch p.action then
    txFail env.clock portid p.generation ans.reason ans.detail st
  else st

/-! ### Replying -/

/-- The status message sent to `portid` in answer to the message `seq`. -/
structure StatusReply where
  (portid seq generation requestAction status reason detail : ℕ)
  snapshot : Snapshot

/-- `send_status`: the reply is built from a snapshot taken now. -/
def statusReply (m : Message) (p : Parsed) (ans : Answer) (st : KState) : StatusReply where
  portid := m.portid
  seq := m.seq
  generation := p.generation
  requestAction := p.action
  status := if ans.rc = none then JMX_V3_STATUS_OK else JMX_V3_STATUS_ERROR
  reason := ans.reason
  detail := ans.detail
  snapshot := getSnapshot st

/-- The packed `struct jmx_nl_status_v3`. -/
def StatusReply.body (r : StatusReply) : List UInt8 :=
  toLE 4 r.requestAction ++ toLE 4 r.status ++ toLE 4 r.reason ++ toLE 4 r.detail ++
    toLE 4 r.snapshot.capabilities.toNat ++ toLE 4 r.snapshot.activeGeneration ++
    toLE 4 r.snapshot.activeRules ++ toLE 4 r.snapshot.activeSteps ++
    toLE 4 r.snapshot.activePorts ++ toLE 4 r.snapshot.activeMode ++
    r.snapshot.activeCatalogDigest ++ toLE 4 r.snapshot.stagingGeneration ++
    toLE 4 r.snapshot.stagingState

/-- The whole status message: header and body. -/
def StatusReply.toBytes (r : StatusReply) : List UInt8 :=
  toLE 4 JMX_NL_ACT_RULESET_STATUS_V3 ++ toLE 2 JMX_RULE_ABI_V3 ++ toLE 2 sizeofHdr ++
    toLE 4 sizeofStatus ++ toLE 4 r.generation ++ toLE 4 1 ++ toLE 4 sizeofStatus ++ toLE 4 0 ++
    toLE 4 (payloadCrc32 r.body).toNat ++ r.body

/-! ### One call -/

/-- Ticks of the expiry work. -/
def ticks (nows : List (BitVec 64)) (st : KState) : KState :=
  nows.foldl (fun st now => expireWork now st) st

/-- `jmx_v3_nl_handle`.  Messages of other protocols, and messages without a sender, are dropped
    without a reply. -/
def handle (env : Env) (m : Message) (st : KState) : KState × Option StatusReply :=
  match parse m.data with
  | none => (st, none)
  | some p =>
    if m.portid = 0 ∨ m.seq = 0 then (st, none)
    else
      let (st, ans) := perform env m.portid p st
      let st := markBatch env m.portid p ans (ticks env.beforeFail st)
      let st := ticks env.beforeReply st
      (st, some (statusReply m p ans st))

/-! ### Runs -/

/-- What happens to the engine: a message is handled, or the expiry work runs. -/
inductive Event where
  | message (env : Env) (m : Message)
  | tick (now : BitVec 64)
  deriving DecidableEq

/-- One event: the state after it, and the reply sent. -/
def step (st : KState) : Event → KState × Option StatusReply
  | .message env m => handle env m st
  | .tick now => (expireWork now st, none)

/-- The state after a sequence of events. -/
def run (st : KState) (es : List Event) : KState := es.foldl (fun st e => (step st e).1) st

@[simp] theorem run_nil (st : KState) : run st [] = st := rfl

@[simp] theorem run_cons (st : KState) (e : Event) (es : List Event) :
    run st (e :: es) = run (step st e).1 es := rfl

theorem run_append (st : KState) (es es' : List Event) :
    run st (es ++ es') = run (run st es) es' := by
  rw [run, run, run, List.foldl_append]

end DreamingOS.V3
