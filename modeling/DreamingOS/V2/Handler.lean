import DreamingOS.V2.Rules
import DreamingOS.V3.Handler

namespace DreamingOS.V2

open Bytes
open V3 (actionIsV3 records s32)

/-!
# v2 rules — the netlink handler

The rule messages of `jmx_v2_nl_handle`, from the bytes of a message to the sections it runs under
`rules_update_lock`, with the sections of different calls in any order.

* `NlRule` / `copyRule` — a rule on the wire, and `v2_copy_rule`;
* `Op`, `perform` — one section: a FLUSH, one added rule, or a commit;
* `Event`, `step`, `run` — sections and ticks of the expiry work, one after the other;
* `System`, `sysStep`, `sysRun` — calls in progress, section by section, in any order.

Messages of other subsystems do not touch the rule sets and are calls with nothing to run.
-/

def JMX_NL_ACT_RULE_FLUSH : ℕ := 10
def JMX_NL_ACT_RULE_ADD : ℕ := 11
def JMX_NL_ACT_RULE_ADD_BATCH : ℕ := 12
def JMX_NL_ACT_RULE_VERSION : ℕ := 13

def sizeofRule : ℕ := 334
def sizeofBatchMsg : ℕ := 12
def sizeofVersionMsg : ℕ := 8

/-! ### Rules on the wire -/

/-- `struct v2_nl_rule`, packed. -/
structure NlRule where
  (appid ruleId priority method proto dir portCount lenCount pktSeq : ℕ)
  offset : ℤ
  matchLen : ℕ
  matchStr : List UInt8
  ports : List PortRange
  lenRange : List LenRange

def PortRange.ofBytes (bs : List UInt8) : PortRange := ⟨fieldLE bs 0 2, fieldLE bs 2 2⟩

def LenRange.ofBytes (bs : List UInt8) : LenRange := ⟨fieldLE bs 0 2, fieldLE bs 2 2⟩

def NlRule.ofBytes (bs : List UInt8) : NlRule where
  appid := fieldLE bs 0 4
  ruleId := fieldLE bs 4 4
  priority := fieldLE bs 8 4
  method := fieldLE bs 12 1
  proto := fieldLE bs 13 1
  dir := fieldLE bs 14 1
  portCount := fieldLE bs 15 1
  lenCount := fieldLE bs 16 1
  pktSeq := fieldLE bs 20 4
  offset := s32 (fieldLE bs 24 4)
  matchLen := fieldLE bs 28 2
  matchStr := fieldBytes bs 30 256
  ports := records PortRange.ofBytes 4 8 (bs.drop 286)
  lenRange := records LenRange.ofBytes 4 4 (bs.drop 318)

/-- `v2_copy_rule`: `none` when it refuses the rule. -/
def copyRule (nr : NlRule) : Option Rule :=
  if 256 < nr.matchLen ∨ 8 < nr.portCount ∨ 4 < nr.lenCount then none
  else some {
    appid := nr.appid
    ruleId := nr.ruleId
    priority := nr.priority
    method := nr.method
    proto := nr.proto
    dir := nr.dir
    portCount := nr.portCount
    lenCount := nr.lenCount
    pktSeq := nr.pktSeq
    offset := nr.offset
    matchLen := nr.matchLen
    matchStr := nr.matchStr.take nr.matchLen
    ports := nr.ports.take nr.portCount
    lenRange := nr.lenRange.take nr.lenCount }

/-! ### Sections -/

/-- A section of the handler under `rules_update_lock`. -/
inductive Op where
  | begin
  | add (rule : Option Rule)
  | commit (version : ℕ)

/-- What happens to the rule sets: a section of a call of `portid`, or the expiry work. -/
inductive Event (Ac : Type) where
  | op (env : Env Ac) (portid : ℕ) (op : Op)
  | tick (now : BitVec 64)

variable {Ac : Type}

section
variable (hashAppid : ℕ → Fin 256)

/-- One section: the state after it, and what it returns. -/
def perform (env : Env Ac) (portid : ℕ) (op : Op) (st : KState Ac) : KState Ac × Option Errno :=
  match op with
  | .begin => rulesBegin env portid st
  | .add rule => ruleAdd hashAppid env portid rule st
  | .commit version => rulesCommit env portid version st

/-- One event: the state after it, and what it returns. -/
def step (st : KState Ac) : Event Ac → KState Ac × Option Errno
  | .op env portid op => perform hashAppid env portid op st
  | .tick now => (txExpireWorkfn now st, none)

/-- The state after a sequence of events. -/
def run (st : KState Ac) (es : List (Event Ac)) : KState Ac :=
  es.foldl (fun st e => (step hashAppid st e).1) st

@[simp] theorem run_nil (st : KState Ac) : run hashAppid st [] = st := rfl

@[simp] theorem run_cons (st : KState Ac) (e : Event Ac) (es : List (Event Ac)) :
    run hashAppid st (e :: es) = run hashAppid (step hashAppid st e).1 es := rfl

theorem run_append (st : KState Ac) (es es' : List (Event Ac)) :
    run hashAppid st (es ++ es') = run hashAppid (run hashAppid st es) es' := by
  rw [run, run, run, List.foldl_append]

end

/-! ### Calls -/

/-- A message on its way to the handler. -/
structure Message where
  data : List UInt8
  (portid seq : ℕ)

/-- `struct v2_status_msg`, sent to `portid` in answer to the message `seq`. -/
structure StatusMsg where
  (portid seq : ℕ)
  requestAction : ℕ := JMX_NL_ACT_RULE_VERSION
  version : ℕ
  status : Option Errno
  (activeVersion activeRules : ℕ)
  deriving DecidableEq

/-- What is left to run of a call of `jmx_v2_nl_handle`. -/
inductive Call where
  | flush
  | adding (rules : List (Option Rule))
  | committing (version : ℕ)
  | ack (version : ℕ) (status : Option Errno)
  | done
  deriving DecidableEq

/-- The case RULE_ADD. -/
def arrivalAdd (data : List UInt8) : Call :=
  -- a message too short for a rule is dropped, and nothing is recorded
  if data.length < 4 + sizeofRule then .done
  else .adding [copyRule (NlRule.ofBytes (data.drop 4))]

/-- The case RULE_ADD_BATCH. -/
def arrivalBatch (data : List UInt8) : Call :=
  -- so is one too short for its header
  if data.length < sizeofBatchMsg then .done
  else
    let count := fieldLE data 4 4
    if 1024 < count then .adding [none]
    else if data.length < sizeofBatchMsg + sizeofRule * count then .adding [none]
    else
      .adding ((records NlRule.ofBytes sizeofRule count (data.drop sizeofBatchMsg)).map copyRule)

/-- The case RULE_VERSION. -/
def arrivalVersion (m : Message) : Call :=
  if m.data.length ≠ sizeofVersionMsg then .ack 0 (some .EMSGSIZE)
  else if m.portid = 0 ∨ m.seq = 0 then .done
  else .committing (fieldLE m.data 4 4)

/-- The dispatch of `jmx_v2_nl_handle`. -/
def arrival (m : Message) : Call :=
  if m.data.length < 4 then .done
  else if fieldLE m.data 0 4 = JMX_NL_ACT_RULE_VERSION then arrivalVersion m
  else if actionIsV3 (fieldLE m.data 0 4) then .done
  else if fieldLE m.data 0 4 = JMX_NL_ACT_RULE_FLUSH then .flush
  else if fieldLE m.data 0 4 = JMX_NL_ACT_RULE_ADD then arrivalAdd m.data
  else if fieldLE m.data 0 4 = JMX_NL_ACT_RULE_ADD_BATCH then arrivalBatch m.data
  else .done

/-- `v2_send_version_ack`; a message without a sender or a sequence number is not answered. -/
def sendVersionAck (m : Message) (version : ℕ) (status : Option Errno) (st : KState Ac) :
    List StatusMsg :=
  if m.portid = 0 ∨ m.seq = 0 then []
  else
    [{ portid := m.portid
       seq := m.seq
       version := version
       status := status
       activeVersion := (rulesGetStatus st).1
       activeRules := (rulesGetStatus st).2 }]

/-! ### The system -/

/-- The rule sets, the calls so far with what is left of them, and the answers sent.  `history` is
    a record of the events so far. -/
structure System (Ac : Type) where
  kernel : KState Ac := {}
  calls : List (Message × Call) := []
  replies : List StatusMsg := []
  history : List (Event Ac) := []

/-- What happens next: a message arrives, a call goes on by one section, or the expiry work
    runs. -/
inductive Choice (Ac : Type) where
  | arrive (m : Message)
  | advance (i : ℕ) (env : Env Ac)
  | tick (now : BitVec 64)

/-- The next section of a call: its operation and, from what that returns, what is then left. -/
def Call.next : Call → Option (Op × (Option Errno → Call))
  | .flush => some (.begin, fun _ => .done)
  | .adding (rule :: rules) => some (.add rule, fun _ => .adding rules)
  | .committing v => some (.commit v, fun rc => .ack v rc)
  | .adding [] | .ack _ _ | .done => none

variable (hashAppid : ℕ → Fin 256)

/-- The call `i` goes on. -/
def advance (env : Env Ac) (i : ℕ) (m : Message) (call : Call) (s : System Ac) : System Ac :=
  match call.next with
  | some (op, rest) =>
    let (kernel, rc) := perform hashAppid env m.portid op s.kernel
    { s with
      kernel := kernel
      calls := s.calls.set i (m, rest rc)
      history := s.history ++ [.op env m.portid op] }
  | none =>
    match call with
    | .ack version status =>
      { s with
        calls := s.calls.set i (m, .done)
        replies := s.replies ++ sendVersionAck m version status s.kernel }
    | _ => s

def sysStep (s : System Ac) : Choice Ac → System Ac
  | .arrive m => { s with calls := s.calls ++ [(m, arrival m)] }
  | .advance i env =>
    match s.calls[i]? with
    | none => s
    | some (m, call) => advance hashAppid env i m call s
  | .tick now =>
    { s with
      kernel := txExpireWorkfn now s.kernel
      history := s.history ++ [.tick now] }

def sysRun (cs : List (Choice Ac)) : System Ac := cs.foldl (sysStep hashAppid) {}

theorem sysRun_concat (cs : List (Choice Ac)) (c : Choice Ac) :
    sysRun hashAppid (cs ++ [c]) = sysStep hashAppid (sysRun hashAppid cs) c := by
  simp [sysRun]

/-- The rule sets are what the record of the events makes of the initial ones. -/
theorem sysRun_kernel (cs : List (Choice Ac)) :
    (sysRun hashAppid cs).kernel = run hashAppid {} (sysRun hashAppid cs).history := by
  induction cs using List.reverseRecOn with
  | nil => rfl
  | append_singleton cs c ih =>
    rw [sysRun_concat]
    generalize sysRun hashAppid cs = s at ih
    cases c with
    | arrive m => exact ih
    | tick now =>
      show txExpireWorkfn now s.kernel = run hashAppid {} (s.history ++ [.tick now])
      rw [run_append, ← ih]
      rfl
    | advance i env =>
      simp only [sysStep]
      split
      · exact ih
      next m call _ =>
      unfold advance
      split
      · next op rest _ =>
        show (perform hashAppid env m.portid op s.kernel).1
          = run hashAppid {} (s.history ++ [.op env m.portid op])
        rw [run_append, ← ih]
        rfl
      · split
        · exact ih
        · exact ih

end DreamingOS.V2
