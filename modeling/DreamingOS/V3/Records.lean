import DreamingOS.V3.Abi
import DreamingOS.Lib.AhoCorasick.Trie

namespace DreamingOS.V3

/-!
# v3 chain rules — kernel records and batches

The records the engine keeps (`jmx_v3_rules.c`) and the loops that append a batch of wire records
to a staged set.

* `checkRule` / `validStepWire`, `checkStep` / `checkPort` — the checks of one record, in the order
  of the source, and `ruleOfWire` / `stepOfWire` / `portOfWire` — the record that is stored;
* `BatchKind` — what the rule, step and port batches differ in;
* `appendAll` — the loop of a batch, which stops at the first rejected record and leaves the
  earlier ones in the set;
* `rollback_appendAll` — a rolled back batch leaves the set as it was;
* `appendAll_eq_store` — a batch that is not rejected appends exactly its records.

A count of the source (`rule_count`, `step_count`, `port_count`) is the length of the list.
-/

/-- `JMX_V3_MAX_RULES` and its siblings. -/
def JMX_V3_MAX_RULES : ℕ := 16384
def JMX_V3_MAX_STEPS : ℕ := 262144
def JMX_V3_MAX_PORTS : ℕ := 131072

/-! ### Kernel records -/

/-- `struct jmx_v3_rule_k`. -/
structure RuleK where
  (signatureRuleId appid priority : ℕ)
  requiredCaps : UInt32
  firstStep : ℕ := 0
  firstPort : ℕ := 0
  stepCount : ℕ
  portCount : ℕ := 0
  (proto dir : ℕ)
  flags : ℕ := 0
  deriving DecidableEq

/-- `struct jmx_v3_step_k`; `payload` holds the first `payloadLen` bytes of the source's buffer,
    whose other bytes are zero. -/
structure StepK where
  signatureRuleId : ℕ
  (depth offset distance within : ℤ)
  (stepIndex payloadLen matcherType condition caseMode inputView : ℕ)
  positionFlags : UInt8
  literalOption : ℕ
  payload : List UInt8
  deriving DecidableEq

/-- `struct jmx_v3_port_k`. -/
structure PortK where
  (signatureRuleId minPort maxPort endpoint : ℕ)
  deriving DecidableEq

/-- One output of the automaton (`struct v3_ac_output`). -/
structure AcOutput where
  (ruleIndex stepIndex patternLen : ℕ)
  deriving DecidableEq

/-- A node of the finished automaton: its own slices of the edge and output arrays. -/
structure AcNode where
  fail : ℕ
  dictSuffix : Option ℕ
  edges : List (UInt8 × ℕ)
  outputs : List AcOutput
  deriving DecidableEq

/-- `struct jmx_v3_ac`. -/
structure Ac where
  nodes : Array AcNode
  rootNext : List ℕ
  deriving DecidableEq

/-- `struct jmx_v3_rule_set_k`. -/
structure RuleSet where
  (generation mode ruleCapacity stepCapacity portCapacity : ℕ)
  declaredCaps : UInt32
  catalogDigest : List UInt8
  rules : List RuleK := []
  steps : List StepK := []
  ports : List PortK := []
  ac : Option Ac := none
  deriving DecidableEq

/-- A failure as an operation reports it: the error, and the reason and detail of the reply. -/
structure Failure where
  rc : Errno
  (reason detail : ℕ)

/-- The flag `f` is set in `flags`. -/
def hasFlag (flags f : UInt8) : Bool := flags &&& f ≠ 0

/-! ### Rules -/

/-- The kernel record of a wire rule. -/
def ruleOfWire (wire : NlRule) : RuleK where
  signatureRuleId := wire.signatureRuleId
  appid := wire.appid
  priority := wire.priority
  requiredCaps := UInt32.ofNat wire.requiredCaps
  stepCount := wire.stepCount
  proto := wire.proto
  dir := wire.dir

/-- The checks of `jmx_v3_tx_add_rules` on one record. -/
def checkRule (set : RuleSet) (wire : NlRule) : Option (Errno × ℕ) :=
  let id := wire.signatureRuleId
  let caps := UInt32.ofNat wire.requiredCaps
  let steps := wire.stepCount
  if id = 0 ∨ wire.appid = 0 ∨ steps = 0 ∨ JMX_V3_MAX_STEPS_PER_RULE < steps ∨ wire.flags ≠ 0 ∨
      bytesZero wire.reserved = false ∨ JMX_V3_PROTO_UDP < wire.proto ∨
      JMX_V3_DIR_BIDIRECTIONAL < wire.dir ∨ caps &&& ~~~set.declaredCaps ≠ 0 ∨
      (∃ last ∈ set.rules.getLast?, id ≤ last.signatureRuleId) then
    some (.EINVAL, JMX_V3_REASON_BAD_RECORD)
  else none

/-! ### Steps -/

/-- The case mode that goes with a matcher type; `none` for a type the engine does not know. -/
def expectedCase (matcherType : ℕ) : Option ℕ :=
  if matcherType = JMX_V3_MATCH_LITERAL_NOCASE then some JMX_V3_CASE_NOCASE
  else if matcherType = JMX_V3_MATCH_LITERAL_EXACT_1 ∨ matcherType = JMX_V3_MATCH_LITERAL_EXACT_2 then
    some JMX_V3_CASE_EXACT
  else none

/-- The fields `valid_step_wire` checks before the matcher type. -/
def stepFieldsBad (wire : NlStep) : Prop :=
  wire.signatureRuleId = 0 ∨ wire.condition ≠ JMX_V3_CONDITION_POSITIVE ∨
    wire.inputView ≠ JMX_V3_VIEW_RAW ∨
    UInt8.ofNat wire.positionFlags &&& ~~~JMX_V3_POS_KNOWN_MASK ≠ 0 ∨
    wire.payloadLen = 0 ∨ JMX_V3_PAYLOAD_MAX < wire.payloadLen ∨
    bytesZero (wire.payload.drop wire.payloadLen) = false ∨ bytesZero wire.reserved = false ∨
    wire.numericEncoding ≠ 0 ∨ wire.referenceSource ≠ 0 ∨ wire.comparison ≠ 0 ∨
    wire.adjustMode ≠ 0 ∨ wire.width ≠ 0 ∨ wire.jumpMultiplier ≠ 0 ∨ wire.inlineOperand ≠ 0 ∨
    wire.adjustmentOperand ≠ 0 ∨ wire.jumpBase ≠ 0

instance (wire : NlStep) : Decidable (stepFieldsBad wire) := inferInstanceAs (Decidable (_ ∨ _))

/-- The kernel record of a wire step, field by field. -/
def stepOfWire (wire : NlStep) : StepK where
  signatureRuleId := wire.signatureRuleId
  stepIndex := wire.stepIndex
  matcherType := wire.matcherType
  condition := wire.condition
  caseMode := wire.caseMode
  inputView := wire.inputView
  positionFlags := UInt8.ofNat wire.positionFlags
  literalOption := wire.literalOption
  depth := s32 wire.depth
  offset := s32 wire.offset
  distance := s32 wire.distance
  within := s32 wire.within
  payloadLen := wire.payloadLen
  payload := wire.payload.take wire.payloadLen

/-- The position fields `valid_step_wire` checks after copying: an absolute field is not negative,
    an absent one is zero, and the first step has no relative one. -/
def stepPositionBad (step : StepK) : Prop :=
  (hasFlag step.positionFlags JMX_V3_POS_DEPTH ∧ step.depth < 0) ∨
    (hasFlag step.positionFlags JMX_V3_POS_OFFSET ∧ step.offset < 0) ∨
    (¬ hasFlag step.positionFlags JMX_V3_POS_DEPTH ∧ step.depth ≠ 0) ∨
    (¬ hasFlag step.positionFlags JMX_V3_POS_OFFSET ∧ step.offset ≠ 0) ∨
    (¬ hasFlag step.positionFlags JMX_V3_POS_DISTANCE ∧ step.distance ≠ 0) ∨
    (¬ hasFlag step.positionFlags JMX_V3_POS_WITHIN ∧ step.within ≠ 0) ∨
    (step.stepIndex = 0 ∧ hasFlag step.positionFlags (JMX_V3_POS_DISTANCE ||| JMX_V3_POS_WITHIN))

instance (step : StepK) : Decidable (stepPositionBad step) := inferInstanceAs (Decidable (_ ∨ _))

/-- `valid_step_wire`. -/
def validStepWire (wire : NlStep) : Except Errno StepK :=
  if stepFieldsBad wire then .error .EINVAL
  else
    match expectedCase wire.matcherType with
    | none => .error .EOPNOTSUPP
    | some case =>
      if wire.caseMode ≠ case then .error .EINVAL
      else if ¬(wire.literalOption = 0x00 ∨ wire.literalOption = 0x01 ∨
          wire.literalOption = 0x04) then .error .EINVAL
      else if stepPositionBad (stepOfWire wire) then .error .EINVAL
      else .ok (stepOfWire wire)

/-- The checks of `jmx_v3_tx_add_steps` on one record. -/
def checkStep (set : RuleSet) (wire : NlStep) : Option (Errno × ℕ) :=
  match validStepWire wire with
  | .error rc =>
    some (rc, if rc = .EOPNOTSUPP then JMX_V3_REASON_CAPABILITY else JMX_V3_REASON_BAD_RECORD)
  | .ok step =>
    if ∃ prev ∈ set.steps.getLast?, step.signatureRuleId < prev.signatureRuleId ∨
        (step.signatureRuleId = prev.signatureRuleId ∧ step.stepIndex ≤ prev.stepIndex) then
      some (.EINVAL, JMX_V3_REASON_STEP_SEQUENCE)
    else none

/-! ### Ports -/

/-- The kernel record of a wire port. -/
def portOfWire (wire : NlPort) : PortK where
  signatureRuleId := wire.signatureRuleId
  endpoint := wire.endpoint
  minPort := wire.minPort
  maxPort := wire.maxPort

/-- The checks of `jmx_v3_tx_add_ports` on one record. -/
def checkPort (set : RuleSet) (wire : NlPort) : Option (Errno × ℕ) :=
  let port := portOfWire wire
  if port.signatureRuleId = 0 ∨ port.endpoint < JMX_V3_PORT_SOURCE ∨
      JMX_V3_PORT_EITHER < port.endpoint ∨ port.maxPort < port.minPort ∨
      bytesZero wire.reserved = false ∨
      (∃ last ∈ set.ports.getLast?, port.signatureRuleId < last.signatureRuleId) then
    some (.EINVAL, JMX_V3_REASON_BAD_RECORD)
  else none

/-! ### Batches -/

/-- What the rule, step and port batches differ in: the list they extend, its capacity, the checks
    of one record (the error and the reason it is rejected with), and the record stored. -/
structure BatchKind (ρ κ : Type) where
  records : RuleSet → List κ
  store : RuleSet → List κ → RuleSet
  capacity : RuleSet → ℕ
  check : RuleSet → ρ → Option (Errno × ℕ)
  ofWire : ρ → κ

def ruleBatch : BatchKind NlRule RuleK where
  records set := set.rules
  store set rs := { set with rules := rs }
  capacity set := set.ruleCapacity
  check := checkRule
  ofWire := ruleOfWire

def stepBatch : BatchKind NlStep StepK where
  records set := set.steps
  store set ss := { set with steps := ss }
  capacity set := set.stepCapacity
  check := checkStep
  ofWire := stepOfWire

def portBatch : BatchKind NlPort PortK where
  records set := set.ports
  store set ps := { set with ports := ps }
  capacity set := set.portCapacity
  check := checkPort
  ofWire := portOfWire

namespace BatchKind

variable {ρ κ : Type}

/-- The loop of a batch: the set as the loop leaves it, with the failure that stopped it.  The
    detail of a failure is the index the rejected record would have had. -/
def appendAll (k : BatchKind ρ κ) : RuleSet → List ρ → RuleSet × Option Failure
  | set, [] => (set, none)
  | set, wire :: wires =>
    match k.check set wire with
    | some (rc, reason) => (set, some ⟨rc, reason, (k.records set).length⟩)
    | none => appendAll k (k.store set (k.records set ++ [k.ofWire wire])) wires

/-- Cut the list back to its first `n` records. -/
def rollback (k : BatchKind ρ κ) (set : RuleSet) (n : ℕ) : RuleSet :=
  k.store set ((k.records set).take n)

/-- `records` and `store` address one part of the set. -/
structure Lawful (k : BatchKind ρ κ) : Prop where
  records_store : ∀ set rs, k.records (k.store set rs) = rs
  store_store : ∀ set rs rs', k.store (k.store set rs) rs' = k.store set rs'
  store_records : ∀ set, k.store set (k.records set) = set
  capacity_store : ∀ set rs, k.capacity (k.store set rs) = k.capacity set

theorem ruleBatch_lawful : ruleBatch.Lawful :=
  ⟨fun _ _ => rfl, fun _ _ _ => rfl, fun _ => rfl, fun _ _ => rfl⟩

theorem stepBatch_lawful : stepBatch.Lawful :=
  ⟨fun _ _ => rfl, fun _ _ _ => rfl, fun _ => rfl, fun _ _ => rfl⟩

theorem portBatch_lawful : portBatch.Lawful :=
  ⟨fun _ _ => rfl, fun _ _ _ => rfl, fun _ => rfl, fun _ _ => rfl⟩

variable {k : BatchKind ρ κ} {wires : List ρ}

/-- The loop stores a prefix of the batch behind what was there. -/
theorem appendAll_prefix (hk : k.Lawful) :
    ∀ {set set' : RuleSet} {f : Option Failure}, k.appendAll set wires = (set', f) →
      ∃ done, done <+: wires ∧ set' = k.store set (k.records set ++ done.map k.ofWire) ∧
        (f = none → done = wires) := by
  induction wires with
  | nil =>
    intro set set' f h
    simp only [appendAll, Prod.mk.injEq] at h
    obtain ⟨rfl, rfl⟩ := h
    exact ⟨[], List.nil_prefix, by simp [hk.store_records], fun _ => rfl⟩
  | cons wire wires ih =>
    intro set set' f h
    rw [appendAll] at h
    cases hc : k.check set wire with
    | some e =>
      obtain ⟨rc, reason⟩ := e
      simp only [hc, Prod.mk.injEq] at h
      obtain ⟨rfl, rfl⟩ := h
      exact ⟨[], List.nil_prefix, by simp [hk.store_records], by simp⟩
    | none =>
      simp only [hc] at h
      obtain ⟨done, hpre, hset, hall⟩ := ih h
      refine ⟨wire :: done, List.cons_prefix_cons.mpr ⟨rfl, hpre⟩, ?_, ?_⟩
      · rw [hset, hk.records_store, hk.store_store, List.append_assoc, List.map_cons,
          List.singleton_append]
      · intro hf
        rw [hall hf]

/-- **Rollback.**  Cutting back to the count before the batch restores the set. -/
theorem rollback_appendAll (hk : k.Lawful) {set set' : RuleSet}
    {f : Option Failure} (h : k.appendAll set wires = (set', f)) :
    k.rollback set' (k.records set).length = set := by
  obtain ⟨done, _, hset, _⟩ := appendAll_prefix hk h
  rw [rollback, hset, hk.records_store, hk.store_store, List.take_left', hk.store_records]
  rfl

/-- A batch without a rejected record appends exactly its records. -/
theorem appendAll_eq_store (hk : k.Lawful) {set set' : RuleSet}
    (h : k.appendAll set wires = (set', none)) :
    set' = k.store set (k.records set ++ wires.map k.ofWire) := by
  obtain ⟨done, _, hset, hall⟩ := appendAll_prefix hk h
  rw [hset, hall rfl]

/-- What every accepted record preserves holds after a batch. -/
theorem appendAll_induct {P : RuleSet → Prop}
    (hstep : ∀ set, P set → ∀ wire ∈ wires, k.check set wire = none →
      P (k.store set (k.records set ++ [k.ofWire wire]))) :
    ∀ {set set' : RuleSet} {f : Option Failure}, P set → k.appendAll set wires = (set', f) →
      P set' := by
  induction wires with
  | nil =>
    intro set set' f hP h
    simp only [appendAll, Prod.mk.injEq] at h
    exact h.1 ▸ hP
  | cons wire wires ih =>
    intro set set' f hP h
    rw [appendAll] at h
    cases hc : k.check set wire with
    | some e =>
      simp only [hc, Prod.mk.injEq] at h
      exact h.1 ▸ hP
    | none =>
      simp only [hc] at h
      exact ih (fun s hs w hw => hstep s hs w (by simp [hw]))
        (hstep set hP wire (by simp) hc) h

end BatchKind

/-! ### What an accepted record satisfies -/

/-- A step as `valid_step_wire` lets it through. -/
structure StepK.Valid (step : StepK) : Prop where
  payload_length : step.payload.length = step.payloadLen
  payload_pos : 0 < step.payloadLen
  payload_le : step.payloadLen ≤ JMX_V3_PAYLOAD_MAX
  case_mode : step.caseMode = JMX_V3_CASE_NOCASE ∨ step.caseMode = JMX_V3_CASE_EXACT
  depth_nonneg : hasFlag step.positionFlags JMX_V3_POS_DEPTH → 0 ≤ step.depth
  offset_nonneg : hasFlag step.positionFlags JMX_V3_POS_OFFSET → 0 ≤ step.offset
  depth_lt : step.depth < 2147483648
  offset_lt : step.offset < 2147483648
  distance_lt : step.distance < 2147483648
  within_lt : step.within < 2147483648

theorem validStepWire_eq_ok {wire : NlStep} {step : StepK} (h : validStepWire wire = .ok step) :
    step = stepOfWire wire ∧ ¬ stepFieldsBad wire ∧ ¬ stepPositionBad step ∧
      expectedCase wire.matcherType = some wire.caseMode := by
  unfold validStepWire at h
  split at h
  · cases h
  rename_i hf
  split at h
  · cases h
  rename_i case hcase
  split at h
  · cases h
  rename_i hmode
  split at h
  · cases h
  split at h
  · cases h
  rename_i hp
  cases h
  exact ⟨rfl, hf, hp, by rw [hcase, not_not.mp hmode]⟩

/-- An accepted wire step with its whole payload buffer gives a valid kernel step. -/
theorem stepOfWire_valid {wire : NlStep} (hlen : wire.payload.length = JMX_V3_PAYLOAD_MAX)
    (h : validStepWire wire = .ok (stepOfWire wire)) : (stepOfWire wire).Valid := by
  obtain ⟨_, hf, hp, hcase⟩ := validStepWire_eq_ok h
  simp only [stepFieldsBad, not_or] at hf
  simp only [stepPositionBad, not_or] at hp
  obtain ⟨_, _, _, _, hpos, hmax, _⟩ := hf
  have hlt : (stepOfWire wire).depth < 2147483648 ∧ (stepOfWire wire).offset < 2147483648 ∧
      (stepOfWire wire).distance < 2147483648 ∧ (stepOfWire wire).within < 2147483648 := by
    simp only [stepOfWire]
    exact ⟨s32_lt _, s32_lt _, s32_lt _, s32_lt _⟩
  refine ⟨?_, by simp only [stepOfWire]; omega, by simp only [stepOfWire]; omega, ?_, ?_, ?_,
    hlt.1, hlt.2.1, hlt.2.2.1, hlt.2.2.2⟩
  · simp only [stepOfWire, List.length_take]
    omega
  · simp only [expectedCase] at hcase
    split at hcase
    · exact .inl (Option.some.inj hcase).symm
    split at hcase
    · exact .inr (Option.some.inj hcase).symm
    · cases hcase
  · intro hflag
    by_contra hneg
    exact hp.1 ⟨hflag, by omega⟩
  · intro hflag
    by_contra hneg
    exact hp.2.1 ⟨hflag, by omega⟩

end DreamingOS.V3
