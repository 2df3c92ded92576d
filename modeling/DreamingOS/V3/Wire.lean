import DreamingOS.V3.Handler

namespace DreamingOS.V3

open Bytes

/-!
# v3 chain rules — the daemon's encoders

The messages of the daemon (`jmx_nl_push.c`), from its own records to the bytes the kernel parses.

* `ChainRule` / `ChainStep` / `ChainPort` / `ChainRuleSet` — the daemon's rule store;
* `v3RuleToWire` / `v3StepToWire` / `v3PortToWire` — the wire record of each;
* `NlRule.toBytes` and its siblings — the packed structures, and `requestBytes` — a whole request;
* `NlRule.ofBytes_toBytes` and its siblings — **round trips** of the packed structures;
* `encodingFaithful` — what the kernel keeps of a record has the daemon's field values;
* `parse_requestBytes` — the handler reads back what the daemon asked for.
-/

/-! ### The daemon's records -/

/-- `jmx_chain_rule_t`. -/
structure ChainRule where
  (signatureRuleId appid priority requiredCaps firstStep firstPort : UInt32)
  (stepCount portCount : UInt16)
  (proto dir flags active : UInt8)

/-- `jmx_chain_step_t`. -/
structure ChainStep where
  signatureRuleId : UInt32
  stepIndex : UInt16
  (matcherType condition caseMode inputView positionFlags numericEncoding literalOption : UInt8)
  (depth offset distance within : Int32)
  (payloadLen referenceSource : UInt16)
  (comparison adjustMode width jumpMultiplier : UInt8)
  (inlineOperand adjustmentOperand : UInt32)
  jumpBase : Int32
  payload : Vector UInt8 JMX_V3_PAYLOAD_MAX

/-- `jmx_chain_port_t`. -/
structure ChainPort where
  signatureRuleId : UInt32
  (minPort maxPort : UInt16)
  endpoint : UInt8

/-- `jmx_chain_rule_set_t`, as far as it is pushed. -/
structure ChainRuleSet where
  rules : List ChainRule
  steps : List ChainStep
  ports : List ChainPort
  catalogDigest : Vector UInt8 JMX_V3_CATALOG_DIGEST_LEN

/-! ### Wire records -/

/-- `v3_rule_to_wire`. -/
def v3RuleToWire (src : ChainRule) : Option NlRule :=
  if JMX_V3_MAX_STEPS_PER_RULE < src.stepCount.toNat then none
  else
    some {
      signatureRuleId := src.signatureRuleId.toNat
      appid := src.appid.toNat
      priority := src.priority.toNat
      requiredCaps := src.requiredCaps.toNat
      stepCount := src.stepCount.toNat
      proto := src.proto.toNat
      dir := src.dir.toNat
      flags := src.flags.toNat
      reserved := List.replicate 3 0 }

/-- `v3_step_to_wire`; the position fields are stored as `uint32_t`. -/
def v3StepToWire (src : ChainStep) : Option NlStep :=
  if JMX_V3_PAYLOAD_MAX < src.payloadLen.toNat then none
  else
    some {
      signatureRuleId := src.signatureRuleId.toNat
      stepIndex := src.stepIndex.toNat
      matcherType := src.matcherType.toNat
      condition := src.condition.toNat
      caseMode := src.caseMode.toNat
      inputView := src.inputView.toNat
      positionFlags := src.positionFlags.toNat
      numericEncoding := src.numericEncoding.toNat
      literalOption := src.literalOption.toNat
      reserved := List.replicate 3 0
      depth := src.depth.toUInt32.toNat
      offset := src.offset.toUInt32.toNat
      distance := src.distance.toUInt32.toNat
      within := src.within.toUInt32.toNat
      payloadLen := src.payloadLen.toNat
      referenceSource := src.referenceSource.toNat
      comparison := src.comparison.toNat
      adjustMode := src.adjustMode.toNat
      width := src.width.toNat
      jumpMultiplier := src.jumpMultiplier.toNat
      inlineOperand := src.inlineOperand.toNat
      adjustmentOperand := src.adjustmentOperand.toNat
      jumpBase := src.jumpBase.toUInt32.toNat
      payload := src.payload.toList.take src.payloadLen.toNat
        ++ List.replicate (JMX_V3_PAYLOAD_MAX - src.payloadLen.toNat) 0 }

/-- `v3_port_to_wire`. -/
def v3PortToWire (src : ChainPort) : Option NlPort :=
  some {
    signatureRuleId := src.signatureRuleId.toNat
    endpoint := src.endpoint.toNat
    reserved := List.replicate 3 0
    minPort := src.minPort.toNat
    maxPort := src.maxPort.toNat }

/-! ### Packed structures -/

/-- The packed `struct jmx_nl_begin_v3`. -/
def NlBegin.toBytes (b : NlBegin) : List UInt8 :=
  toLE 4 b.expectedRules ++ (toLE 4 b.expectedSteps ++ (toLE 4 b.expectedPorts ++
    (toLE 4 b.requiredCapabilities ++ b.catalogDigest)))

/-- The packed `struct jmx_nl_rule_v3`. -/
def NlRule.toBytes (w : NlRule) : List UInt8 :=
  toLE 4 w.signatureRuleId ++ (toLE 4 w.appid ++ (toLE 4 w.priority ++ (toLE 4 w.requiredCaps ++
    (toLE 2 w.stepCount ++ (toLE 1 w.proto ++ (toLE 1 w.dir ++ (toLE 1 w.flags ++
      w.reserved)))))))

/-- The packed `struct jmx_nl_step_v3`. -/
def NlStep.toBytes (w : NlStep) : List UInt8 :=
  toLE 4 w.signatureRuleId ++ (toLE 2 w.stepIndex ++ (toLE 1 w.matcherType ++
    (toLE 1 w.condition ++ (toLE 1 w.caseMode ++ (toLE 1 w.inputView ++ (toLE 1 w.positionFlags ++
    (toLE 1 w.numericEncoding ++ (toLE 1 w.literalOption ++ (w.reserved ++ (toLE 4 w.depth ++
    (toLE 4 w.offset ++ (toLE 4 w.distance ++ (toLE 4 w.within ++ (toLE 2 w.payloadLen ++
    (toLE 2 w.referenceSource ++ (toLE 1 w.comparison ++ (toLE 1 w.adjustMode ++ (toLE 1 w.width ++
    (toLE 1 w.jumpMultiplier ++ (toLE 4 w.inlineOperand ++ (toLE 4 w.adjustmentOperand ++
    (toLE 4 w.jumpBase ++ w.payload))))))))))))))))))))))

/-- The packed `struct jmx_nl_port_v3`. -/
def NlPort.toBytes (w : NlPort) : List UInt8 :=
  toLE 4 w.signatureRuleId ++ (toLE 1 w.endpoint ++ (w.reserved ++ (toLE 2 w.minPort ++
    toLE 2 w.maxPort)))

/-- The message `v3_send_request_locked` builds: the header, and the payload behind it. -/
def requestBytes (action generation flags recordSize count : ℕ) (payload : List UInt8) :
    List UInt8 :=
  toLE 4 action ++ (toLE 2 JMX_RULE_ABI_V3 ++ (toLE 2 sizeofHdr ++ (toLE 4 recordSize ++
    (toLE 4 generation ++ (toLE 4 count ++ (toLE 4 payload.length ++ (toLE 4 flags ++
      (toLE 4 (payloadCrc32 payload).toNat ++ payload))))))))

/-! ### Round trips of the packed structures -/

/-- The fields of a wire BEGIN fit their widths. -/
structure NlBegin.Fits (b : NlBegin) : Prop where
  expectedRules : b.expectedRules < 4294967296
  expectedSteps : b.expectedSteps < 4294967296
  expectedPorts : b.expectedPorts < 4294967296
  requiredCapabilities : b.requiredCapabilities < 4294967296
  catalogDigest : b.catalogDigest.length = 32

/-- The fields of a wire rule fit their widths. -/
structure NlRule.Fits (w : NlRule) : Prop where
  signatureRuleId : w.signatureRuleId < 4294967296
  appid : w.appid < 4294967296
  priority : w.priority < 4294967296
  requiredCaps : w.requiredCaps < 4294967296
  stepCount : w.stepCount < 65536
  proto : w.proto < 256
  dir : w.dir < 256
  flags : w.flags < 256
  reserved : w.reserved.length = 3

/-- The fields of a wire step fit their widths. -/
structure NlStep.Fits (w : NlStep) : Prop where
  signatureRuleId : w.signatureRuleId < 4294967296
  stepIndex : w.stepIndex < 65536
  matcherType : w.matcherType < 256
  condition : w.condition < 256
  caseMode : w.caseMode < 256
  inputView : w.inputView < 256
  positionFlags : w.positionFlags < 256
  numericEncoding : w.numericEncoding < 256
  literalOption : w.literalOption < 256
  reserved : w.reserved.length = 3
  depth : w.depth < 4294967296
  offset : w.offset < 4294967296
  distance : w.distance < 4294967296
  within : w.within < 4294967296
  payloadLen : w.payloadLen < 65536
  referenceSource : w.referenceSource < 65536
  comparison : w.comparison < 256
  adjustMode : w.adjustMode < 256
  width : w.width < 256
  jumpMultiplier : w.jumpMultiplier < 256
  inlineOperand : w.inlineOperand < 4294967296
  adjustmentOperand : w.adjustmentOperand < 4294967296
  jumpBase : w.jumpBase < 4294967296
  payload : w.payload.length = 64

/-- The fields of a wire port fit their widths. -/
structure NlPort.Fits (w : NlPort) : Prop where
  signatureRuleId : w.signatureRuleId < 4294967296
  endpoint : w.endpoint < 256
  reserved : w.reserved.length = 3
  minPort : w.minPort < 65536
  maxPort : w.maxPort < 65536

variable {b : NlBegin}

/-- **Round trip** of a BEGIN record. -/
theorem NlBegin.ofBytes_toBytes (h : b.Fits) : NlBegin.ofBytes b.toBytes = b := by
  obtain ⟨h1, h2, h3, h4, h5⟩ := h
  simp [NlBegin.ofBytes, NlBegin.toBytes, fieldLE_behind, fieldBytes_behind, fieldLE_front,
    fieldBytes_all, h1, h2, h3, h4, h5]

variable {w : NlRule}

/-- **Round trip** of a rule record. -/
theorem NlRule.ofBytes_toBytes (h : w.Fits) : NlRule.ofBytes w.toBytes = w := by
  obtain ⟨h1, h2, h3, h4, h5, h6, h7, h8, h9⟩ := h
  simp [NlRule.ofBytes, NlRule.toBytes, fieldLE_behind, fieldBytes_behind, fieldLE_front,
    fieldBytes_all, h1, h2, h3, h4, h5, h6, h7, h8, h9]

/-- **Round trip** of a step record. -/
theorem NlStep.ofBytes_toBytes {w : NlStep} (h : w.Fits) : NlStep.ofBytes w.toBytes = w := by
  obtain ⟨h1, h2, h3, h4, h5, h6, h7, h8, h9, h10, h11, h12, h13, h14, h15, h16, h17, h18, h19,
    h20, h21, h22, h23, h24⟩ := h
  simp [NlStep.ofBytes, NlStep.toBytes, fieldLE_behind, fieldBytes_behind, fieldLE_front,
    fieldBytes_all, fieldBytes_append, h1, h2, h3, h4, h5, h6, h7, h8, h9, h10, h11, h12, h13, h14,
    h15, h16, h17, h18, h19, h20, h21, h22, h23, h24]

/-- **Round trip** of a port record. -/
theorem NlPort.ofBytes_toBytes {w : NlPort} (h : w.Fits) : NlPort.ofBytes w.toBytes = w := by
  obtain ⟨h1, h2, h3, h4, h5⟩ := h
  simp [NlPort.ofBytes, NlPort.toBytes, fieldLE_behind, fieldBytes_behind, fieldLE_front,
    fieldLE_all, fieldBytes_append, h1, h2, h3, h4, h5]

theorem NlBegin.length_toBytes (h : b.Fits) : b.toBytes.length = sizeofBegin := by
  simp [NlBegin.toBytes, h.catalogDigest, sizeofBegin]

theorem NlRule.length_toBytes (h : w.Fits) : w.toBytes.length = sizeofRule := by
  simp [NlRule.toBytes, h.reserved, sizeofRule]

theorem NlStep.length_toBytes {w : NlStep} (h : w.Fits) : w.toBytes.length = sizeofStep := by
  simp [NlStep.toBytes, h.reserved, h.payload, sizeofStep]

theorem NlPort.length_toBytes {w : NlPort} (h : w.Fits) : w.toBytes.length = sizeofPort := by
  simp [NlPort.toBytes, h.reserved, sizeofPort]

variable {size : ℕ} {ρ : Type}

/-- The records of a payload that is a sequence of packed records. -/
theorem records_flatMap {ofBytes : List UInt8 → ρ} {toBytes : ρ → List UInt8} {ws : List ρ}
    (h : ∀ w ∈ ws, ofBytes (toBytes w) = w ∧ (toBytes w).length = size) :
    records ofBytes size ws.length (ws.flatMap toBytes) = ws := by
  induction ws with
  | nil => rfl
  | cons w ws ih =>
    obtain ⟨hround, hlen⟩ := h w List.mem_cons_self
    rw [List.length_cons, List.flatMap_cons, records, List.take_left' hlen, List.drop_left' hlen,
      hround, ih (fun w' hw' => h w' (List.mem_cons_of_mem _ hw'))]

/-! ### From the daemon's records to the kernel's -/

/-- A signed number stored as `uint32_t` and cast back to `s32`. -/
theorem s32_toUInt32 (x : Int32) : s32 x.toUInt32.toNat = x.toInt := by
  have hlt : x.toUInt32.toNat < 4294967296 := x.toUInt32.toNat_lt
  have hint : x.toInt = x.toBitVec.toInt := rfl
  have hnat : x.toUInt32.toNat = x.toBitVec.toNat := rfl
  rw [hint, BitVec.toInt_eq_toNat_cond, ← hnat]
  simp only [s32, Nat.mod_eq_of_lt hlt]
  split <;> split <;> omega

variable {src : ChainRule}

theorem v3RuleToWire_fits (h : v3RuleToWire src = some w) : w.Fits := by
  unfold v3RuleToWire at h
  split at h
  · cases h
  cases h
  exact ⟨src.signatureRuleId.toNat_lt, src.appid.toNat_lt, src.priority.toNat_lt,
    src.requiredCaps.toNat_lt, src.stepCount.toNat_lt, src.proto.toNat_lt, src.dir.toNat_lt,
    src.flags.toNat_lt, rfl⟩

theorem v3StepToWire_fits {src : ChainStep} {w : NlStep} (h : v3StepToWire src = some w) :
    w.Fits := by
  unfold v3StepToWire at h
  split at h
  · cases h
  rename_i hlen
  cases h
  refine ⟨src.signatureRuleId.toNat_lt, src.stepIndex.toNat_lt, src.matcherType.toNat_lt,
    src.condition.toNat_lt, src.caseMode.toNat_lt, src.inputView.toNat_lt,
    src.positionFlags.toNat_lt, src.numericEncoding.toNat_lt, src.literalOption.toNat_lt, rfl,
    src.depth.toUInt32.toNat_lt, src.offset.toUInt32.toNat_lt, src.distance.toUInt32.toNat_lt,
    src.within.toUInt32.toNat_lt, src.payloadLen.toNat_lt, src.referenceSource.toNat_lt,
    src.comparison.toNat_lt, src.adjustMode.toNat_lt, src.width.toNat_lt,
    src.jumpMultiplier.toNat_lt, src.inlineOperand.toNat_lt, src.adjustmentOperand.toNat_lt,
    src.jumpBase.toUInt32.toNat_lt, ?_⟩
  rw [not_lt] at hlen
  have hbuf : src.payload.toList.length = JMX_V3_PAYLOAD_MAX := Vector.length_toList
  simp only [List.length_append, List.length_take, List.length_replicate, hbuf]
  have hmax : JMX_V3_PAYLOAD_MAX = 64 := rfl
  omega

theorem v3PortToWire_fits {src : ChainPort} {w : NlPort} (h : v3PortToWire src = some w) :
    w.Fits := by
  cases h
  exact ⟨src.signatureRuleId.toNat_lt, src.endpoint.toNat_lt, rfl, src.minPort.toNat_lt,
    src.maxPort.toNat_lt⟩

/-- The rule the kernel keeps of a daemon's rule. -/
def ChainRule.kernel (src : ChainRule) : RuleK where
  signatureRuleId := src.signatureRuleId.toNat
  appid := src.appid.toNat
  priority := src.priority.toNat
  requiredCaps := src.requiredCaps
  stepCount := src.stepCount.toNat
  proto := src.proto.toNat
  dir := src.dir.toNat

/-- The step the kernel keeps of a daemon's step. -/
def ChainStep.kernel (src : ChainStep) : StepK where
  signatureRuleId := src.signatureRuleId.toNat
  stepIndex := src.stepIndex.toNat
  matcherType := src.matcherType.toNat
  condition := src.condition.toNat
  caseMode := src.caseMode.toNat
  inputView := src.inputView.toNat
  positionFlags := src.positionFlags
  literalOption := src.literalOption.toNat
  depth := src.depth.toInt
  offset := src.offset.toInt
  distance := src.distance.toInt
  within := src.within.toInt
  payloadLen := src.payloadLen.toNat
  payload := src.payload.toList.take src.payloadLen.toNat

/-- The port range the kernel keeps of a daemon's port range. -/
def ChainPort.kernel (src : ChainPort) : PortK where
  signatureRuleId := src.signatureRuleId.toNat
  endpoint := src.endpoint.toNat
  minPort := src.minPort.toNat
  maxPort := src.maxPort.toNat

theorem ruleOfWire_eq (h : v3RuleToWire src = some w) : ruleOfWire w = src.kernel := by
  unfold v3RuleToWire at h
  split at h
  · cases h
  · cases h
    simp [ruleOfWire, ChainRule.kernel]

theorem stepOfWire_eq {src : ChainStep} {w : NlStep} (h : v3StepToWire src = some w) :
    stepOfWire w = src.kernel := by
  unfold v3StepToWire at h
  split at h
  · cases h
  rename_i hlen
  cases h
  rw [not_lt] at hlen
  have htake : (src.payload.toList.take src.payloadLen.toNat).length = src.payloadLen.toNat := by
    rw [List.length_take, Vector.length_toList]
    exact min_eq_left hlen
  simp only [stepOfWire, ChainStep.kernel, s32_toUInt32, List.take_left' htake, UInt8.ofNat_toNat]

theorem portOfWire_eq {src : ChainPort} {w : NlPort} (h : v3PortToWire src = some w) :
    portOfWire w = src.kernel := by
  cases h
  rfl

/-- **Field values survive** the bytes of the wire: what the kernel keeps of a record. -/
structure EncodingFaithful : Prop where
  rule : ∀ src w, v3RuleToWire src = some w → ruleOfWire (NlRule.ofBytes w.toBytes) = src.kernel
  step : ∀ src w, v3StepToWire src = some w → stepOfWire (NlStep.ofBytes w.toBytes) = src.kernel
  port : ∀ src w, v3PortToWire src = some w → portOfWire (NlPort.ofBytes w.toBytes) = src.kernel

theorem encodingFaithful : EncodingFaithful where
  rule := by
    intro src w h
    rw [NlRule.ofBytes_toBytes (v3RuleToWire_fits h), ruleOfWire_eq h]
  step := by
    intro src w h
    rw [NlStep.ofBytes_toBytes (v3StepToWire_fits h), stepOfWire_eq h]
  port := by
    intro src w h
    rw [NlPort.ofBytes_toBytes (v3PortToWire_fits h), portOfWire_eq h]

/-! ### Requests -/

/-- The header of a request. -/
def requestHdr (action generation flags recordSize count : ℕ) (payload : List UInt8) : NlHdr where
  action := action
  abiVersion := JMX_RULE_ABI_V3
  headerSize := sizeofHdr
  recordSize := recordSize
  generation := generation
  count := count
  payloadBytes := payload.length
  flags := flags
  crc32 := (payloadCrc32 payload).toNat

section Request

variable {action generation flags recordSize count : ℕ} {payload : List UInt8}

theorem ofBytes_requestBytes (haction : action < 4294967296) (hgen : generation < 4294967296)
    (hflags : flags < 4294967296) (hsize : recordSize < 4294967296) (hcount : count < 4294967296)
    (hlen : payload.length < 4294967296) :
    NlHdr.ofBytes (requestBytes action generation flags recordSize count payload)
      = requestHdr action generation flags recordSize count payload := by
  have hcrc : (payloadCrc32 payload).toNat < 4294967296 := (payloadCrc32 payload).toNat_lt
  have habi : JMX_RULE_ABI_V3 < 65536 := by decide
  have hhdr : sizeofHdr < 65536 := by decide
  simp [NlHdr.ofBytes, requestBytes, requestHdr, fieldLE_behind, fieldLE_front, haction, hgen,
    hflags, hsize, hcount, hlen, hcrc, habi, hhdr]

/-- **What the handler reads** of a request of the daemon. -/
theorem parse_requestBytes (haction : actionIsV3 action) (hgen : generation < 4294967296)
    (hflags : flags < 4294967296) (hsize : recordSize < 4294967296) (hcount : count < 4294967296)
    (hlen : sizeofHdr + payload.length ≤ U32_MAX) :
    parse (requestBytes action generation flags recordSize count payload)
      = some ⟨action, generation,
          if action = JMX_NL_ACT_CAPABILITY_V3 ∨ action = JMX_NL_ACT_RULESET_STATUS_V3 ∨
              action = JMX_NL_ACT_RULESET_COMMIT_V3 ∨ action = JMX_NL_ACT_RULESET_ABORT_V3 then
            parseControl (requestHdr action generation flags recordSize count payload)
          else
            parseRecords (requestHdr action generation flags recordSize count payload) payload⟩ := by
  have hmax : U32_MAX = 4294967295 := rfl
  have hact : action < 4294967296 := by
    have := haction.2
    have hcap : JMX_NL_ACT_CAPABILITY_V3 = 57 := rfl
    omega
  have hbytes : (requestBytes action generation flags recordSize count payload).length
      = sizeofHdr + payload.length := by
    simp [requestBytes, sizeofHdr]
    omega
  have hdrop : (requestBytes action generation flags recordSize count payload).drop sizeofHdr
      = payload := by
    simp [requestBytes, sizeofHdr, List.drop_append, List.drop_eq_nil_of_le]
  have hfirst : fieldLE (requestBytes action generation flags recordSize count payload) 0 4
      = action := fieldLE_front hact _
  unfold parse
  rw [hbytes, hfirst, hdrop, ofBytes_requestBytes hact hgen hflags hsize hcount (by omega)]
  rw [if_neg (by simp [sizeofHdr]; omega), if_neg (not_not.mpr haction), if_neg (by omega)]
  unfold parseBody
  rw [if_neg (by simp [requestHdr]), if_neg (by simp [requestHdr]),
    if_neg (by simp [requestHdr]; omega), if_neg (by simp [requestHdr])]
  rfl

end Request

/-- The request behind a control message with a generation. -/
theorem parse_controlBytes {action generation : ℕ}
    (haction : action = JMX_NL_ACT_RULESET_STATUS_V3 ∨ action = JMX_NL_ACT_RULESET_COMMIT_V3 ∨
      action = JMX_NL_ACT_RULESET_ABORT_V3) (hgen : generation < 4294967296)
    (hne : generation ≠ 0) :
    parse (requestBytes action generation 0 0 0 [])
      = some ⟨action, generation, .ok (if action = JMX_NL_ACT_RULESET_STATUS_V3 then .status
          else if action = JMX_NL_ACT_RULESET_COMMIT_V3 then .commit else .abort)⟩ := by
  have hv3 : actionIsV3 action := by
    rcases haction with rfl | rfl | rfl <;> decide
  rw [parse_requestBytes hv3 hgen (by decide) (by decide) (by decide) (by decide)]
  rcases haction with rfl | rfl | rfl <;>
    simp [parseControl, requestHdr, hne, JMX_NL_ACT_CAPABILITY_V3, JMX_NL_ACT_RULESET_STATUS_V3,
      JMX_NL_ACT_RULESET_COMMIT_V3, JMX_NL_ACT_RULESET_ABORT_V3]

/-- The request behind a BEGIN message. -/
theorem parse_beginBytes {generation flags : ℕ} (hb : b.Fits)
    (hgen : generation < 4294967296) (hne : generation ≠ 0) (hflags : flags < 4294967296) :
    parse (requestBytes JMX_NL_ACT_RULESET_BEGIN_V3 generation flags sizeofBegin 1 b.toBytes)
      = some ⟨JMX_NL_ACT_RULESET_BEGIN_V3, generation, .ok (.begin b (UInt32.ofNat flags))⟩ := by
  have hlen := NlBegin.length_toBytes hb
  rw [parse_requestBytes (by decide) hgen hflags (by decide) (by decide) (by rw [hlen]; decide)]
  simp [parseRecords, requestHdr, expectedRecordSize, hne, hlen, NlBegin.ofBytes_toBytes hb,
    JMX_NL_ACT_CAPABILITY_V3, JMX_NL_ACT_RULESET_STATUS_V3, JMX_NL_ACT_RULESET_COMMIT_V3,
    JMX_NL_ACT_RULESET_ABORT_V3, JMX_NL_ACT_RULESET_BEGIN_V3, sizeofBegin, U32_MAX]

/-- The length of a payload of packed records. -/
theorem length_flatMap_toBytes {toBytes : ρ → List UInt8} {ws : List ρ}
    (h : ∀ w ∈ ws, (toBytes w).length = size) :
    (ws.flatMap toBytes).length = ws.length * size := by
  induction ws with
  | nil => simp
  | cons w ws ih =>
    rw [List.flatMap_cons, List.length_append, List.length_cons, h w List.mem_cons_self,
      ih (fun w' hw' => h w' (List.mem_cons_of_mem _ hw'))]
    ring

/-- The request behind a batch message. -/
theorem parse_batchBytes {action generation count : ℕ} {payload : List UInt8}
    (haction : actionIsBatch action) (hgen : generation < 4294967296) (hne : generation ≠ 0)
    (hcount : count ≠ 0) (hbytes : payload.length = count * expectedRecordSize action)
    (hlen : sizeofHdr + payload.length ≤ U32_MAX) :
    parse (requestBytes action generation 0 (expectedRecordSize action) count payload)
      = some ⟨action, generation, .ok (if action = JMX_NL_ACT_RULE_V3_BATCH then
              .rules (records NlRule.ofBytes sizeofRule count payload)
            else if action = JMX_NL_ACT_STEP_V3_BATCH then
              .steps (records NlStep.ofBytes sizeofStep count payload)
            else .ports (records NlPort.ofBytes sizeofPort count payload))⟩ := by
  have hle : count * expectedRecordSize action ≤ U32_MAX := by omega
  have hcount' : count < 4294967296 := by
    have hpos : 0 < expectedRecordSize action := by
      rcases haction with rfl | rfl | rfl <;> decide
    have := Nat.le_mul_of_pos_right count hpos
    have hmax : U32_MAX = 4294967295 := rfl
    omega
  have hv3 : actionIsV3 action := by
    rcases haction with rfl | rfl | rfl <;> decide
  have hsize : expectedRecordSize action < 4294967296 := by
    rcases haction with rfl | rfl | rfl <;> decide
  rw [parse_requestBytes hv3 hgen (by decide) hsize hcount' hlen]
  -- one case for each kind of batch: every check of the records passes
  rcases haction with rfl | rfl | rfl <;>
    simp [parseRecords, requestHdr, expectedRecordSize, hne, hcount, hbytes,
      JMX_NL_ACT_CAPABILITY_V3, JMX_NL_ACT_RULESET_STATUS_V3, JMX_NL_ACT_RULESET_COMMIT_V3,
      JMX_NL_ACT_RULESET_ABORT_V3, JMX_NL_ACT_RULESET_BEGIN_V3, JMX_NL_ACT_RULE_V3_BATCH,
      JMX_NL_ACT_STEP_V3_BATCH, JMX_NL_ACT_PORT_V3_BATCH, sizeofRule, sizeofStep, sizeofPort] <;>
    exact hle

end DreamingOS.V3
