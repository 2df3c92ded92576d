import DreamingOS.V3.Best
import DreamingOS.V3.Safety

namespace DreamingOS.V3

/-!
# v3 chain rules — the packet path under any history

The answer of `jmx_v3_match_payload` under whatever set a history of messages left active.

* `matchPayload_run` — **the answer is the best matching rule**, after every run;
* `ClippedMatches` — the reading that clips a relative window which reaches in front of the payload,
  and `clipped_window_not_matched`: the engine does not have that reading.
-/

/-- **The answer of a match**, after every run of messages and ticks: the set that is active is
    installed, so the best of the matching rules is found unless the budget runs out. -/
theorem matchPayload_run (es : List Event) {set : RuleSet}
    (hactive : (run rulesInit es).active = some set) (hmode : set.mode ≠ JMX_V3_MODE_OFF)
    (pkt : Packet) :
    ((matchPayload (run rulesInit es).active pkt).exhausted = true →
      (matchPayload (run rulesInit es).active pkt).appid = 0 ∧
        (matchPayload (run rulesInit es).active pkt).priority = U32_MAX) ∧
    ((matchPayload (run rulesInit es).active pkt).exhausted = false →
      IsBest (fun rule => rule ∈ set.rules ∧ Matches set pkt rule)
        (matchPayload (run rulesInit es).active pkt).appid
        (matchPayload (run rulesInit es).active pkt).priority) := by
  rw [hactive]
  have hbest := matchPayload_isBest ((history es).active set hactive).2 hmode pkt
  constructor
  · intro hex
    rw [if_pos hex] at hbest
    exact hbest
  · intro hin
    rw [if_neg (by simp [hin])] at hbest
    exact hbest

/-! ### A concrete run -/

/-- A literal step, case-sensitive. -/
def literalStep (id index : ℕ) (positionFlags : UInt8) (distance : Int32) (payload : List UInt8) :
    NlStep where
  signatureRuleId := id
  stepIndex := index
  matcherType := JMX_V3_MATCH_LITERAL_EXACT_1
  condition := JMX_V3_CONDITION_POSITIVE
  caseMode := JMX_V3_CASE_EXACT
  inputView := JMX_V3_VIEW_RAW
  positionFlags := positionFlags.toNat
  numericEncoding := 0
  literalOption := 0
  reserved := List.replicate 3 0
  depth := 0
  offset := 0
  distance := distance.toUInt32.toNat
  within := 0
  payloadLen := payload.length
  referenceSource := 0
  comparison := 0
  adjustMode := 0
  width := 0
  jumpMultiplier := 0
  inlineOperand := 0
  adjustmentOperand := 0
  jumpBase := 0
  payload := payload ++ List.replicate (64 - payload.length) 0

/-- A rule of two steps, the second one relative to the first. -/
def pairRule : NlRule := ⟨5, 77, 10, 0x409, 2, 0, 0, 0, List.replicate 3 0⟩

/-- The steps of `pairRule`: an `A`, and a `B` from `distance` bytes behind it on. -/
def pairSteps (distance : Int32) : List NlStep :=
  [literalStep 5 0 0 0 [65], literalStep 5 1 JMX_V3_POS_DISTANCE distance [66]]

/-- Port 7 loads and commits `pairRule`. -/
def pairRun (distance : Int32) : List Event :=
  let send (seq action recordSize count : ℕ) (payload : List UInt8) : Event :=
    .message (.at 1000) ⟨requestBytes action 1 (if action = JMX_NL_ACT_RULESET_BEGIN_V3 then 1 else 0)
      recordSize count payload, 7, seq⟩
  [send 1 JMX_NL_ACT_RULESET_BEGIN_V3 sizeofBegin 1
      (NlBegin.toBytes ⟨1, 2, 0, 0x409, List.replicate 32 1⟩),
    send 2 JMX_NL_ACT_RULE_V3_BATCH sizeofRule 1 pairRule.toBytes,
    send 3 JMX_NL_ACT_STEP_V3_BATCH sizeofStep 2 ((pairSteps distance).flatMap NlStep.toBytes),
    send 4 JMX_NL_ACT_RULESET_COMMIT_V3 0 0 []]

/-- A packet with the payload `AB`. -/
def pairPacket : Packet := ⟨[65, 66], 1, 1, 1000, 80⟩

/-- The active set of the run. -/
theorem pairRun_active (distance : Int32) (h : distance = 0 ∨ distance = -5) :
    ∃ set, (run rulesInit (pairRun distance)).active = some set ∧ set.mode = JMX_V3_MODE_SHADOW ∧
      set.rules = [⟨5, 77, 10, 0x409, 0, 0, 2, 0, 0, 0, 0⟩] ∧
      set.steps = (pairSteps distance).map stepOfWire ∧ set.ports = [] := by
  have hmap : (run rulesInit (pairRun distance)).active.map
      (fun set => (set.mode, set.rules, set.steps, set.ports))
      = some (JMX_V3_MODE_SHADOW, [⟨5, 77, 10, 0x409, 0, 0, 2, 0, 0, 0, 0⟩],
          (pairSteps distance).map stepOfWire, []) := by
    rcases h with rfl | rfl <;> decide +kernel
  obtain ⟨set, hset, hfields⟩ := Option.map_eq_some_iff.mp hmap
  simp only [Prod.mk.injEq] at hfields
  exact ⟨set, hset, hfields⟩

theorem matchPayload_run_pair : ∃ set, (run rulesInit (pairRun 0)).active = some set ∧
    set.mode ≠ JMX_V3_MODE_OFF ∧
    ((matchPayload (run rulesInit (pairRun 0)).active pairPacket).exhausted = true →
      (matchPayload (run rulesInit (pairRun 0)).active pairPacket).appid = 0 ∧
        (matchPayload (run rulesInit (pairRun 0)).active pairPacket).priority = U32_MAX) ∧
    ((matchPayload (run rulesInit (pairRun 0)).active pairPacket).exhausted = false →
      IsBest (fun rule => rule ∈ set.rules ∧ Matches set pairPacket rule)
        (matchPayload (run rulesInit (pairRun 0)).active pairPacket).appid
        (matchPayload (run rulesInit (pairRun 0)).active pairPacket).priority) := by
  obtain ⟨set, hset, hmode, -⟩ := pairRun_active 0 (.inl rfl)
  have hoff : set.mode ≠ JMX_V3_MODE_OFF := by
    rw [hmode]
    decide
  exact ⟨set, hset, hoff, matchPayload_run (pairRun 0) hset hoff pairPacket⟩

/-! ### Windows that reach in front of the payload -/

/-- `StepAt` with a relative window that may start in front of the payload. -/
structure ClippedStepAt (payload : List UInt8) (step : StepK) (prevEnd pos : ℕ) : Prop where
  bytes : BytesAt payload step pos
  offset : hasFlag step.positionFlags JMX_V3_POS_OFFSET → step.offset ≤ pos
  depth : hasFlag step.positionFlags JMX_V3_POS_DEPTH → (pos : ℤ) + step.payloadLen ≤ step.depth
  distance : hasFlag step.positionFlags JMX_V3_POS_DISTANCE → prevEnd + step.distance ≤ pos
  within : hasFlag step.positionFlags JMX_V3_POS_WITHIN →
    (pos : ℤ) + step.payloadLen ≤ prevEnd + step.within
  ordered : prevEnd ≤ pos + step.payloadLen

/-- The steps stand at the positions, in clipped windows. -/
def ClippedPlaced (payload : List UInt8) : ℕ → List StepK → List ℕ → Prop
  | _, [], [] => True
  | prevEnd, step :: steps, pos :: positions =>
    ClippedStepAt payload step prevEnd pos ∧
      ClippedPlaced payload (pos + step.payloadLen) steps positions
  | _, _, _ => False

/-- A rule matches a packet, in clipped windows. -/
def ClippedMatches (set : RuleSet) (pkt : Packet) (rule : RuleK) : Prop :=
  Gate set rule pkt ∧ ∃ positions, ClippedPlaced pkt.payload 0 (set.stepsOf rule) positions

/-- In `AB`, the `B` five bytes before the end of the `A` at the earliest is the one behind it. -/
theorem clippedPlaced_pair : ClippedPlaced [65, 66] 0 ((pairSteps (-5)).map stepOfWire) [0, 1] := by
  refine ⟨⟨⟨by decide, ?_⟩, ?_, ?_, ?_, ?_, by decide⟩,
    ⟨⟨by decide, ?_⟩, ?_, ?_, ?_, ?_, by decide⟩, trivial⟩
  · exact List.Forall₂.cons (by decide) List.Forall₂.nil
  · exact fun h => absurd h (by decide)
  · exact fun h => absurd h (by decide)
  · exact fun h => absurd h (by decide)
  · exact fun h => absurd h (by decide)
  · exact List.Forall₂.cons (by decide) List.Forall₂.nil
  · exact fun h => absurd h (by decide)
  · exact fun h => absurd h (by decide)
  · exact fun _ => by decide
  · exact fun h => absurd h (by decide)

/-- **A window is not clipped**: when `distance` reaches in front of the payload the step has no
    position, although its bytes stand behind that point. -/
theorem clipped_window_not_matched :
    ¬ ∀ (es : List Event) (set : RuleSet), (run rulesInit es).active = some set →
      set.mode ≠ JMX_V3_MODE_OFF → ∀ pkt,
      (matchPayload (run rulesInit es).active pkt).exhausted = false →
      IsBest (fun rule => rule ∈ set.rules ∧ ClippedMatches set pkt rule)
        (matchPayload (run rulesInit es).active pkt).appid
        (matchPayload (run rulesInit es).active pkt).priority := by
  intro h
  obtain ⟨set, hset, hmode, hrules, hsteps, hports⟩ := pairRun_active (-5) (.inr rfl)
  have hoff : set.mode ≠ JMX_V3_MODE_OFF := by
    rw [hmode]
    decide
  have hres : matchPayload (run rulesInit (pairRun (-5))).active pairPacket
      = ⟨0, U32_MAX, JMX_V3_MODE_SHADOW, false⟩ := by decide +kernel
  have hbest := h _ set hset hoff pairPacket (by rw [hres])
  rw [hres] at hbest
  rcases hbest with ⟨rule, ⟨hmem, -⟩, -, -, happid, -⟩ | ⟨hnone, -⟩
  · rw [hrules, List.mem_singleton] at hmem
    subst hmem
    cases happid
  · refine hnone ⟨5, 77, 10, 0x409, 0, 0, 2, 0, 0, 0, 0⟩ ⟨by simp [hrules], ?_⟩ ?_
    · refine ⟨⟨.inl rfl, .inl rfl, .inl ?_⟩, [0, 1], ?_⟩
      · simp [RuleSet.portsOf, hports]
      · simp only [RuleSet.stepsOf, hsteps, List.drop_zero]
        exact clippedPlaced_pair
    · show toLex (10, 5) < toLex (U32_MAX, U32_MAX)
      rw [Prod.Lex.toLex_lt_toLex]
      exact .inl (by decide)

end DreamingOS.V3
