import DreamingOS.V3.Match

namespace DreamingOS.V3

open Outcome List

/-!
# v3 chain rules — what a match means

The declarative meaning of a match, and the functions that decide one step of it.

* `StepAt` — a step may stand at a position, given the end of the step before it;
* `Placed` — positions for all the steps of a rule;
* `Matches` — a rule matches a packet: it passes the gate and its steps can be placed;
* `IsBest` — the answer: the least matching rule below the sentinel, or none;
* `exactAt_meets` / `stepWindow_spec` / `occurrenceValid_meets` — the bytes and the window of a
  step are decided as `StepAt` has them.
-/

/-! ### Meaning -/

/-- The bytes of `step` occur in the payload at `pos`, folded when the step is not case-sensitive. -/
def BytesAt (payload : List UInt8) (step : StepK) (pos : ℕ) : Prop :=
  pos + step.payloadLen ≤ payload.length ∧
    List.Forall₂ (fun left right => byteAgrees (step.caseMode = JMX_V3_CASE_NOCASE) left right)
      ((payload.drop pos).take step.payloadLen) step.payload

/-- `step` may stand at `pos` when the step before it ends at `prevEnd`: its bytes occur there, it
    lies in its window, and it does not end before the previous step.  A relative window that
    would start in front of the payload admits no position. -/
structure StepAt (payload : List UInt8) (step : StepK) (prevEnd pos : ℕ) : Prop where
  bytes : BytesAt payload step pos
  offset : hasFlag step.positionFlags JMX_V3_POS_OFFSET → step.offset ≤ pos
  depth : hasFlag step.positionFlags JMX_V3_POS_DEPTH → (pos : ℤ) + step.payloadLen ≤ step.depth
  distance : hasFlag step.positionFlags JMX_V3_POS_DISTANCE →
    0 ≤ prevEnd + step.distance ∧ prevEnd + step.distance ≤ pos
  within : hasFlag step.positionFlags JMX_V3_POS_WITHIN →
    (pos : ℤ) + step.payloadLen ≤ prevEnd + step.within
  ordered : prevEnd ≤ pos + step.payloadLen

/-- The steps stand at the positions, the first one behind `prevEnd`. -/
def Placed (payload : List UInt8) : ℕ → List StepK → List ℕ → Prop
  | _, [], [] => True
  | prevEnd, step :: steps, pos :: positions =>
    StepAt payload step prevEnd pos ∧ Placed payload (pos + step.payloadLen) steps positions
  | _, _, _ => False

/-- A rule lets a packet through to its chain. -/
structure Gate (set : RuleSet) (rule : RuleK) (pkt : Packet) : Prop where
  proto : rule.proto = JMX_V3_PROTO_ANY ∨ rule.proto = pkt.proto
  dir : rule.dir = JMX_V3_DIR_ANY ∨ rule.dir = JMX_V3_DIR_BIDIRECTIONAL ∨ rule.dir = pkt.dir
  ports : set.portsOf rule = [] ∨ ∃ port ∈ set.portsOf rule, portMatches port pkt.sport pkt.dport

/-- A rule matches a packet. -/
def Matches (set : RuleSet) (pkt : Packet) (rule : RuleK) : Prop :=
  Gate set rule pkt ∧ ∃ positions, Placed pkt.payload 0 (set.stepsOf rule) positions

/-- The order in which rules are preferred. -/
def RuleK.key (rule : RuleK) : ℕ ×ₗ ℕ := toLex (rule.priority, rule.signatureRuleId)

/-- The key no rule may reach. -/
def sentinel : ℕ ×ₗ ℕ := toLex (U32_MAX, U32_MAX)

/-- `appid` and `priority` are those of the least rule in `S` below the sentinel, or zero and the
    greatest priority when there is none. -/
def IsBest (S : RuleK → Prop) (appid priority : ℕ) : Prop :=
  (∃ rule, S rule ∧ rule.key < sentinel ∧ (∀ rule', S rule' → rule.key ≤ rule'.key) ∧
    appid = rule.appid ∧ priority = rule.priority) ∨
  ((∀ rule, S rule → ¬ rule.key < sentinel) ∧ appid = 0 ∧ priority = U32_MAX)

/-- A set as the packet path may find it active. -/
structure Installed (set : RuleSet) : Prop where
  wellFormed : WellFormed set
  steps_valid : ∀ step ∈ set.steps, step.Valid
  steps_pos : ∀ rule ∈ set.rules, 0 < rule.stepCount
  automaton : HasAutomaton set

/-- The remaining steps can be placed behind `prevEnd`. -/
def CanPlace (payload : List UInt8) (prevEnd : ℕ) (steps : List StepK) : Prop :=
  ∃ positions, Placed payload prevEnd steps positions

@[simp] theorem canPlace_nil (payload : List UInt8) (prevEnd : ℕ) : CanPlace payload prevEnd [] :=
  ⟨[], trivial⟩

theorem canPlace_cons (payload : List UInt8) (prevEnd : ℕ) (step : StepK) (steps : List StepK) :
    CanPlace payload prevEnd (step :: steps) ↔
      ∃ pos, StepAt payload step prevEnd pos ∧ CanPlace payload (pos + step.payloadLen) steps := by
  constructor
  · rintro ⟨positions, h⟩
    cases positions with
    | nil => exact h.elim
    | cons pos positions => exact ⟨pos, h.1, positions, h.2⟩
  · rintro ⟨pos, hat, positions, h⟩
    exact ⟨pos :: positions, hat, h⟩

/-! ### One step -/

/-- The comparison loop: it spends a unit on its first byte and decides the agreement. -/
theorem exactAtLoop_meets {nocase : Bool} {pattern : List UInt8} : ∀ {rest : List UInt8}
    {work : ℕ}, pattern.length ≤ rest.length →
    Meets OnlyBudget
      (fun r => r.2 ≤ work ∧ (pattern ≠ [] → r.2 < work) ∧
        (r.1 = true ↔ List.Forall₂ (fun left right => byteAgrees nocase left right)
          (rest.take pattern.length) pattern))
      (exactAtLoop nocase pattern rest work) := by
  induction pattern with
  | nil =>
    intro rest work _
    rw [exactAtLoop, meets_ok]
    simp
  | cons right pattern ih =>
    intro rest work hlen
    cases rest with
    | nil => simp at hlen
    | cons left rest =>
      rw [exactAtLoop]
      refine Meets.bind (spend_meets work) (fun w hw => ?_)
      rw [length_cons, take_succ_cons, forall₂_cons]
      refine Meets.ite (fun hag => ?_) (fun hag => ?_)
      · refine (ih (by simpa using hlen)).imp (fun r hr => ⟨by omega, fun _ => by omega, ?_⟩)
        rw [hr.2.2]
        simp [hag]
      · rw [meets_ok]
        exact ⟨by omega, fun _ => by omega, by simp [hag]⟩

variable {step : StepK}

/-- `exact_at` decides `BytesAt`, and spends when the step fits. -/
theorem exactAt_meets (hv : step.Valid) (payload : List UInt8) (pos work : ℕ) : Meets OnlyBudget
      (fun r => r.2 ≤ work ∧ (pos + step.payloadLen ≤ payload.length → r.2 < work) ∧
        (r.1 = true ↔ BytesAt payload step pos))
      (exactAt step payload pos work) := by
  unfold exactAt
  have htake : step.payload.take step.payloadLen = step.payload :=
    take_of_length_le (le_of_eq hv.payload_length)
  refine Meets.ite (fun hout => ?_) (fun hin => ?_)
  · rw [meets_ok]
    refine ⟨le_refl _, fun h => by omega, ?_⟩
    simp only [Bool.false_eq_true, BytesAt, false_iff, not_and]
    intro h
    omega
  · rw [htake]
    have hne : step.payload ≠ [] :=
      ne_nil_of_length_pos (by rw [hv.payload_length]; exact hv.payload_pos)
    have hfit : step.payload.length ≤ (payload.drop pos).length := by
      rw [hv.payload_length, length_drop]
      omega
    refine (exactAtLoop_meets hfit).imp (fun r hr => ⟨hr.1, fun _ => hr.2.1 hne, ?_⟩)
    rw [hr.2.2, hv.payload_length]
    simp only [BytesAt]
    constructor
    · exact fun h => ⟨by omega, h⟩
    · exact fun h => h.2

/-- A payload short enough for no position of the search to leave the 32-bit range. -/
def Short (payload : List UInt8) : Prop := payload.length < 2147483648

/-- The part of `StepAt` that a window decides. -/
structure InWindow (step : StepK) (payloadLen prevEnd pos : ℕ) : Prop where
  fits : pos + step.payloadLen ≤ payloadLen
  offset : hasFlag step.positionFlags JMX_V3_POS_OFFSET → step.offset ≤ pos
  depth : hasFlag step.positionFlags JMX_V3_POS_DEPTH → (pos : ℤ) + step.payloadLen ≤ step.depth
  distance : hasFlag step.positionFlags JMX_V3_POS_DISTANCE →
    0 ≤ prevEnd + step.distance ∧ prevEnd + step.distance ≤ pos
  within : hasFlag step.positionFlags JMX_V3_POS_WITHIN →
    (pos : ℤ) + step.payloadLen ≤ prevEnd + step.within

variable {prevEnd : ℕ}

theorem stepAt_iff {payload : List UInt8} {pos : ℕ} :
    StepAt payload step prevEnd pos ↔ InWindow step payload.length prevEnd pos ∧
      BytesAt payload step pos ∧ prevEnd ≤ pos + step.payloadLen := by
  constructor
  · intro h
    exact ⟨⟨h.bytes.1, h.offset, h.depth, h.distance, h.within⟩, h.bytes, h.ordered⟩
  · rintro ⟨hw, hb, ho⟩
    exact ⟨hb, hw.offset, hw.depth, hw.distance, hw.within, ho⟩

variable {delta : ℤ} {base : ℕ}

/-- An offset behind the payload start is the sum; both addends are too small to overflow. -/
theorem addSignedOffset_of_nonneg (hbase : base < 2147483648)
    (hdelta : delta < 2147483648) (h : 0 ≤ base + delta) :
    ∃ value : ℕ, addSignedOffset base delta = .ok value ∧ (value : ℤ) = base + delta := by
  refine ⟨((base : ℤ) + delta).toNat, ?_, Int.toNat_of_nonneg h⟩
  have hin : ¬ ((base : ℤ) + delta < 0 ∨ (U32_MAX : ℤ) < base + delta) := by
    simp only [U32_MAX]
    omega
  rw [addSignedOffset]
  exact if_neg hin

theorem addSignedOffset_of_neg (h : base + delta < 0) :
    addSignedOffset base delta = .error .ERANGE := by
  rw [addSignedOffset]
  exact if_pos (.inl h)

/-- The window start a step asks for: none when a relative start lies in front of the payload. -/
theorem windowStart_spec (hv : step.Valid) (hprev : prevEnd < 2147483648) (pos : ℕ) :
    (∃ start, windowStart step prevEnd = .ok start ∧ start ≤ pos) ↔
      (hasFlag step.positionFlags JMX_V3_POS_OFFSET → step.offset ≤ pos) ∧
      (hasFlag step.positionFlags JMX_V3_POS_DISTANCE →
        0 ≤ prevEnd + step.distance ∧ prevEnd + step.distance ≤ pos) := by
  have hoff : hasFlag step.positionFlags JMX_V3_POS_OFFSET → (u32 step.offset : ℤ) = step.offset :=
    fun h => u32_of_nonneg (hv.offset_nonneg h) (by have := hv.offset_lt; omega)
  unfold windowStart
  by_cases hd : hasFlag step.positionFlags JMX_V3_POS_DISTANCE
  · rw [if_pos hd]
    by_cases hneg : prevEnd + step.distance < 0
    · rw [addSignedOffset_of_neg hneg]
      simp only [reduceCtorEq, false_and, exists_false, hd, forall_const, false_iff, not_and]
      omega
    obtain ⟨value, hvalue, hval⟩ :=
      addSignedOffset_of_nonneg hprev hv.distance_lt (by omega)
    rw [hvalue]
    by_cases ho : hasFlag step.positionFlags JMX_V3_POS_OFFSET
    · have hoff' := hoff ho
      by_cases hlt : value < u32 step.offset
      · simp only [ho, hlt, hd, and_self, if_true, Except.ok.injEq, exists_eq_left', forall_const]
        omega
      · simp only [ho, hlt, hd, and_false, if_false, Except.ok.injEq, exists_eq_left',
          forall_const]
        omega
    · simp only [ho, hd, Bool.false_eq_true, false_and, if_false, Except.ok.injEq,
        exists_eq_left', forall_const, IsEmpty.forall_iff, true_and]
      omega
  · rw [if_neg hd]
    by_cases ho : hasFlag step.positionFlags JMX_V3_POS_OFFSET
    · have hoff' := hoff ho
      simp only [ho, hd, Bool.false_eq_true, if_true, Except.ok.injEq, exists_eq_left',
        forall_const, IsEmpty.forall_iff, and_true]
      omega
    · simp [ho, hd]

variable {payloadLen : ℕ}

/-- The window end a step asks for. -/
theorem windowStop_spec (hv : step.Valid)
    (hprev : prevEnd < 2147483648) {last : ℕ} (hlast : last ≤ payloadLen) :
    (∃ stop, windowStop step payloadLen prevEnd = .ok stop ∧ last ≤ stop) ↔
      (hasFlag step.positionFlags JMX_V3_POS_DEPTH → (last : ℤ) ≤ step.depth) ∧
      (hasFlag step.positionFlags JMX_V3_POS_WITHIN → (last : ℤ) ≤ prevEnd + step.within) := by
  have hdep : hasFlag step.positionFlags JMX_V3_POS_DEPTH → (u32 step.depth : ℤ) = step.depth :=
    fun h => u32_of_nonneg (hv.depth_nonneg h) (by have := hv.depth_lt; omega)
  -- the end without the relative bound
  obtain ⟨stop, hstop⟩ : ∃ stop, stop =
      if hasFlag step.positionFlags JMX_V3_POS_DEPTH ∧ u32 step.depth < payloadLen then
        u32 step.depth
      else payloadLen := ⟨_, rfl⟩
  have hdepth : (last ≤ stop) ↔
      (hasFlag step.positionFlags JMX_V3_POS_DEPTH → (last : ℤ) ≤ step.depth) := by
    by_cases hd : hasFlag step.positionFlags JMX_V3_POS_DEPTH
    · have hdep' := hdep hd
      simp only [hd, true_and, forall_const] at hstop ⊢
      split at hstop <;> omega
    · simp only [hd, false_and, if_false, IsEmpty.forall_iff, iff_true, Bool.false_eq_true]
        at hstop ⊢
      omega
  unfold windowStop
  rw [← hstop, ← hdepth]
  by_cases hw : hasFlag step.positionFlags JMX_V3_POS_WITHIN
  · rw [if_pos hw]
    by_cases hneg : prevEnd + step.within < 0
    · rw [addSignedOffset_of_neg hneg]
      simp only [reduceCtorEq, false_and, exists_false, hw, forall_const, false_iff, not_and]
      omega
    obtain ⟨value, hvalue, hval⟩ := addSignedOffset_of_nonneg hprev hv.within_lt (by omega)
    rw [hvalue]
    by_cases hlt : value < stop
    · simp only [hlt, if_true, Except.ok.injEq, exists_eq_left', hw, forall_const]
      omega
    · simp only [hlt, if_false, Except.ok.injEq, exists_eq_left', hw, forall_const]
      omega
  · simp [hw]

/-- `step_window` describes exactly the positions in the window. -/
theorem stepWindow_spec (hv : step.Valid) (hprev : prevEnd < 2147483648) (pos : ℕ) :
    (∃ start stop, stepWindow step payloadLen prevEnd = .ok (start, stop) ∧ start ≤ pos ∧
      pos + step.payloadLen ≤ stop) ↔ InWindow step payloadLen prevEnd pos := by
  have hpos := hv.payload_pos
  unfold stepWindow
  constructor
  · rintro ⟨start, stop, h, hstart, hstop⟩
    split at h
    · cases h
    next wstart hws =>
    split at h
    · cases h
    next wstop hwe =>
    split at h
    · cases h
    simp only [Except.ok.injEq, Prod.mk.injEq] at h
    obtain ⟨rfl, rfl⟩ := h
    have hfit : pos + step.payloadLen ≤ payloadLen := by
      split at hstop <;> omega
    have hle : pos + step.payloadLen ≤ wstop := by
      split at hstop <;> omega
    obtain ⟨hoff, hdist⟩ := (windowStart_spec hv hprev pos).mp ⟨wstart, hws, hstart⟩
    obtain ⟨hdep, hwith⟩ := (windowStop_spec hv hprev hfit).mp ⟨wstop, hwe, hle⟩
    exact ⟨hfit, hoff, by exact_mod_cast hdep, hdist, by exact_mod_cast hwith⟩
  · intro h
    obtain ⟨start, hstart, hsle⟩ := (windowStart_spec hv hprev pos).mpr ⟨h.offset, h.distance⟩
    obtain ⟨stop, hstop, hele⟩ := (windowStop_spec hv hprev h.fits).mpr
      ⟨by exact_mod_cast h.depth, by exact_mod_cast h.within⟩
    have hfits := h.fits
    refine ⟨start, if payloadLen < stop then payloadLen else stop, ?_, hsle, ?_⟩
    · rw [hstart, hstop]
      exact if_neg (by omega)
    · split <;> omega

/-- The window ends within the payload. -/
theorem stepWindow_le {start stop : ℕ}
    (h : stepWindow step payloadLen prevEnd = .ok (start, stop)) :
    start ≤ stop ∧ stop ≤ payloadLen := by
  unfold stepWindow at h
  split at h
  · cases h
  split at h
  · cases h
  split at h
  · cases h
  simp only [Except.ok.injEq, Prod.mk.injEq] at h
  obtain ⟨rfl, rfl⟩ := h
  split <;> omega

/-- The occurrence of a rule's first step is valid when the step may stand there. -/
theorem occurrenceValid_meets (hv : step.Valid) (payload : List UInt8) (start work : ℕ) :
    Meets OnlyBudget (fun r => r.2 ≤ work ∧ (r.1 = true ↔ StepAt payload step 0 start))
      (occurrenceValid step payload 0 start (start + step.payloadLen) work) := by
  have hwin : (∃ wstart wstop, stepWindow step payload.length 0 = .ok (wstart, wstop) ∧
      wstart ≤ start ∧ start + step.payloadLen ≤ wstop) ↔ InWindow step payload.length 0 start :=
    stepWindow_spec hv (by omega) start
  unfold occurrenceValid
  cases hs : stepWindow step payload.length 0 with
  | error rc =>
    rw [hs] at hwin
    simp only [reduceCtorEq, false_and, exists_false, false_iff] at hwin
    refine ⟨le_refl _, ?_⟩
    simp only [Bool.false_eq_true, false_iff, stepAt_iff]
    exact fun h => hwin h.1
  | ok w =>
    obtain ⟨wstart, wstop⟩ := w
    rw [hs] at hwin
    simp only [Except.ok.injEq, Prod.mk.injEq, ← and_assoc] at hwin
    simp only
    refine Meets.ite (fun hout => ?_) (fun hin => ?_)
    · refine ⟨le_refl _, ?_⟩
      simp only [Bool.false_eq_true, false_iff, stepAt_iff]
      intro h
      obtain ⟨_, _, ⟨⟨rfl, rfl⟩, _⟩, _⟩ := hwin.mpr h.1
      omega
    · refine (exactAt_meets hv payload start work).imp (fun r hr => ⟨hr.1, ?_⟩)
      rw [hr.2.2, stepAt_iff]
      have hinwin : InWindow step payload.length 0 start :=
        hwin.mp ⟨wstart, wstop, ⟨⟨rfl, rfl⟩, by omega⟩, by omega⟩
      exact ⟨fun h => ⟨hinwin, h, Nat.zero_le _⟩, fun h => h.2.1⟩

end DreamingOS.V3
