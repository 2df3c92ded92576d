import DreamingOS.V3.Automaton

namespace DreamingOS.V3

open List

/-!
# v3 chain rules — validation and indexing

`validate_and_index_set` of `jmx_v3_rules.c`, the gate between a staged set and an active one.

* `indexRule` / `indexRules` — the loop over the rules with its step, port and capability cursors;
  a rule is written to before its checks are done, so a failed run leaves it partly indexed;
* `validateAndIndexSet` — counts, rules, leftovers, capabilities, automaton;
* `WellFormed` — the shape of an accepted set: the steps and the ports are the concatenation of the
  rules' own, the counts and the capabilities are the declared ones;
* `validateAndIndexSet_wellFormed` — an accepted set is well formed.
-/

/-! ### The loop over the rules -/

/-- `step_caps`. -/
def stepCaps (step : StepK) : UInt32 :=
  let caps := JMX_V3_CAP_RAW_LITERAL_CHAIN
  let caps := if step.matcherType = JMX_V3_MATCH_LITERAL_NOCASE then caps ||| JMX_V3_CAP_NOCASE
    else caps
  let caps := if hasFlag step.positionFlags (JMX_V3_POS_DEPTH ||| JMX_V3_POS_OFFSET) then
    caps ||| JMX_V3_CAP_POSITION_ABSOLUTE else caps
  if hasFlag step.positionFlags (JMX_V3_POS_DISTANCE ||| JMX_V3_POS_WITHIN) then
    caps ||| JMX_V3_CAP_POSITION_RELATIVE else caps

/-- The cursors of the loop: the next step, the next port, the union of the capabilities. -/
structure Cursor where
  (step port : ℕ)
  caps : UInt32

/-- The exit `bad_reference`. -/
def badReference (set : RuleSet) (step port : ℕ) : Failure :=
  ⟨.EINVAL, JMX_V3_REASON_BAD_REFERENCE, if step ≠ set.steps.length then step else port⟩

/-- The exit `bad_sequence`. -/
def badSequence (step : ℕ) : Failure := ⟨.EINVAL, JMX_V3_REASON_STEP_SEQUENCE, step⟩

/-- The loop over the remaining `n` steps of a rule, the next one expected to have index `j`. -/
def indexSteps (set : RuleSet) (id port : ℕ) : ℕ → ℕ → ℕ → UInt32 → Except Failure (ℕ × UInt32)
  | 0, _, cursor, inferred => .ok (cursor, inferred)
  | n + 1, j, cursor, inferred =>
    match set.steps[cursor]? with
    | none => .error (badReference set cursor port)
    | some step =>
      if step.signatureRuleId ≠ id ∨ step.stepIndex ≠ j then .error (badSequence cursor)
      else indexSteps set id port n (j + 1) (cursor + 1) (inferred ||| stepCaps step)

/-- The loop over the ports from the cursor on: it counts those of the rule, and fails at one too
    many (`none`), with the count and the cursor reached. -/
def indexPorts (id : ℕ) : List PortK → ℕ → ℕ → Option Unit × ℕ × ℕ
  | [], count, cursor => (some (), count, cursor)
  | p :: ps, count, cursor =>
    if p.signatureRuleId = id then
      if JMX_V3_MAX_PORTS_PER_RULE ≤ count then (none, count, cursor)
      else indexPorts id ps (count + 1) (cursor + 1)
    else (some (), count, cursor)

/-- One iteration of the loop: the rule as it is left, and the cursors behind it. -/
def indexRule (set : RuleSet) (c : Cursor) (r : RuleK) : RuleK × Except Failure Cursor :=
  let r := { r with firstStep := c.step }
  match indexSteps set r.signatureRuleId c.port r.stepCount 0 c.step
      JMX_V3_CAP_PROTOCOL_MAPPING with
  | .error f => (r, .error f)
  | .ok (step, inferred) =>
    if r.requiredCaps &&& inferred ≠ inferred ∨
        r.requiredCaps &&& ~~~JMX_V3_CAP_PHASE1_MASK ≠ 0 then
      (r, .error ⟨.EINVAL, JMX_V3_REASON_CAPABILITY, r.signatureRuleId⟩)
    else
      match indexPorts r.signatureRuleId (set.ports.drop c.port) r.portCount c.port with
      | (none, count, port) =>
        ({ r with firstPort := c.port, portCount := count }, .error (badReference set step port))
      | (some (), count, port) =>
        ({ r with firstPort := c.port, portCount := count },
          .ok ⟨step, port, c.caps ||| r.requiredCaps⟩)

def indexRules (set : RuleSet) : List RuleK → Cursor → List RuleK × Except Failure Cursor
  | [], c => ([], .ok c)
  | r :: rs, c =>
    match indexRule set c r with
    | (r', .error f) => (r' :: rs, .error f)
    | (r', .ok c') => (r' :: (indexRules set rs c').1, (indexRules set rs c').2)

/-! ### The whole validation -/

/-- Which allocations of a commit succeed. -/
structure CommitAlloc where
  patterns : Bool := true
  ac : AcAlloc := {}
  deriving DecidableEq

/-- The steps of a rule, by its indexes. -/
def RuleSet.stepsOf (set : RuleSet) (r : RuleK) : List StepK :=
  (set.steps.drop r.firstStep).take r.stepCount

/-- The ports of a rule, by its indexes. -/
def RuleSet.portsOf (set : RuleSet) (r : RuleK) : List PortK :=
  (set.ports.drop r.firstPort).take r.portCount

/-- The pattern of the rule at index `i`: the payload of its first step. -/
def patternOf (set : RuleSet) (r : RuleK) (i : ℕ) : AcPattern :=
  match set.steps[r.firstStep]? with
  | some step => ⟨i, 0, step.payloadLen, step.payload.take step.payloadLen⟩
  | none => ⟨i, 0, 0, []⟩

def patternsOf (set : RuleSet) : List AcPattern :=
  set.rules.zipIdx.map fun e => patternOf set e.1 e.2

/-- `validate_and_index_set`: the set as it is left, and the failure if there is one. -/
def validateAndIndexSet (alloc : CommitAlloc) (set : RuleSet) : RuleSet × Option Failure :=
  if set.rules.length ≠ set.ruleCapacity ∨ set.steps.length ≠ set.stepCapacity ∨
      set.ports.length ≠ set.portCapacity then
    (set, some ⟨.EINVAL, JMX_V3_REASON_COUNT_MISMATCH, set.rules.length⟩)
  else if set.rules ≠ [] ∧ alloc.patterns = false then
    (set, some ⟨.ENOMEM, JMX_V3_REASON_NO_MEMORY, 0⟩)
  else
    match indexRules set set.rules ⟨0, 0, 0⟩ with
    | (rules, .error f) => ({ set with rules := rules }, some f)
    | (rules, .ok c) =>
      let set := { set with rules := rules }
      if c.step ≠ set.steps.length ∨ c.port ≠ set.ports.length then
        (set, some (badReference set c.step c.port))
      else if c.caps ≠ set.declaredCaps then
        (set, some ⟨.EINVAL, JMX_V3_REASON_CAPABILITY, c.caps.toNat⟩)
      else if set.rules = [] then (set, none)
      else
        match acBuild alloc.ac (patternsOf set) with
        | .error rc => (set, some ⟨rc, JMX_V3_REASON_BUILD_FAILED, rc.code⟩)
        | .ok ac => ({ set with ac := some ac }, none)

/-- Validation keeps what was declared. -/
theorem validateAndIndexSet_generation (alloc : CommitAlloc) (set : RuleSet) :
    (validateAndIndexSet alloc set).1.generation = set.generation := by
  unfold validateAndIndexSet
  split
  · rfl
  split
  · rfl
  split
  · rfl
  simp only
  split
  · rfl
  split
  · rfl
  split
  · rfl
  split <;> rfl

/-! ### Well-formed sets -/

/-- A rule without what indexing writes. -/
def RuleK.unindexed (r : RuleK) : RuleK := { r with firstStep := 0, firstPort := 0, portCount := 0 }

/-- What an accepted set looks like. -/
structure WellFormed (set : RuleSet) : Prop where
  ruleCount : set.rules.length = set.ruleCapacity
  stepCount : set.steps.length = set.stepCapacity
  portCount : set.ports.length = set.portCapacity
  ascending : set.rules.Pairwise (fun r r' => r.signatureRuleId < r'.signatureRuleId)
  steps_partition : set.rules.flatMap set.stepsOf = set.steps
  steps_of : ∀ r ∈ set.rules, (set.stepsOf r).map (fun s => (s.signatureRuleId, s.stepIndex))
    = (List.range r.stepCount).map (fun k => (r.signatureRuleId, k))
  ports_partition : set.rules.flatMap set.portsOf = set.ports
  ports_of : ∀ r ∈ set.rules, (set.portsOf r).length = r.portCount ∧
    ∀ p ∈ set.portsOf r, p.signatureRuleId = r.signatureRuleId
  ports_le : ∀ r ∈ set.rules, r.portCount ≤ JMX_V3_MAX_PORTS_PER_RULE
  caps : set.rules.foldl (fun caps r => caps ||| r.requiredCaps) 0 = set.declaredCaps

/-- The automaton of an accepted set was built from its first steps; an empty set has none. -/
structure HasAutomaton (set : RuleSet) : Prop where
  built : set.rules ≠ [] → ∃ alloc ac, set.ac = some ac ∧ acBuild alloc (patternsOf set) = .ok ac
  empty : set.rules = [] → set.ac = none

/-! ### What indexing establishes -/

variable {set : RuleSet} {id : ℕ}

theorem indexSteps_eq_ok {port n : ℕ} : ∀ {j cursor : ℕ}
    {inferred : UInt32} {r : ℕ × UInt32}, indexSteps set id port n j cursor inferred = .ok r →
    r.1 = cursor + n ∧ ((set.steps.drop cursor).take n).map
      (fun s => (s.signatureRuleId, s.stepIndex)) = (List.range' j n).map (fun k => (id, k)) := by
  induction n with
  | zero =>
    intro j cursor inferred r h
    simp only [indexSteps, Except.ok.injEq] at h
    subst h
    exact ⟨rfl, by simp⟩
  | succ n ih =>
    intro j cursor inferred r h
    rw [indexSteps] at h
    cases hs : set.steps[cursor]? with
    | none => simp [hs] at h
    | some step =>
      simp only [hs] at h
      split at h
      · cases h
      rename_i hok
      simp only [not_or, not_not] at hok
      obtain ⟨hcur, hmap⟩ := ih h
      obtain ⟨hlt, hget⟩ := List.getElem?_eq_some_iff.mp hs
      refine ⟨by omega, ?_⟩
      rw [drop_eq_getElem_cons hlt, take_succ_cons, map_cons, hmap, hget,
        range'_succ, map_cons, hok.1, hok.2]

theorem indexPorts_eq_some {ps : List PortK} : ∀ {count cursor count' cursor' : ℕ},
    indexPorts id ps count cursor = (some (), count', cursor') →
    count' + cursor = count + cursor' ∧ cursor ≤ cursor' ∧ cursor' - cursor ≤ ps.length ∧
      (∀ p ∈ ps.take (cursor' - cursor), p.signatureRuleId = id) ∧
      (count ≤ JMX_V3_MAX_PORTS_PER_RULE → count' ≤ JMX_V3_MAX_PORTS_PER_RULE) := by
  induction ps with
  | nil =>
    intro count cursor count' cursor' h
    simp only [indexPorts, Prod.mk.injEq, true_and] at h
    obtain ⟨rfl, rfl⟩ := h
    simp
  | cons p ps ih =>
    intro count cursor count' cursor' h
    rw [indexPorts] at h
    split at h
    · next hid =>
      split at h
      · cases h
      rename_i hmax
      obtain ⟨hsum, hle, hlen, hall, hbound⟩ := ih h
      refine ⟨by omega, by omega, by rw [length_cons]; omega, ?_, fun _ => hbound (by omega)⟩
      have hsucc : cursor' - cursor = (cursor' - (cursor + 1)) + 1 := by omega
      rw [hsucc, take_succ_cons]
      intro q hq
      rcases mem_cons.mp hq with rfl | hq
      · exact hid
      · exact hall q hq
    · simp only [Prod.mk.injEq, true_and] at h
      obtain ⟨rfl, rfl⟩ := h
      simp

/-- What a rule looks like once it is indexed between two cursors. -/
structure Between (set : RuleSet) (c c' : Cursor) (r : RuleK) : Prop where
  firstStep : r.firstStep = c.step
  nextStep : c'.step = c.step + r.stepCount
  steps : (set.stepsOf r).map (fun s => (s.signatureRuleId, s.stepIndex))
    = (List.range r.stepCount).map (fun k => (r.signatureRuleId, k))
  firstPort : r.firstPort = c.port
  nextPort : c'.port = c.port + r.portCount
  ports : (set.portsOf r).length = r.portCount ∧
    ∀ p ∈ set.portsOf r, p.signatureRuleId = r.signatureRuleId
  portsLe : r.portCount ≤ JMX_V3_MAX_PORTS_PER_RULE
  caps : c'.caps = c.caps ||| r.requiredCaps

theorem indexRule_eq_ok {c c' : Cursor} {r r' : RuleK} (hfresh : r.portCount = 0)
    (h : indexRule set c r = (r', .ok c')) :
    Between set c c' r' ∧ r'.unindexed = r.unindexed := by
  rw [indexRule] at h
  cases hs : indexSteps set r.signatureRuleId c.port r.stepCount 0 c.step
      JMX_V3_CAP_PROTOCOL_MAPPING with
  | error f => simp [hs] at h
  | ok res =>
    obtain ⟨step, inferred⟩ := res
    simp only [hs] at h
    split at h
    · simp at h
    split at h
    · simp at h
    rename_i count port hp
    simp only [Prod.mk.injEq, Except.ok.injEq] at h
    obtain ⟨rfl, rfl⟩ := h
    obtain ⟨hstep, hmap⟩ := indexSteps_eq_ok hs
    obtain ⟨hsum, hle, hlen, hall, hbound⟩ := indexPorts_eq_some hp
    have hcount : port - c.port = count := by omega
    rw [hcount] at hlen hall
    refine ⟨⟨rfl, hstep, ?_, rfl, by simp only; omega, ⟨?_, hall⟩, hbound (by omega), rfl⟩, rfl⟩
    · rw [range_eq_range']
      exact hmap
    · simp only [RuleSet.portsOf, length_take]
      omega

/-- The rules indexed between two cursors, one behind the other. -/
theorem indexRules_eq_ok {rules : List RuleK} : ∀ {c c' : Cursor}
    {rules' : List RuleK}, (∀ r ∈ rules, r.portCount = 0) →
    indexRules set rules c = (rules', .ok c') →
    rules'.map RuleK.unindexed = rules.map RuleK.unindexed ∧
      (∀ r ∈ rules', ∃ d d', Between set d d' r) ∧
      c'.step = c.step + (rules'.flatMap set.stepsOf).length ∧
      rules'.flatMap set.stepsOf = (set.steps.drop c.step).take (c'.step - c.step) ∧
      c'.port = c.port + (rules'.flatMap set.portsOf).length ∧
      rules'.flatMap set.portsOf = (set.ports.drop c.port).take (c'.port - c.port) ∧
      rules'.foldl (fun caps r => caps ||| r.requiredCaps) c.caps = c'.caps := by
  induction rules with
  | nil =>
    intro c c' rules' _ h
    simp only [indexRules, Prod.mk.injEq, Except.ok.injEq] at h
    obtain ⟨rfl, rfl⟩ := h
    simp
  | cons r rules ih =>
    intro c c' rules' hfresh h
    rw [indexRules] at h
    split at h
    · simp at h
    rename_i r₁ c₁ hr
    simp only [Prod.mk.injEq] at h
    obtain ⟨rfl, hrest⟩ := h
    obtain ⟨hb, hun⟩ := indexRule_eq_ok (hfresh r (by simp)) hr
    obtain ⟨hmap, hall, hstep, hsteps, hport, hports, hcaps⟩ :=
      ih (fun r hr => hfresh r (by simp [hr])) (Prod.ext rfl hrest)
    have hlen : (set.stepsOf r₁).length = r₁.stepCount := by
      simpa using congrArg List.length hb.steps
    have hplen := hb.ports.1
    have h1 := hb.nextStep
    have h2 := hb.nextPort
    refine ⟨by simp [hun, hmap], ?_, ?_, ?_, ?_, ?_, ?_⟩
    · intro q hq
      rcases mem_cons.mp hq with rfl | hq
      · exact ⟨c, c₁, hb⟩
      · exact hall q hq
    · rw [flatMap_cons, length_append, hlen, ← Nat.add_assoc, ← h1]
      exact hstep
    · have hsub : c'.step - c.step = r₁.stepCount + (c'.step - c₁.step) := by omega
      rw [flatMap_cons, hsteps, hsub, take_add, drop_drop, ← h1]
      rw [RuleSet.stepsOf, hb.firstStep]
    · rw [flatMap_cons, length_append, hplen, ← Nat.add_assoc, ← h2]
      exact hport
    · have hsub : c'.port - c.port = r₁.portCount + (c'.port - c₁.port) := by omega
      rw [flatMap_cons, hports, hsub, take_add, drop_drop, ← h2]
      rw [RuleSet.portsOf, hb.firstPort]
    · rw [foldl_cons, ← hb.caps]
      exact hcaps

/-- A set whose rules may be committed: not yet indexed, and in ascending order. -/
structure Unindexed (set : RuleSet) : Prop where
  fresh : ∀ r ∈ set.rules, r.unindexed = r
  ascending : set.rules.Pairwise (fun r r' => r.signatureRuleId < r'.signatureRuleId)
  ac : set.ac = none

/-- What an accepted set keeps of the staged one. -/
structure SameRecords (set set' : RuleSet) : Prop where
  rules : set'.rules.map RuleK.unindexed = set.rules
  steps : set'.steps = set.steps
  ports : set'.ports = set.ports
  capacities : set'.ruleCapacity = set.ruleCapacity ∧ set'.stepCapacity = set.stepCapacity ∧
    set'.portCapacity = set.portCapacity
  generation : set'.generation = set.generation
  mode : set'.mode = set.mode
  declaredCaps : set'.declaredCaps = set.declaredCaps
  catalogDigest : set'.catalogDigest = set.catalogDigest

/-- **Validation.**  An accepted set is well formed, holds the records that were staged, and its
    automaton was built from its first steps. -/
theorem validateAndIndexSet_wellFormed {alloc : CommitAlloc} {set' : RuleSet}
    (hset : Unindexed set) (h : validateAndIndexSet alloc set = (set', none)) :
    WellFormed set' ∧ SameRecords set set' ∧ HasAutomaton set' := by
  unfold validateAndIndexSet at h
  split at h
  · simp at h
  next hcounts =>
  simp only [not_or, not_not] at hcounts
  split at h
  · simp at h
  split at h
  · simp at h
  next rules c hindex =>
  have hfresh : ∀ r ∈ set.rules, r.portCount = 0 := by
    intro r hr
    rw [← hset.fresh r hr]
    rfl
  obtain ⟨hmap, hall, hstep, hsteps, hport, hports, hcaps⟩ := indexRules_eq_ok hfresh hindex
  have hun : rules.map RuleK.unindexed = set.rules := by
    rw [hmap]
    exact (map_congr_left hset.fresh).trans (List.map_id' _)
  simp only at h
  split at h
  · simp at h
  next hleft =>
  simp only [not_or, not_not] at hleft
  split at h
  · simp at h
  next hdecl =>
  rw [not_not] at hdecl
  -- the automaton is no part of the shape, so both exits share it
  have hwf : ∀ ac, WellFormed { set with rules := rules, ac := ac } := by
    intro ac
    have hlen : rules.length = set.rules.length := by simpa using congrArg List.length hun
    refine ⟨hlen.trans hcounts.1, hcounts.2.1, hcounts.2.2, ?_, ?_, ?_, ?_, ?_, ?_, ?_⟩
    · have hasc := hset.ascending
      rw [← hun, pairwise_map] at hasc
      exact hasc
    · show rules.flatMap set.stepsOf = set.steps
      rw [hsteps, hleft.1]
      simp
    · intro r hr
      obtain ⟨d, d', hb⟩ := hall r hr
      exact hb.steps
    · show rules.flatMap set.portsOf = set.ports
      rw [hports, hleft.2]
      simp
    · intro r hr
      obtain ⟨d, d', hb⟩ := hall r hr
      exact hb.ports
    · intro r hr
      obtain ⟨d, d', hb⟩ := hall r hr
      exact hb.portsLe
    · exact hcaps.trans hdecl
  split at h
  · next hnil =>
    simp only [Prod.mk.injEq, and_true] at h
    subst h
    exact ⟨hwf set.ac, ⟨hun, rfl, rfl, ⟨rfl, rfl, rfl⟩, rfl, rfl, rfl, rfl⟩,
      fun hne => absurd hnil hne, fun _ => hset.ac⟩
  · next hrules =>
    split at h
    · simp at h
    rename_i ac hac
    simp only [Prod.mk.injEq, and_true] at h
    subst h
    exact ⟨hwf (some ac), ⟨hun, rfl, rfl, ⟨rfl, rfl, rfl⟩, rfl, rfl, rfl, rfl⟩,
      fun _ => ⟨alloc.ac, ac, rfl, hac⟩, fun hnil => absurd hnil hrules⟩

end DreamingOS.V3
