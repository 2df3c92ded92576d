import DreamingOS.V3.Chain

namespace DreamingOS.V3

open Outcome List

/-!
# v3 chain rules — the best matching rule

From the occurrences of the first steps to the answer of `jmx_v3_match_payload`.

* `Hit` — the occurrence of a rule's first step that leads to a match of the rule;
* `evaluateFirst_meets` — a hit updates the best rule so far, any other occurrence leaves it;
* `exists_hit_iff` — a rule matches exactly when some occurrence hits it, so no match escapes the
  automaton;
* `BestOf` — the invariant of the scan: the best rule so far is the best of the rules hit;
* `matchPayload_isBest` — **the answer**: under an installed set a match is the best rule, unless
  the budget runs out, and then it is none.
-/

/-! ### Rules -/

theorem gatePorts_meets (sport dport : ℕ) {ports : List PortK} : ∀ {work : ℕ}, Meets OnlyBudget
      (fun r => r.2 ≤ work ∧ (r.1 = true ↔ ∃ port ∈ ports, portMatches port sport dport))
      (gatePorts sport dport ports work) := by
  induction ports with
  | nil => intro work; simp [gatePorts]
  | cons port ports ih =>
    intro work
    rw [gatePorts]
    refine Meets.bind (spend_meets work) (fun w hw => Meets.ite (fun hm => ?_) (fun hm => ?_))
    · exact ⟨by omega, by simp [hm]⟩
    · refine ih.imp (fun r hr => ⟨by omega, ?_⟩)
      rw [hr.2]
      simp [hm]

variable {rule : RuleK}

/-- `rule_gate` decides `Gate`. -/
theorem ruleGate_meets {set : RuleSet} (pkt : Packet)
    (hports : (set.portsOf rule).length = rule.portCount) (work : ℕ) :
    Meets OnlyBudget (fun r => r.2 ≤ work ∧ (r.1 = true ↔ Gate set rule pkt))
      (ruleGate set rule pkt work) := by
  unfold ruleGate
  refine Meets.bind (spend_meets work) (fun w hw => ?_)
  refine Meets.ite (fun hproto => ?_) (fun hproto => Meets.ite (fun hdir => ?_) (fun hdir =>
    Meets.ite (fun hnone => ?_) (fun hsome => ?_)))
  · refine ⟨by omega, ?_⟩
    simp only [Bool.false_eq_true, false_iff]
    exact fun h => h.proto.elim hproto.1 hproto.2
  · refine ⟨by omega, ?_⟩
    simp only [Bool.false_eq_true, false_iff]
    exact fun h => h.dir.elim hdir.1 (fun h' => h'.elim hdir.2.1 hdir.2.2)
  · refine ⟨by omega, ?_⟩
    simp only [true_iff]
    exact ⟨by omega, by omega, .inl (length_eq_zero_iff.mp (hports.trans hnone))⟩
  · refine (gatePorts_meets pkt.sport pkt.dport).imp (fun r hr => ⟨by omega, ?_⟩)
    rw [hr.2]
    constructor
    · exact fun h => ⟨by omega, by omega, .inr h⟩
    · intro h
      rcases h.ports with hnil | hex
      · rw [hnil, length_nil] at hports
        omega
      · exact hex

/-- The occurrence `e` of a first step leads to a match of `rule`. -/
structure Hit (set : RuleSet) (pkt : Packet) (e : Emission) (rule : RuleK) : Prop where
  stepIndex : e.stepIndex = 0
  lookup : set.rules[e.ruleIndex]? = some rule
  gate : Gate set rule pkt
  chain : ∃ step, set.steps[rule.firstStep]? = some step ∧ StepAt pkt.payload step 0 e.start ∧
    CanPlace pkt.payload (e.start + step.payloadLen) ((set.stepsOf rule).drop 1)

namespace Installed

variable {set : RuleSet}

theorem stepsOf_length (h : Installed set) (hr : rule ∈ set.rules) :
    (set.stepsOf rule).length = rule.stepCount := by
  simpa using congrArg List.length (h.wellFormed.steps_of rule hr)

/-- The first step of a rule. -/
theorem first_step (h : Installed set) (hr : rule ∈ set.rules) :
    ∃ step, set.steps[rule.firstStep]? = some step ∧ step.Valid ∧
      set.stepsOf rule = step :: (set.stepsOf rule).drop 1 := by
  have hlen := h.stepsOf_length hr
  have hpos := h.steps_pos rule hr
  have hlt : rule.firstStep < set.steps.length := by
    rw [RuleSet.stepsOf, length_take, length_drop] at hlen
    omega
  refine ⟨set.steps[rule.firstStep], getElem?_eq_getElem hlt, h.steps_valid _ (getElem_mem hlt), ?_⟩
  obtain ⟨n, hn⟩ : ∃ n, rule.stepCount = n + 1 := ⟨rule.stepCount - 1, by omega⟩
  rw [RuleSet.stepsOf, hn, drop_eq_getElem_cons hlt, take_succ_cons]
  rfl

variable {p : AcPattern}

/-- The patterns of the automaton, by rule. -/
theorem mem_patternsOf {set : RuleSet} :
    p ∈ patternsOf set ↔ ∃ i rule, set.rules[i]? = some rule ∧ p = patternOf set rule i := by
  simp only [patternsOf, List.mem_map, Prod.exists, mem_zipIdx_iff_getElem?]
  constructor
  · rintro ⟨rule, i, hr, rfl⟩
    exact ⟨i, rule, hr, rfl⟩
  · rintro ⟨i, rule, hr, rfl⟩
    exact ⟨rule, i, hr, rfl⟩

theorem pattern_length (h : Installed set) (hp : p ∈ patternsOf set) : p.bytes.length = p.len := by
  obtain ⟨i, rule, hr, rfl⟩ := mem_patternsOf.mp hp
  obtain ⟨step, hs, hv, _⟩ := h.first_step (mem_of_getElem? hr)
  have hlen := hv.payload_length
  rw [patternOf, hs]
  simp [hlen]

end Installed

/-- What `evaluate_first` makes of an occurrence: a hit updates the best rule, anything else leaves
    it alone. -/
theorem evaluateFirst_meets {set : RuleSet} (h : Installed set) (pkt : Packet) {e : Emission}
    (he : IsOccurrence (patternsOf set) pkt.payload e) (best : Best) (work : ℕ) :
    Meets OnlyBudget
      (fun r => r.2 ≤ work ∧ (Short pkt.payload →
        (∃ rule, Hit set pkt e rule ∧ r.1 = best.update rule) ∨
          ((∀ rule, ¬ Hit set pkt e rule) ∧ r.1 = best)))
      (evaluateFirst set pkt best e work) := by
  obtain ⟨stop, hstop, p, hp, hsuf, rfl⟩ := he
  obtain ⟨i, rule, hr, rfl⟩ := Installed.mem_patternsOf.mp hp
  have hmem := mem_of_getElem? hr
  obtain ⟨step, hs, hv, hsteps⟩ := h.first_step hmem
  have hpat : patternOf set rule i = ⟨i, 0, step.payloadLen, step.payload.take step.payloadLen⟩ := by
    rw [patternOf, hs]
  rw [hpat] at hsuf ⊢
  -- the pattern fits in front of `stop`, so the emission spans the step
  have hfit : step.payloadLen ≤ stop := by
    have h1 := hsuf.length_le
    have h2 := hv.payload_length
    simp only [AcPattern.key, length_map, length_take] at h1
    omega
  have hspan : stop - step.payloadLen + step.payloadLen = stop := by omega
  have hnot : ∀ {r : RuleK}, Hit set pkt (emissionOf stop (AcPattern.output
      ⟨i, 0, step.payloadLen, step.payload.take step.payloadLen⟩)) r → r = rule := by
    intro r hit
    have := hit.lookup
    simp only [emissionOf, AcPattern.output, hr, Option.some.injEq] at this
    exact this.symm
  simp only [evaluateFirst, emissionOf, AcPattern.output, ne_eq, not_true_eq_false, if_false, hr]
  refine Meets.bind (ruleGate_meets pkt (h.wellFormed.ports_of rule hmem).1 work) ?_
  rintro ⟨gate, w⟩ ⟨hw, hgate⟩
  simp only at hw hgate
  cases gate with
  | false =>
    refine ⟨hw, fun _ => .inr ⟨fun r hit => ?_, rfl⟩⟩
    have hit' := hit.gate
    rw [hnot hit] at hit'
    simpa using hgate.mpr hit'
  | true =>
    simp only [Bool.not_true, Bool.false_eq_true, if_false, hs]
    have hvalid := occurrenceValid_meets hv pkt.payload (stop - step.payloadLen) w
    rw [hspan] at hvalid
    refine Meets.bind hvalid ?_
    rintro ⟨valid, w'⟩ ⟨hw', hat⟩
    simp only at hw' hat
    cases valid with
    | false =>
      refine ⟨by simp only; omega, fun _ => .inr ⟨fun r hit => ?_, rfl⟩⟩
      obtain ⟨step', hs', hat', _⟩ := hit.chain
      rw [hnot hit, hs] at hs'
      cases hs'
      simpa using hat.mpr hat'
    | true =>
      simp only [Bool.not_true, Bool.false_eq_true, if_false]
      refine Meets.bind (completeChain_meets h.steps_valid (h.stepsOf_length hmem)
        (h.steps_pos rule hmem) hstop w') ?_
      rintro ⟨chain, w''⟩ ⟨hw'', hchain⟩
      simp only at hw'' hchain
      cases chain with
      | false =>
        refine ⟨by simp only; omega, fun hshort => .inr ⟨fun r hit => ?_, rfl⟩⟩
        obtain ⟨step', hs', _, hplace⟩ := hit.chain
        rw [hnot hit] at hs' hplace
        rw [hs] at hs'
        cases hs'
        simp only [hspan] at hplace
        simpa using (hchain hshort).mpr hplace
      | true =>
        refine ⟨by simp only; omega, fun hshort => .inl ⟨rule, ?_, rfl⟩⟩
        refine ⟨rfl, hr, hgate.mp rfl, step, hs, hat.mp rfl, ?_⟩
        rw [hspan]
        exact (hchain hshort).mp rfl

/-! ### No match escapes the automaton -/

theorem v3Fold_eq_of_agrees {nocase : Bool} {left right : UInt8} (h : byteAgrees nocase left right) :
    v3Fold left = v3Fold right := by
  unfold byteAgrees at h
  split at h
  · exact h
  · rw [h]

variable {pkt : Packet}

/-- A placed first step is an occurrence of its rule's pattern. -/
theorem isOccurrence_of_stepAt {set : RuleSet} {i : ℕ}
    (hr : set.rules[i]? = some rule) {step : StepK} (hs : set.steps[rule.firstStep]? = some step)
    (hv : step.Valid) {pos : ℕ} (hat : StepAt pkt.payload step 0 pos) :
    IsOccurrence (patternsOf set) pkt.payload ⟨i, 0, pos, pos + step.payloadLen⟩ := by
  obtain ⟨hfit, hagree⟩ := hat.bytes
  refine ⟨pos + step.payloadLen, hfit, patternOf set rule i,
    Installed.mem_patternsOf.mpr ⟨i, rule, hr, rfl⟩, ?_, ?_⟩
  · have hkey : (patternOf set rule i).key
        = ((pkt.payload.drop pos).take step.payloadLen).map v3Fold := by
      have hfold : List.Forall₂ (fun left right => v3Fold left = v3Fold right)
          ((pkt.payload.drop pos).take step.payloadLen) step.payload :=
        hagree.imp (fun _ _ h => v3Fold_eq_of_agrees h)
      have hmap : ((pkt.payload.drop pos).take step.payloadLen).map v3Fold
          = step.payload.map v3Fold := by
        rw [← forall₂_eq_eq_eq, forall₂_map_left_iff, forall₂_map_right_iff]
        exact hfold
      rw [hmap, patternOf, hs]
      simp only [AcPattern.key, take_take, min_self]
      rw [take_of_length_le (le_of_eq hv.payload_length)]
    rw [hkey, take_add, map_append]
    exact suffix_append _ _
  · rw [patternOf, hs]
    simp [emissionOf, AcPattern.output]

/-- **No match escapes.**  A rule of an installed set matches exactly when an occurrence hits it. -/
theorem exists_hit_iff {set : RuleSet} (h : Installed set) (pkt : Packet) (rule : RuleK) :
    (∃ e, IsOccurrence (patternsOf set) pkt.payload e ∧ Hit set pkt e rule) ↔
      rule ∈ set.rules ∧ Matches set pkt rule := by
  constructor
  · rintro ⟨e, _, hit⟩
    have hmem := mem_of_getElem? hit.lookup
    obtain ⟨step, hs, _, hsteps⟩ := h.first_step hmem
    obtain ⟨step', hs', hat, hplace⟩ := hit.chain
    rw [hs] at hs'
    cases hs'
    refine ⟨hmem, hit.gate, ?_⟩
    have hcan : CanPlace pkt.payload 0 (set.stepsOf rule) := by
      rw [hsteps, canPlace_cons]
      exact ⟨e.start, hat, hplace⟩
    exact hcan
  · rintro ⟨hmem, hgate, hcan⟩
    obtain ⟨i, hi⟩ := getElem?_of_mem hmem
    obtain ⟨step, hs, hv, hsteps⟩ := h.first_step hmem
    have hcan' : CanPlace pkt.payload 0 (set.stepsOf rule) := hcan
    rw [hsteps, canPlace_cons] at hcan'
    obtain ⟨pos, hat, hplace⟩ := hcan'
    exact ⟨_, isOccurrence_of_stepAt hi hs hv hat, rfl, hi, hgate, step, hs, hat, hplace⟩

/-! ### The best rule -/

/-- `best` is the best of the rules in `S`. -/
def BestOf (S : RuleK → Prop) (best : Best) : Prop :=
  (∃ rule, S rule ∧ rule.key < sentinel ∧ (∀ rule', S rule' → rule.key ≤ rule'.key) ∧
    best = ⟨rule.appid, rule.priority, rule.signatureRuleId⟩) ∨
  ((∀ rule, S rule → ¬ rule.key < sentinel) ∧ best = {})

variable {best : Best} {S : RuleK → Prop}

theorem BestOf.isBest (h : BestOf S best) : IsBest S best.appid best.priority := by
  rcases h with ⟨rule, hS, hlt, hle, rfl⟩ | ⟨hnone, rfl⟩
  · exact .inl ⟨rule, hS, hlt, hle, rfl, rfl⟩
  · exact .inr ⟨hnone, rfl, rfl⟩

variable {S' : RuleK → Prop}

/-- One more rule: the lesser of it and the best so far. -/
theorem BestOf.update (h : BestOf S best) (rule : RuleK)
    (hS : ∀ r, S' r ↔ S r ∨ r = rule) : BestOf S' (best.update rule) := by
  rcases h with ⟨r₀, hr₀, hlt, hle, rfl⟩ | ⟨hnone, rfl⟩
  · by_cases hnew : rule.key < r₀.key
    · refine .inl ⟨rule, (hS rule).mpr (.inr rfl), hnew.trans hlt, ?_, ?_⟩
      · intro r hr
        rcases (hS r).mp hr with hr | rfl
        · exact hnew.le.trans (hle r hr)
        · exact le_refl _
      · rw [RuleK.key, RuleK.key, Prod.Lex.toLex_lt_toLex] at hnew
        exact if_pos hnew
    · refine .inl ⟨r₀, (hS r₀).mpr (.inl hr₀), hlt, ?_, ?_⟩
      · intro r hr
        rcases (hS r).mp hr with hr | rfl
        · exact hle r hr
        · exact not_lt.mp hnew
      · rw [RuleK.key, RuleK.key, Prod.Lex.toLex_lt_toLex] at hnew
        exact if_neg hnew
  · by_cases hnew : rule.key < sentinel
    · refine .inl ⟨rule, (hS rule).mpr (.inr rfl), hnew, ?_, ?_⟩
      · intro r hr
        rcases (hS r).mp hr with hr | rfl
        · exact hnew.le.trans (not_lt.mp (hnone r hr))
        · exact le_refl _
      · rw [RuleK.key, sentinel, Prod.Lex.toLex_lt_toLex] at hnew
        exact if_pos hnew
    · refine .inr ⟨?_, ?_⟩
      · intro r hr
        rcases (hS r).mp hr with hr | rfl
        · exact hnone r hr
        · exact hnew
      · rw [RuleK.key, sentinel, Prod.Lex.toLex_lt_toLex] at hnew
        exact if_neg hnew

theorem BestOf.congr (h : BestOf S best) (hS : ∀ r, S' r ↔ S r) : BestOf S' best := by
  have heq : S' = S := funext fun r => propext (hS r)
  rw [heq]
  exact h

/-- The rules hit by a list of occurrences. -/
def HitBy (set : RuleSet) (pkt : Packet) (seen : List Emission) (rule : RuleK) : Prop :=
  ∃ e ∈ seen, Hit set pkt e rule

/-- `evaluate_first` keeps the best rule the best of the rules hit so far. -/
theorem evaluateFirst_keeps {set : RuleSet} (h : Installed set) (pkt : Packet) :
    EmitKeeps (evaluateFirst set pkt) (IsOccurrence (patternsOf set) pkt.payload)
      (fun best seen => Short pkt.payload → BestOf (HitBy set pkt seen) best) := by
  intro e he best seen work hbest
  refine (evaluateFirst_meets h pkt he best work).imp (fun r hr => ⟨hr.1, fun hshort => ?_⟩)
  rcases hr.2 hshort with ⟨rule, hit, hval⟩ | ⟨hno, hval⟩
  · rw [hval]
    refine (hbest hshort).update rule (fun r => ?_)
    simp only [HitBy, mem_append, mem_singleton]
    constructor
    · rintro ⟨e', he' | rfl, hit'⟩
      · exact .inl ⟨e', he', hit'⟩
      · have := hit'.lookup
        rw [hit.lookup] at this
        exact .inr (Option.some.inj this).symm
    · rintro (⟨e', he', hit'⟩ | rfl)
      · exact ⟨e', .inl he', hit'⟩
      · exact ⟨e, .inr rfl, hit⟩
  · rw [hval]
    refine (hbest hshort).congr (fun r => ?_)
    simp only [HitBy, mem_append, mem_singleton]
    constructor
    · rintro ⟨e', he' | rfl, hit'⟩
      · exact ⟨e', he', hit'⟩
      · exact absurd hit' (hno r)
    · rintro ⟨e', he', hit'⟩
      exact ⟨e', .inl he', hit'⟩

/-- Nothing matches an empty payload. -/
theorem not_matches_nil {set : RuleSet} (h : Installed set)
    (hnil : pkt.payload = []) (hr : rule ∈ set.rules) : ¬ Matches set pkt rule := by
  rintro ⟨_, positions, hplaced⟩
  obtain ⟨step, _, hv, hsteps⟩ := h.first_step hr
  have hcan : CanPlace pkt.payload 0 (set.stepsOf rule) := ⟨positions, hplaced⟩
  rw [hsteps, canPlace_cons] at hcan
  obtain ⟨pos, hat, _⟩ := hcan
  have h1 := hat.bytes.1
  have h2 := hv.payload_pos
  rw [hnil, length_nil] at h1
  omega

/-- **The answer of a match.**  Under an installed set whose mode is not OFF, a match within the
    budget gives the best of the matching rules; when the budget runs out it gives none. -/
theorem matchPayload_isBest {set : RuleSet} (h : Installed set) (hmode : set.mode ≠ JMX_V3_MODE_OFF)
    (pkt : Packet) :
    if (matchPayload (some set) pkt).exhausted then
      (matchPayload (some set) pkt).appid = 0 ∧ (matchPayload (some set) pkt).priority = U32_MAX
    else IsBest (fun rule => rule ∈ set.rules ∧ Matches set pkt rule)
      (matchPayload (some set) pkt).appid (matchPayload (some set) pkt).priority := by
  unfold matchPayload
  by_cases hnil : pkt.payload = []
  · simp only [hnil, isEmpty_nil, if_true, Bool.false_eq_true, if_false]
    exact .inr ⟨fun rule hr => absurd hr.2 (not_matches_nil h hnil hr.1), rfl, rfl⟩
  have hempty : pkt.payload.isEmpty = false := by simpa using hnil
  simp only [hempty, Bool.false_eq_true, if_false, hmode]
  cases hac : set.ac with
  | none =>
    have hrules : set.rules = [] := by
      by_contra hne
      obtain ⟨_, _, hac', _⟩ := h.automaton.built hne
      rw [hac] at hac'
      cases hac'
    refine .inr ⟨fun rule hr => ?_, rfl, rfl⟩
    rw [hrules] at hr
    exact absurd hr.1 not_mem_nil
  | some ac =>
    have hrules : set.rules ≠ [] := by
      intro hnone
      rw [h.automaton.empty hnone] at hac
      cases hac
    obtain ⟨alloc, ac', hac', hbuild⟩ := h.automaton.built hrules
    rw [hac] at hac'
    cases hac'
    have hinit : Short pkt.payload → BestOf (HitBy set pkt []) {} := by
      refine fun _ => .inr ⟨fun rule hr => ?_, rfl⟩
      obtain ⟨e, he, _⟩ := hr
      exact absurd he not_mem_nil
    have hscan := acScan_meets JMX_V3_PACKET_WORK_BUDGET hbuild
      (fun p hp => h.pattern_length hp) hnil (evaluateFirst_keeps h pkt) hinit
    cases hres : acScan ac pkt.payload (evaluateFirst set pkt) {} JMX_V3_PACKET_WORK_BUDGET with
    | error rc =>
      have hrc : rc = .E2BIG := hscan.of_eq_error hres
      simp [hres, hrc]
    | ok res =>
      obtain ⟨best, work⟩ := res
      obtain ⟨hcost, all, hall, hmem⟩ := hscan.of_eq_ok hres
      simp only [hres, Bool.false_eq_true, if_false]
      -- the scan paid for every byte, so the payload is short
      have hshort : Short pkt.payload := by
        simp only [JMX_V3_PACKET_WORK_BUDGET] at hcost
        show pkt.payload.length < 2147483648
        omega
      refine BestOf.isBest ((hall hshort).congr (fun rule => ?_))
      rw [← exists_hit_iff h pkt rule]
      simp only [HitBy, hmem]

end DreamingOS.V3
