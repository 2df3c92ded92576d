import DreamingOS.V3.MatchSpec

namespace DreamingOS.V3

open Outcome List
open Function (update update_self update_of_ne)

/-!
# v3 chain rules — the backtracking search

`complete_chain` finds positions for the later steps of a rule whenever there are any.

* `seekPos_meets` — the loop over positions finds the least candidate from a position on;
* `ChainState.Alive` — the invariant: some open level has a position to try from which the
  remaining steps can be placed.  Giving up an exhausted level (`alive_back`), opening a level
  (`openLevel_some`) and placing a step at the least position left (`alive_advance`) keep it;
* `chainLoop_meets` — so the loop answers whether its first state is alive;
* `chainLoop_budget` — for a payload of any length the loop stops, and only the budget can cut it
  short;
* `completeChain_meets` — the two together.
-/

variable {payload : List UInt8} {steps : List StepK}

/-- A position the loop over positions may stop at. -/
def Candidate (payload : List UInt8) (step : StepK) (prevEnd windowEnd pos : ℕ) : Prop :=
  pos + step.payloadLen ≤ windowEnd ∧ BytesAt payload step pos ∧ prevEnd ≤ pos + step.payloadLen

variable {step : StepK}

/-- The loop over positions finds the least candidate from `pos` on, and pays for it. -/
theorem seekPos_meets (hv : step.Valid) {prevEnd windowEnd : ℕ}
    (hend : windowEnd ≤ payload.length) : ∀ {n pos work : ℕ}, n = windowEnd + 1 - pos →
    Meets OnlyBudget
      (fun r => r.2 ≤ work ∧
        (r.1 = none → ∀ q, pos ≤ q → ¬ Candidate payload step prevEnd windowEnd q) ∧
        ∀ p, r.1 = some p → r.2 < work ∧ pos ≤ p ∧ Candidate payload step prevEnd windowEnd p ∧
          ∀ q, pos ≤ q → q < p → ¬ Candidate payload step prevEnd windowEnd q)
      (seekPos step payload prevEnd windowEnd n pos work) := by
  have hlen := hv.payload_pos
  intro n
  induction n with
  | zero =>
    intro pos work hn
    refine ⟨le_refl _, fun _ q hq hc => ?_, fun p hp => by cases hp⟩
    have := hc.1
    omega
  | succ n ih =>
    intro pos work hn
    rw [seekPos]
    refine Meets.ite (fun hroom => ?_) (fun hroom => Meets.ite (fun hback => ?_) (fun hback => ?_))
    · refine ⟨le_refl _, fun _ q hq hc => ?_, fun p hp => by cases hp⟩
      have := hc.1
      omega
    · refine (ih (by omega)).imp (fun r hr => ⟨hr.1, fun hnone q hq => ?_, fun p hp => ?_⟩)
      · rcases Nat.eq_or_lt_of_le hq with rfl | hlt
        · exact fun hc => by have := hc.2.2; omega
        · exact hr.2.1 hnone q hlt
      · obtain ⟨h1, h2, h3, h4⟩ := hr.2.2 p hp
        refine ⟨h1, by omega, h3, fun q hq hqp => ?_⟩
        rcases Nat.eq_or_lt_of_le hq with rfl | hlt
        · exact fun hc => by have := hc.2.2; omega
        · exact h4 q hlt hqp
    · refine Meets.bind (exactAt_meets hv payload pos work) ?_
      rintro ⟨matched, w⟩ ⟨hw, hspent, hmatch⟩
      simp only at hw hspent hmatch
      have hcost := hspent (by omega)
      cases matched with
      | true =>
        refine ⟨hw, fun hnone => by simp at hnone, fun p hp => ?_⟩
        cases hp
        exact ⟨hcost, le_refl _, ⟨by omega, hmatch.mp rfl, by omega⟩, fun q hq hqp => by omega⟩
      | false =>
        have hno : ¬ BytesAt payload step pos := fun h => by simpa using hmatch.mpr h
        refine (ih (by omega)).imp (fun r hr => ⟨by omega, fun hnone q hq => ?_, fun p hp => ?_⟩)
        · rcases Nat.eq_or_lt_of_le hq with rfl | hlt
          · exact fun hc => hno hc.2.1
          · exact hr.2.1 hnone q hlt
        · obtain ⟨h1, h2, h3, h4⟩ := hr.2.2 p hp
          refine ⟨by omega, by omega, h3, fun q hq hqp => ?_⟩
          rcases Nat.eq_or_lt_of_le hq with rfl | hlt
          · exact fun hc => hno hc.2.1
          · exact h4 q hlt hqp

/-- Level `j` may still try `pos`. -/
def ChainState.Remaining (payload : List UInt8) (s : ChainState) (step : StepK) (j pos : ℕ) :
    Prop :=
  StepAt payload step (s.ends (j - 1)) pos ∧ (s.nextPos j = U32_MAX ∨ s.nextPos j ≤ pos)

/-- Level `j` has a position to try from which the remaining steps can be placed. -/
def ChainState.AliveAt (payload : List UInt8) (steps : List StepK) (s : ChainState) (j : ℕ) :
    Prop :=
  ∃ step pos, steps[j]? = some step ∧ s.Remaining payload step j pos ∧
    CanPlace payload (pos + step.payloadLen) (steps.drop (j + 1))

variable {s : ChainState}

theorem aliveAt_iff {j : ℕ} (hstep : steps[j]? = some step) :
    s.AliveAt payload steps j ↔ ∃ pos, s.Remaining payload step j pos ∧
      CanPlace payload (pos + step.payloadLen) (steps.drop (j + 1)) := by
  constructor
  · rintro ⟨step', pos, hs', h⟩
    rw [hstep] at hs'
    cases hs'
    exact ⟨pos, h⟩
  · rintro ⟨pos, h⟩
    exact ⟨step, pos, hstep, h⟩

/-- Some open level has such a position. -/
def ChainState.Alive (payload : List UInt8) (steps : List StepK) (s : ChainState) : Prop :=
  ∃ j, 1 ≤ j ∧ j ≤ s.level ∧ s.AliveAt payload steps j

/-- The window of level `j` is the one of its step, and its next position lies behind the start. -/
def ChainState.Opened (payload : List UInt8) (s : ChainState) (step : StepK) (j : ℕ) : Prop :=
  ∃ start, stepWindow step payload.length (s.ends (j - 1)) = .ok (start, s.windowEnd j) ∧
    start ≤ s.nextPos j

/-- What the search keeps true of its local variables. -/
structure ChainState.Inv (payload : List UInt8) (steps : List StepK) (s : ChainState) : Prop where
  level_lt : s.level < steps.length
  ends_le : ∀ j, j < s.level → s.ends j ≤ payload.length
  opened : ∀ j step, 1 ≤ j → j ≤ s.level → steps[j]? = some step → s.nextPos j ≠ U32_MAX →
    s.Opened payload step j

/-- A level in an opened window may still try exactly the candidates from `nextPos` on. -/
theorem remaining_iff (hv : step.Valid) (hshort : Short payload)
    {j : ℕ} (hends : s.ends (j - 1) ≤ payload.length) (hopen : s.Opened payload step j)
    (hnext : s.nextPos j ≠ U32_MAX) (pos : ℕ) :
    s.Remaining payload step j pos ↔
      s.nextPos j ≤ pos ∧ Candidate payload step (s.ends (j - 1)) (s.windowEnd j) pos := by
  obtain ⟨start, hwin, hstart⟩ := hopen
  have hspec : (∃ wstart wstop, stepWindow step payload.length (s.ends (j - 1))
      = .ok (wstart, wstop) ∧ wstart ≤ pos ∧ pos + step.payloadLen ≤ wstop) ↔
      InWindow step payload.length (s.ends (j - 1)) pos :=
    stepWindow_spec hv (lt_of_le_of_lt hends hshort) pos
  simp only [ChainState.Remaining, stepAt_iff, hnext, false_or, Candidate]
  constructor
  · rintro ⟨⟨hin, hbytes, hord⟩, hge⟩
    obtain ⟨wstart, wstop, hw, _, hstop⟩ := hspec.mpr hin
    rw [hwin] at hw
    cases hw
    exact ⟨hge, hstop, hbytes, hord⟩
  · rintro ⟨hge, hstop, hbytes, hord⟩
    exact ⟨⟨hspec.mp ⟨start, _, hwin, by omega, hstop⟩, hbytes, hord⟩, hge⟩

/-- Giving up a level that has nothing left to try. -/
theorem alive_back (hdead : ¬ s.AliveAt payload steps s.level) :
    s.back.Alive payload steps ↔ s.Alive payload steps := by
  have hsame : ∀ j, j < s.level → (s.back.AliveAt payload steps j ↔ s.AliveAt payload steps j) := by
    intro j hj
    simp only [ChainState.AliveAt, ChainState.Remaining, ChainState.back,
      update_of_ne (by omega : j ≠ s.level)]
  constructor
  · rintro ⟨j, h1, hj, halive⟩
    have hj' : j ≤ s.level - 1 := hj
    exact ⟨j, h1, by omega, (hsame j (by omega)).mp halive⟩
  · rintro ⟨j, h1, hj, halive⟩
    rcases Nat.eq_or_lt_of_le hj with rfl | hlt
    · exact absurd halive hdead
    · exact ⟨j, h1, by show j ≤ s.level - 1; omega, (hsame j hlt).mpr halive⟩

theorem inv_back (h : s.Inv payload steps) : s.back.Inv payload steps where
  level_lt := by
    have := h.level_lt
    show s.level - 1 < steps.length
    omega
  ends_le := by
    intro j hj
    have hj' : j < s.level - 1 := hj
    exact h.ends_le j (by omega)
  opened := by
    intro j step h1 hj hstep hnext
    have hj' : j ≤ s.level - 1 := hj
    have hne : j ≠ s.level := by omega
    simp only [ChainState.back, update_of_ne hne] at hnext
    simp only [ChainState.Opened, ChainState.back, update_of_ne hne]
    exact h.opened j step h1 (by omega) hstep hnext

/-- The room test of a fresh level fails only where no position is left. -/
theorem openLevel_none (h : s.Inv payload steps) (hshort : Short payload)
    (hlevel : s.level ≠ 0) (hv : step.Valid) (hstep : steps[s.level]? = some step)
    (hopen : openLevel step payload.length s = none) : ¬ s.AliveAt payload steps s.level := by
  rw [aliveAt_iff hstep]
  rintro ⟨pos, ⟨hat, _⟩, _⟩
  have hends := h.ends_le (s.level - 1) (Nat.sub_one_lt hlevel)
  obtain ⟨wstart, wstop, hwin, hstart, hstop⟩ :=
    (stepWindow_spec hv (lt_of_le_of_lt hends hshort) pos).mpr (stepAt_iff.mp hat).1
  unfold openLevel at hopen
  split at hopen
  · rw [hwin] at hopen
    simp only at hopen
    split at hopen
    · omega
    · cases hopen
  · cases hopen

/-- Opening a level changes nothing but its own window. -/
theorem openLevel_some {s s' : ChainState} (h : s.Inv payload steps) (hshort : Short payload)
    (hlevel : s.level ≠ 0) (hv : step.Valid) (hstep : steps[s.level]? = some step)
    (hopen : openLevel step payload.length s = some s') :
    s'.level = s.level ∧ s'.ends = s.ends ∧ s'.Inv payload steps ∧
      s'.nextPos s.level ≠ U32_MAX ∧ s'.Opened payload step s.level ∧
      (s'.Alive payload steps ↔ s.Alive payload steps) := by
  unfold openLevel at hopen
  split at hopen
  · next hfresh =>
    split at hopen
    · cases hopen
    next start stop hwin =>
    split at hopen
    · cases hopen
    next hroom =>
    cases hopen
    obtain ⟨hle, hstople⟩ := stepWindow_le hwin
    have hnext : start ≠ U32_MAX := by
      have : payload.length < 2147483648 := hshort
      simp only [U32_MAX]
      omega
    have hopened : ChainState.Opened payload
        { s with
          nextPos := update s.nextPos s.level start
          windowEnd := update s.windowEnd s.level stop } step s.level := by
      refine ⟨start, ?_, ?_⟩
      · simp only [update_self]
        exact hwin
      · simp only [update_self, le_refl]
    refine ⟨rfl, rfl, ⟨h.level_lt, h.ends_le, ?_⟩, by simpa using hnext, hopened, ?_⟩
    · intro j step' h1 hj hstep' hne
      rcases Nat.eq_or_lt_of_le hj with heq | hlt
      · have heq' : j = s.level := heq
        subst heq'
        rw [hstep] at hstep'
        cases hstep'
        exact hopened
      · have hlt' : j < s.level := hlt
        have hjne : j ≠ s.level := by omega
        simp only [update_of_ne hjne] at hne
        simp only [ChainState.Opened, update_of_ne hjne]
        exact h.opened j step' h1 (by omega) hstep' hne
    · -- the fresh level may try every position of its window, before and after
      have hsame : ∀ j, 1 ≤ j → j ≤ s.level → (ChainState.AliveAt payload steps
          { s with
            nextPos := update s.nextPos s.level start
            windowEnd := update s.windowEnd s.level stop } j ↔
          s.AliveAt payload steps j) := by
        intro j h1 hj
        by_cases hjne : j = s.level
        · subst hjne
          rw [aliveAt_iff hstep, aliveAt_iff hstep]
          simp only [ChainState.Remaining, update_self, hfresh, true_or, and_true]
          constructor
          · rintro ⟨pos, ⟨hat, _⟩, hplace⟩
            exact ⟨pos, hat, hplace⟩
          · rintro ⟨pos, hat, hplace⟩
            refine ⟨pos, ⟨hat, .inr ?_⟩, hplace⟩
            have hends := h.ends_le (s.level - 1) (Nat.sub_one_lt hlevel)
            obtain ⟨wstart, wstop, hw, hge, _⟩ :=
              (stepWindow_spec hv (lt_of_le_of_lt hends hshort) pos).mpr (stepAt_iff.mp hat).1
            rw [hwin] at hw
            cases hw
            exact hge
        · simp only [ChainState.AliveAt, ChainState.Remaining, update_of_ne hjne]
      constructor
      · rintro ⟨j, h1, hj, halive⟩
        exact ⟨j, h1, hj, (hsame j h1 hj).mp halive⟩
      · rintro ⟨j, h1, hj, halive⟩
        exact ⟨j, h1, hj, (hsame j h1 hj).mpr halive⟩
  · next hnext =>
    cases hopen
    exact ⟨rfl, rfl, h, hnext, h.opened s.level step (by omega) (le_refl _) hstep hnext, Iff.rfl⟩

/-- Placing a step and turning to the next level: what was alive stays alive when the place is the
    least one left. -/
theorem alive_advance (hlevel : s.level ≠ 0)
    (hstep : steps[s.level]? = some step) {pos : ℕ} (hpos : s.Remaining payload step s.level pos)
    (hleast : ∀ q, q < pos → ¬ s.Remaining payload step s.level q)
    (hnext : s.nextPos s.level ≠ U32_MAX) (hfit : pos + 1 ≠ U32_MAX)
    (hlast : s.level + 1 < steps.length) :
    (s.place pos step.payloadLen).advance.Alive payload steps ↔ s.Alive payload steps := by
  have hbelow : ∀ j, j < s.level → ((s.place pos step.payloadLen).advance.AliveAt payload steps j ↔
        s.AliveAt payload steps j) := by
    intro j hj
    simp only [ChainState.AliveAt, ChainState.Remaining, ChainState.advance, ChainState.place,
      update_of_ne (by omega : j ≠ s.level + 1), update_of_ne (by omega : j ≠ s.level),
      update_of_ne (by omega : j - 1 ≠ s.level)]
  -- the current level keeps the positions behind `pos`, the next one the rest of the chain
  have hhere : (s.place pos step.payloadLen).advance.AliveAt payload steps s.level ↔
      ∃ q, pos < q ∧ s.Remaining payload step s.level q ∧
        CanPlace payload (q + step.payloadLen) (steps.drop (s.level + 1)) := by
    rw [aliveAt_iff hstep]
    simp only [ChainState.Remaining, ChainState.advance, ChainState.place,
      update_of_ne (by omega : s.level ≠ s.level + 1), update_self,
      update_of_ne (by omega : s.level - 1 ≠ s.level), hfit, hnext, false_or]
    have hge := hpos.2.resolve_left hnext
    constructor
    · rintro ⟨q, ⟨hat, hq⟩, hplace⟩
      exact ⟨q, by omega, ⟨hat, by omega⟩, hplace⟩
    · rintro ⟨q, hq, ⟨hat, _⟩, hplace⟩
      exact ⟨q, ⟨hat, by omega⟩, hplace⟩
  have hthere : (s.place pos step.payloadLen).advance.AliveAt payload steps (s.level + 1) ↔
      CanPlace payload (pos + step.payloadLen) (steps.drop (s.level + 1)) := by
    rw [aliveAt_iff (getElem?_eq_getElem hlast), drop_eq_getElem_cons hlast, canPlace_cons]
    simp only [ChainState.Remaining, ChainState.advance, ChainState.place,
      update_self, Nat.add_sub_cancel, true_or, and_true]
  constructor
  · rintro ⟨j, h1, hj, halive⟩
    have hj' : j ≤ s.level + 1 := hj
    rcases Nat.lt_or_ge j s.level with hlt | hge
    · exact ⟨j, h1, by omega, (hbelow j hlt).mp halive⟩
    · refine ⟨s.level, by omega, le_refl _, step, ?_⟩
      rcases Nat.eq_or_lt_of_le hge with rfl | hgt
      · obtain ⟨q, _, hrem, hplace⟩ := hhere.mp halive
        exact ⟨q, hstep, hrem, hplace⟩
      · have : j = s.level + 1 := by omega
        subst this
        exact ⟨pos, hstep, hpos, hthere.mp halive⟩
  · rintro ⟨j, h1, hj, halive⟩
    rcases Nat.eq_or_lt_of_le hj with rfl | hlt
    · obtain ⟨q, hrem, hplace⟩ := (aliveAt_iff hstep).mp halive
      have hqge : pos ≤ q := by
        by_contra hlt
        exact hleast q (by omega) hrem
      rcases Nat.eq_or_lt_of_le hqge with rfl | hqgt
      · exact ⟨s.level + 1, by omega, le_refl _, hthere.mpr hplace⟩
      · exact ⟨s.level, h1, Nat.le_succ _, hhere.mpr ⟨q, hqgt, hrem, hplace⟩⟩
    · exact ⟨j, h1, by show j ≤ s.level + 1; omega, (hbelow j hlt).mpr halive⟩

theorem inv_advance (h : s.Inv payload steps) {pos : ℕ}
    (hstep : steps[s.level]? = some step) (hlast : s.level + 1 < steps.length)
    (hfit : pos + step.payloadLen ≤ payload.length)
    (hopen : s.Opened payload step s.level) (hge : s.nextPos s.level ≤ pos) :
    (s.place pos step.payloadLen).advance.Inv payload steps where
  level_lt := hlast
  ends_le := by
    intro j hj
    have hj' : j < s.level + 1 := hj
    simp only [ChainState.advance, ChainState.place]
    by_cases hjl : j = s.level
    · subst hjl
      rw [update_self]
      exact hfit
    · rw [update_of_ne hjl]
      exact h.ends_le j (by omega)
  opened := by
    intro j step' h1 hj hstep' hne
    have hj' : j ≤ s.level + 1 := hj
    simp only [ChainState.advance, ChainState.place] at hne
    simp only [ChainState.Opened, ChainState.advance, ChainState.place]
    by_cases hjn : j = s.level + 1
    · subst hjn
      rw [update_self] at hne
      exact absurd rfl hne
    rw [update_of_ne hjn] at hne ⊢
    by_cases hjl : j = s.level
    · subst hjl
      rw [hstep] at hstep'
      cases hstep'
      rw [update_self, update_of_ne (by omega)]
      obtain ⟨start, hwin, hstart⟩ := hopen
      exact ⟨start, hwin, by omega⟩
    · rw [update_of_ne hjl] at hne ⊢
      rw [update_of_ne (by omega)]
      exact h.opened j step' h1 (by omega) hstep' hne

variable {set : RuleSet} {rule : RuleK}

/-- **The backtracking loop.**  With fuel for the budget and the level, the loop stops only for want
    of budget, and answers whether some level is alive. -/
theorem chainLoop_meets (hvalid : ∀ step ∈ set.steps, step.Valid)
    (hlen : (set.stepsOf rule).length = rule.stepCount) (hshort : Short payload) :
    ∀ {fuel : ℕ} {s : ChainState} {work : ℕ}, s.Inv payload (set.stepsOf rule) →
      2 * work + s.level < fuel →
      Meets OnlyBudget
        (fun r => r.2 ≤ work ∧ (r.1 = true ↔ s.Alive payload (set.stepsOf rule)))
        (chainLoop set rule payload fuel s work) := by
  intro fuel
  induction fuel with
  | zero => intro s work _ hfuel; omega
  | succ fuel ih =>
    intro s work hinv hfuel
    rw [chainLoop]
    refine Meets.ite (fun hzero => ?_) (fun hlevel => ?_)
    · refine ⟨le_refl _, ?_⟩
      simp only [Bool.false_eq_true, false_iff]
      rintro ⟨j, h1, hj, _⟩
      omega
    have hlt : s.level < rule.stepCount := hlen ▸ hinv.level_lt
    have hget : set.steps[rule.firstStep + s.level]? = (set.stepsOf rule)[s.level]? := by
      rw [RuleSet.stepsOf, getElem?_take_of_lt hlt, getElem?_drop]
    obtain ⟨step, hstep⟩ : ∃ step, (set.stepsOf rule)[s.level]? = some step :=
      ⟨_, getElem?_eq_getElem hinv.level_lt⟩
    have hv : step.Valid := by
      have hmem : step ∈ set.stepsOf rule := mem_of_getElem? hstep
      exact hvalid step (mem_of_mem_drop (mem_of_mem_take hmem))
    rw [hget, hstep]
    simp only
    cases hopen : openLevel step payload.length s with
    | none =>
      have hdead := openLevel_none hinv hshort hlevel hv hstep hopen
      refine (ih (inv_back hinv) ?_).imp (fun r hr => ⟨hr.1, ?_⟩)
      · show 2 * work + (s.level - 1) < fuel
        omega
      · rw [hr.2, alive_back hdead]
    | some s' =>
      obtain ⟨hl, he, hinv', hnext, hopened, halive⟩ :=
        openLevel_some hinv hshort hlevel hv hstep hopen
      simp only
      rw [hl, he]
      have hlevel' : s'.level ≠ 0 := hl ▸ hlevel
      rw [← hl] at hnext hopened hstep hlt hget ⊢
      rw [← he]
      have hends := hinv'.ends_le (s'.level - 1) (Nat.sub_one_lt hlevel')
      have hstop : s'.windowEnd s'.level ≤ payload.length := by
        obtain ⟨_, hwin, _⟩ := hopened
        exact (stepWindow_le hwin).2
      have hrem := remaining_iff hv hshort hends hopened hnext
      refine Meets.bind (seekPos_meets hv hstop rfl) ?_
      rintro ⟨found, w⟩ ⟨hw, hnone, hsome⟩
      simp only at hw hnone hsome
      cases found with
      | none =>
        have hdead : ¬ s'.AliveAt payload (set.stepsOf rule) s'.level := by
          rw [aliveAt_iff hstep]
          rintro ⟨q, hq, _⟩
          obtain ⟨hge, hcand⟩ := (hrem q).mp hq
          exact hnone rfl q hge hcand
        refine (ih (inv_back hinv') ?_).imp
          (fun r hr => ⟨by have := hr.1; omega, ?_⟩)
        · show 2 * w + (s'.level - 1) < fuel
          omega
        · rw [hr.2, alive_back hdead, halive]
      | some pos =>
        obtain ⟨hcost, hge, hcand, hleast⟩ := hsome pos rfl
        have hpos : s'.Remaining payload step s'.level pos := (hrem pos).mpr ⟨hge, hcand⟩
        have hfit : pos + step.payloadLen ≤ payload.length := le_trans hcand.1 hstop
        refine Meets.ite (fun hlast => ?_) (fun hmore => ?_)
        · refine ⟨hw, ?_⟩
          simp only [true_iff]
          refine halive.mp ⟨s'.level, Nat.one_le_iff_ne_zero.mpr hlevel', le_refl _,
            step, pos, hstep, hpos, ?_⟩
          rw [drop_of_length_le (by omega)]
          exact canPlace_nil _ _
        · have hroom : s'.level + 1 < (set.stepsOf rule).length := by omega
          refine (ih (inv_advance hinv' hstep hroom hfit hopened hge) ?_).imp
            (fun r hr => ⟨by have := hr.1; omega, ?_⟩)
          · show 2 * w + (s'.level + 1) < fuel
            omega
          · rw [hr.2, ← halive]
            refine alive_advance hlevel' hstep hpos (fun q hq hr => ?_) hnext ?_ hroom
            · obtain ⟨hqge, hqcand⟩ := (hrem q).mp hr
              exact hleast q hqge hq hqcand
            · have : payload.length < 2147483648 := hshort
              simp only [U32_MAX]
              omega

/-- The windows the search has filled in end within the payload. -/
def ChainState.Bounded (payload : List UInt8) (s : ChainState) : Prop :=
  ∀ j, 1 ≤ j → j ≤ s.level → s.nextPos j ≠ U32_MAX → s.windowEnd j ≤ payload.length

theorem openLevel_bounded {s s' : ChainState} (h : s.Bounded payload) (hlevel : s.level ≠ 0)
    (hopen : openLevel step payload.length s = some s') :
    s'.level = s.level ∧ s'.Bounded payload ∧ s'.windowEnd s.level ≤ payload.length := by
  unfold openLevel at hopen
  split at hopen
  · split at hopen
    · cases hopen
    next start stop hwin =>
    split at hopen
    · cases hopen
    cases hopen
    have hstop := (stepWindow_le hwin).2
    refine ⟨rfl, fun j h1 hj hne => ?_, by simpa using hstop⟩
    by_cases hjl : j = s.level
    · subst hjl
      simpa using hstop
    · simp only [update_of_ne hjl] at hne ⊢
      exact h j h1 hj hne
  · next hnext =>
    cases hopen
    exact ⟨rfl, h, h s.level (Nat.one_le_iff_ne_zero.mpr hlevel) (le_refl _) hnext⟩

theorem ChainState.Bounded.back (h : s.Bounded payload) : s.back.Bounded payload := by
  intro j h1 hj hne
  have hj' : j ≤ s.level - 1 := hj
  have hjl : j ≠ s.level := by omega
  simp only [ChainState.back, update_of_ne hjl] at hne ⊢
  exact h j h1 (by omega) hne

theorem ChainState.Bounded.advance (h : s.Bounded payload) (hend : s.windowEnd s.level ≤ payload.length)
    {pos len : ℕ} : (s.place pos len).advance.Bounded payload := by
  intro j h1 hj hne
  have hj' : j ≤ s.level + 1 := hj
  simp only [ChainState.advance, ChainState.place] at hne ⊢
  by_cases hjn : j = s.level + 1
  · subst hjn
    rw [update_self] at hne
    exact absurd rfl hne
  by_cases hjl : j = s.level
  · subst hjl
    exact hend
  · rw [update_of_ne hjn, update_of_ne hjl] at hne
    exact h j h1 (by omega) hne

/-- The step of a level is one of the set. -/
theorem stepsOf_lt (hlen : (set.stepsOf rule).length = rule.stepCount) {j : ℕ} (hj : j < rule.stepCount) :
    rule.firstStep + j < set.steps.length := by
  rw [RuleSet.stepsOf, length_take, length_drop] at hlen
  omega

/-- Whatever the length of the payload, the loop stops only for want of budget: a step that is
    placed has been paid for, and giving up a level lowers the level. -/
theorem chainLoop_budget (hvalid : ∀ step ∈ set.steps, step.Valid)
    (hlen : (set.stepsOf rule).length = rule.stepCount) :
    ∀ {fuel : ℕ} {s : ChainState} {work : ℕ}, s.level < rule.stepCount → s.Bounded payload →
      2 * work + s.level < fuel →
      Meets OnlyBudget (fun r => r.2 ≤ work) (chainLoop set rule payload fuel s work) := by
  intro fuel
  induction fuel with
  | zero => intro s work _ _ hfuel; omega
  | succ fuel ih =>
    intro s work hlt hbounded hfuel
    rw [chainLoop]
    refine Meets.ite (fun hzero => le_refl _) (fun hlevel => ?_)
    have hget := stepsOf_lt hlen hlt
    have hv := hvalid _ (getElem_mem hget)
    rw [getElem?_eq_getElem hget]
    simp only
    cases hopen : openLevel set.steps[rule.firstStep + s.level] payload.length s with
    | none =>
      refine ih ?_ hbounded.back ?_
      · show s.level - 1 < rule.stepCount
        omega
      · show 2 * work + (s.level - 1) < fuel
        omega
    | some s' =>
      obtain ⟨hl, hbounded', hend⟩ := openLevel_bounded hbounded hlevel hopen
      simp only
      rw [← hl] at hend
      refine Meets.bind (seekPos_meets hv hend rfl) ?_
      rintro ⟨found, w⟩ ⟨hw, _, hsome⟩
      simp only at hw hsome
      cases found with
      | none =>
        refine (ih ?_ hbounded'.back ?_).imp (fun r hr => by omega)
        · show s'.level - 1 < rule.stepCount
          omega
        · show 2 * w + (s'.level - 1) < fuel
          omega
      | some pos =>
        obtain ⟨hcost, _⟩ := hsome pos rfl
        refine Meets.ite (fun _ => hw) (fun hmore => ?_)
        refine (ih ?_ (hbounded'.advance hend) ?_).imp (fun r hr => by omega)
        · show s'.level + 1 < rule.stepCount
          omega
        · show 2 * w + (s'.level + 1) < fuel
          omega

/-- `complete_chain` decides whether the later steps can be placed behind the first one. -/
theorem completeChain_meets (hvalid : ∀ step ∈ set.steps, step.Valid)
    (hlen : (set.stepsOf rule).length = rule.stepCount) (hpos : 0 < rule.stepCount)
    {firstEnd : ℕ} (hfirst : firstEnd ≤ payload.length) (work : ℕ) :
    Meets OnlyBudget
      (fun r => r.2 ≤ work ∧ (Short payload →
        (r.1 = true ↔ CanPlace payload firstEnd ((set.stepsOf rule).drop 1))))
      (completeChain set rule payload firstEnd work) := by
  unfold completeChain
  refine Meets.ite (fun hone => ?_) (fun hmore => ?_)
  · refine ⟨le_refl _, fun _ => ?_⟩
    rw [drop_of_length_le (by omega)]
    simp
  have hlevel : 1 < rule.stepCount := by omega
  by_cases hshort : Short payload
  · have hinv : ChainState.Inv payload (set.stepsOf rule)
        { level := 1, ends := fun _ => firstEnd, nextPos := fun _ => U32_MAX,
          windowEnd := fun _ => 0 } := by
      refine ⟨hlen ▸ hlevel, fun _ _ => hfirst, ?_⟩
      intro j step _ _ _ hne
      exact absurd rfl hne
    refine (chainLoop_meets hvalid hlen hshort hinv (by simp)).imp (fun r hr => ⟨hr.1, fun _ => ?_⟩)
    have hone : 1 < (set.stepsOf rule).length := by omega
    rw [hr.2, drop_eq_getElem_cons hone, canPlace_cons]
    constructor
    · rintro ⟨j, h1, hj, halive⟩
      have hj1 : j = 1 := le_antisymm hj h1
      subst hj1
      obtain ⟨pos, ⟨hat, _⟩, hplace⟩ := (aliveAt_iff (getElem?_eq_getElem hone)).mp halive
      exact ⟨pos, hat, hplace⟩
    · rintro ⟨pos, hat, hplace⟩
      exact ⟨1, le_refl _, le_refl _, (aliveAt_iff (getElem?_eq_getElem hone)).mpr
        ⟨pos, ⟨hat, .inl rfl⟩, hplace⟩⟩
  · refine (chainLoop_budget hvalid hlen hlevel ?_ (by simp)).imp
      (fun r hr => ⟨hr, fun h => absurd h hshort⟩)
    exact fun j _ _ hne => absurd rfl hne

end DreamingOS.V3
