import DreamingOS.V3.PacketPath

open Outcome List

namespace DreamingOS.V3

/-!
# v3 chain rules — the arithmetic of the backtracking search

`complete_chain` and `exact_at` with a check at each access, at each subtraction and at each position.

* `sub32`, `position`, `slot` — the checks; the source has none of them;
* `exactAtChecked`, `openChecked`, `seekChecked`, `completeChainChecked` — the functions;
* `completeChain_safe` — **no check fails**, over every run.
-/

/-! ### The checks -/

/-- A difference of unsigned numbers that does not wrap. -/
def sub32 (a b : ℕ) : Except Errno ℕ := if b ≤ a then .ok (a - b) else .error .EOVERFLOW

/-- A sum that neither wraps nor is the sentinel `U32_MAX`. -/
def position (pos : ℕ) : Except Errno ℕ := if pos < U32_MAX then .ok pos else .error .EOVERFLOW

def slot {α : Type} (slots : List α) (i : ℕ) : Except Errno α :=
  match slots[i]? with
  | some a => .ok a
  | none => .error .outOfBounds

/-- The loop of `exact_at` from its index `i` on, with `n` bytes left. -/
def exactAtFrom (step : StepK) (payload : List UInt8) (start : ℕ) :
    ℕ → ℕ → ℕ → Except Errno (Bool × ℕ)
  | 0, _, work => .ok (true, work)
  | n + 1, i, work =>
    if work = 0 then .error .E2BIG
    else do
      let work ← sub32 work 1
      let place ← position (start + i)
      let left ← slot payload place
      let right ← slot step.payload i
      if byteAgrees (step.caseMode = JMX_V3_CASE_NOCASE) left right then
        exactAtFrom step payload start n (i + 1) work
      else .ok (false, work)

/-- `exact_at`. -/
def exactAtChecked (step : StepK) (payload : List UInt8) (start work : ℕ) :
    Except Errno (Bool × ℕ) :=
  if payload.length < start then .ok (false, work)
  else do
    let room ← sub32 payload.length start
    if room < step.payloadLen then .ok (false, work)
    else exactAtFrom step payload start step.payloadLen 0 work

/-- The window of a level is filled in. -/
def openChecked (step : StepK) (payloadLen : ℕ) (s : ChainState) : Except Errno (Option ChainState) :=
  if s.nextPos s.level = U32_MAX then
    match stepWindow step payloadLen (s.ends (s.level - 1)) with
    | .error _ => .ok none
    | .ok (start, stop) => do
      let start ← position start
      let room ← sub32 stop start
      if room < step.payloadLen then .ok none
      else .ok (some { s with
        nextPos := Function.update s.nextPos s.level start
        windowEnd := Function.update s.windowEnd s.level stop })
  else .ok (some s)

/-- The loop over the positions of a level; there are at most `n`. -/
def seekChecked (step : StepK) (payload : List UInt8) (previousEnd windowEnd : ℕ) :
    ℕ → ℕ → ℕ → Except Errno (Option ℕ × ℕ)
  | 0, pos, work => if pos ≤ windowEnd then .error .outOfFuel else .ok (none, work)
  | n + 1, pos, work =>
    if windowEnd < pos then .ok (none, work)
    else do
      let room ← sub32 windowEnd pos
      if room < step.payloadLen then .ok (none, work)
      else do
        let stop ← position (pos + step.payloadLen)
        let next ← position (pos + 1)
        if stop < previousEnd then seekChecked step payload previousEnd windowEnd n next work
        else do
          let (matched, work) ← exactAtChecked step payload pos work
          if matched then .ok (some pos, work)
          else seekChecked step payload previousEnd windowEnd n next work

/-- The `while (level > 0)` loop; the arrays have a slot for each of its levels. -/
def chainLoopChecked (set : RuleSet) (rule : RuleK) (payload : List UInt8) :
    ℕ → ChainState → ℕ → Except Errno (Bool × ℕ)
  | 0, _, _ => .error .outOfFuel
  | fuel + 1, s, work =>
    if s.level = 0 then .ok (false, work)
    else if JMX_V3_MAX_STEPS_PER_RULE ≤ s.level then .error .outOfBounds
    else do
      let step ← slot set.steps (rule.firstStep + s.level)
      match ← openChecked step payload.length s with
      | none => chainLoopChecked set rule payload fuel s.back work
      | some s => do
        let (found, work) ← seekChecked step payload (s.ends (s.level - 1)) (s.windowEnd s.level)
          (s.windowEnd s.level + 1 - s.nextPos s.level) (s.nextPos s.level) work
        match found with
        | none => chainLoopChecked set rule payload fuel s.back work
        | some pos =>
          if s.level + 1 = rule.stepCount then .ok (true, work)
          else chainLoopChecked set rule payload fuel (s.place pos step.payloadLen).advance work

/-- `complete_chain`. -/
def completeChainChecked (set : RuleSet) (rule : RuleK) (payload : List UInt8)
    (firstEnd work : ℕ) : Except Errno (Bool × ℕ) :=
  if rule.stepCount = 1 then .ok (true, work)
  else
    chainLoopChecked set rule payload (2 * work + 2)
      { level := 1
        ends := fun _ => firstEnd
        nextPos := fun _ => U32_MAX
        windowEnd := fun _ => 0 } work

/-! ### No check fails -/

variable {set : RuleSet} {rule : RuleK} {payload : List UInt8} {step : StepK}

theorem sub32_eq {a b : ℕ} (h : b ≤ a) : sub32 a b = .ok (a - b) := if_pos h

theorem position_eq {pos : ℕ} (h : pos < U32_MAX) : position pos = .ok pos := if_pos h

theorem slot_eq {α : Type} {slots : List α} {i : ℕ} (h : i < slots.length) :
    slot slots i = .ok slots[i] := by
  unfold slot
  rw [getElem?_eq_getElem h]

theorem exactAtFrom_eq (hlen : payload.length < U32_MAX) {start : ℕ}
    (hfit : start + step.payload.length ≤ payload.length) {n i work : ℕ}
    (hn : n + i = step.payload.length) :
    exactAtFrom step payload start n i work = exactAtLoop (step.caseMode = JMX_V3_CASE_NOCASE)
      (step.payload.drop i) (payload.drop (start + i)) work := by
  induction n generalizing i work with
  | zero =>
    rw [drop_of_length_le (by omega)]
    rfl
  | succ n ih =>
    have hi : i < step.payload.length := by omega
    have hplace : start + i < payload.length := by omega
    rw [drop_eq_getElem_cons hi, drop_eq_getElem_cons hplace]
    unfold exactAtFrom exactAtLoop spend
    by_cases hwork : work = 0
    · rw [if_pos hwork, if_pos hwork]
      rfl
    rw [if_neg hwork, if_neg hwork, sub32_eq (Nat.pos_of_ne_zero hwork), ok_bind, ok_bind,
      position_eq (hplace.trans hlen), ok_bind, slot_eq hplace, ok_bind, slot_eq hi, ok_bind,
      ih (by omega)]
    rfl

theorem exactAtChecked_eq (hv : step.Valid) (hlen : payload.length < U32_MAX) (start work : ℕ) :
    exactAtChecked step payload start work = exactAt step payload start work := by
  unfold exactAtChecked exactAt
  by_cases hstart : payload.length < start
  · rw [if_pos hstart, if_pos (.inl hstart)]
  rw [if_neg hstart, sub32_eq (Nat.not_lt.mp hstart), ok_bind]
  by_cases hroom : payload.length - start < step.payloadLen
  · rw [if_pos hroom, if_pos (.inr hroom)]
  have hpattern := hv.payload_length
  have hfit : start + step.payload.length ≤ payload.length := by omega
  rw [if_neg hroom, if_neg (by omega), @exactAtFrom_eq _ step hlen start hfit step.payloadLen 0 work
    hpattern.symm, drop_zero, take_of_length_le hpattern.le]
  rfl

theorem openChecked_eq (hlen : payload.length < U32_MAX) (s : ChainState) :
    openChecked step payload.length s = .ok (openLevel step payload.length s) := by
  unfold openChecked openLevel
  split
  · cases hwin : stepWindow step payload.length (s.ends (s.level - 1)) with
    | error _ => rfl
    | ok window =>
      obtain ⟨start, stop⟩ := window
      obtain ⟨hle, hstop⟩ := stepWindow_le hwin
      dsimp only
      rw [position_eq (by omega), ok_bind, sub32_eq hle, ok_bind]
      split <;> rfl
  · rfl

theorem seekChecked_eq (hv : step.Valid) (hlen : payload.length < U32_MAX) {previousEnd windowEnd : ℕ}
    (hend : windowEnd ≤ payload.length) {n pos work : ℕ} (hn : n = windowEnd + 1 - pos) :
    seekChecked step payload previousEnd windowEnd n pos work =
      seekPos step payload previousEnd windowEnd n pos work := by
  induction n generalizing pos work with
  | zero => exact if_neg (by omega)
  | succ n ih =>
    unfold seekChecked seekPos
    rw [if_neg (by omega), sub32_eq (by omega), ok_bind]
    split
    · rfl
    have hpos := hv.payload_pos
    rw [position_eq (by omega), ok_bind, position_eq (by omega), ok_bind, exactAtChecked_eq hv hlen]
    simp only [ih (show n = windowEnd + 1 - (pos + 1) by omega)]

/-- The search takes the same steps with the checks. -/
theorem chainLoopChecked_eq (hvalid : ∀ step ∈ set.steps, step.Valid)
    (hsteps : (set.stepsOf rule).length = rule.stepCount)
    (hmax : rule.stepCount ≤ JMX_V3_MAX_STEPS_PER_RULE) (hlen : payload.length < U32_MAX)
    {fuel : ℕ} {s : ChainState} {work : ℕ} (hlevel : s.level < rule.stepCount)
    (hbounded : s.Bounded payload) :
    chainLoopChecked set rule payload fuel s work = chainLoop set rule payload fuel s work := by
  induction fuel generalizing s work with
  | zero => rfl
  | succ fuel ih =>
    unfold chainLoopChecked chainLoop
    by_cases hzero : s.level = 0
    · rw [if_pos hzero, if_pos hzero]
    have hget := stepsOf_lt hsteps hlevel
    rw [if_neg hzero, if_neg hzero, if_neg (by omega), slot_eq hget, ok_bind, openChecked_eq hlen,
      ok_bind, getElem?_eq_getElem hget]
    dsimp only
    cases hopen : openLevel set.steps[rule.firstStep + s.level] payload.length s with
    | none => exact ih (Nat.lt_of_le_of_lt (Nat.sub_le _ _) hlevel) hbounded.back
    | some s' =>
      obtain ⟨hl, hbounded', hend⟩ := openLevel_bounded hbounded hzero hopen
      rw [← hl] at hend
      dsimp only
      rw [seekChecked_eq (hvalid _ (getElem_mem hget)) hlen hend rfl]
      refine congrArg (_ >>= ·) (funext fun x => ?_)
      obtain ⟨found, w⟩ := x
      cases found with
      | none => exact ih (Nat.lt_of_le_of_lt (Nat.sub_le _ _) (hl ▸ hlevel)) hbounded'.back
      | some pos =>
        dsimp only
        split
        · rfl
        · exact ih (by show s'.level + 1 < _; omega) (hbounded'.advance hend)

/-- **The backtracking search is safe**: with every check it does what it does without, and only the
    budget stops it early. -/
theorem completeChain_safe (es : List Event) (hactive : (run rulesInit es).active = some set)
    (hrule : rule ∈ set.rules) (hmax : rule.stepCount ≤ 64) (hlen : payload.length ≤ 65535)
    (firstEnd work : ℕ) :
    completeChainChecked set rule payload firstEnd work = completeChain set rule payload firstEnd work ∧
      (completeChainChecked set rule payload firstEnd work = .error .E2BIG ∨ ∃ found left,
        completeChainChecked set rule payload firstEnd work = .ok (found, left) ∧ left ≤ work) := by
  have hset := ((history es).active set hactive).2
  have hsteps := hset.stepsOf_length hrule
  have hpos := hset.steps_pos rule hrule
  have heq : completeChainChecked set rule payload firstEnd work =
      completeChain set rule payload firstEnd work := by
    unfold completeChainChecked completeChain
    split
    · rfl
    · exact chainLoopChecked_eq hset.steps_valid hsteps hmax (hlen.trans_lt (by decide))
        (by show 1 < _; omega) fun j _ _ hne => absurd rfl hne
  refine ⟨heq, ?_⟩
  rw [heq]
  have hmeets : Meets OnlyBudget (fun r => r.2 ≤ work)
      (completeChain set rule payload firstEnd work) := by
    unfold completeChain
    refine Meets.ite (fun _ => le_refl _) fun hone => ?_
    exact chainLoop_budget hset.steps_valid hsteps (by show 1 < _; omega)
      (fun j _ _ hne => absurd rfl hne) (by simp)
  generalize completeChain set rule payload firstEnd work = result at hmeets
  cases result with
  | error e => exact .inl (congrArg _ hmeets)
  | ok r => exact .inr ⟨r.1, r.2, rfl, hmeets⟩

/-- The second step of `pairRule` is found in `AB`. -/
theorem completeChain_safe_pair : ∃ set, (run rulesInit (pairRun 0)).active = some set ∧
    ∃ rule ∈ set.rules, rule.stepCount = 2 ∧
      completeChainChecked set rule [65, 66] 1 9 = completeChain set rule [65, 66] 1 9 := by
  obtain ⟨set, hset, -, hrules, -⟩ := pairRun_active 0 (.inl rfl)
  have hrule : ⟨5, 77, 10, 0x409, 0, 0, 2, 0, 0, 0, 0⟩ ∈ set.rules := by
    rw [hrules]
    exact mem_singleton_self _
  exact ⟨set, hset, _, hrule, rfl,
    (completeChain_safe (pairRun 0) hset hrule (by decide) (by decide) 1 9).1⟩

end DreamingOS.V3
