import DreamingOS.WanSla.Evaluate

namespace DreamingOS.WanSla

open List Option

/-!
# WAN SLA — what the stable level says of the samples

The evaluator keeps two streaks, a candidate and two times; this file says of them what they mean
for the samples that were evaluated.

* `Sample`, `streak` — an evaluated sample, and how many of the last ones have a severity;
* `Inv` — the counters of the evaluator against the samples since they last began anew;
* `worse_spec`, `better_spec`, `unchanged_spec` — **the step of the hysteresis**, case by case;
* `settle_spec` — the three together, behind a gap or not.
-/

variable {D : Type}

/-! ### Samples -/

/-- A sample that was evaluated: its raw severity, and the time of its round. -/
structure Sample where
  raw : ℕ
  time : ℤ

/-- How many of the last samples in a row have a severity; the last sample is the first one of the
    list. -/
def streak (raw : ℕ) (samples : List Sample) : ℕ := (samples.takeWhile fun s => s.raw = raw).length

@[simp] theorem streak_nil (raw : ℕ) : streak raw [] = 0 := rfl

theorem streak_cons_self (s : Sample) (samples : List Sample) :
    streak s.raw (s :: samples) = streak s.raw samples + 1 := by
  rw [streak, takeWhile_cons_of_pos (by simp), length_cons, streak]

variable {raw : ℕ}

theorem streak_cons_ne {s : Sample} (h : s.raw ≠ raw) (samples : List Sample) :
    streak raw (s :: samples) = 0 := by
  rw [streak, takeWhile_cons_of_neg (by simpa using h)]
  rfl

variable {samples : List Sample}

/-- A streak of another severity than the last sample's. -/
theorem streak_eq_zero (h : ∀ s ∈ samples.head?, s.raw ≠ raw) : streak raw samples = 0 := by
  cases samples with
  | nil => rfl
  | cons s samples => exact streak_cons_ne (h s rfl) samples

/-! ### The invariant -/

/-- The level a severity is compared with: no level counts as healthy. -/
def Evaluator.top (e : Evaluator D) : ℤ := if e.level < 0 then 0 else e.level

variable {e : Evaluator D}

theorem top_of_nonneg {level : ℤ} (h : e.level = level) (hle : 0 ≤ level) : e.top = level := by
  rw [Evaluator.top, h, if_neg (by omega)]

theorem le_top (e : Evaluator D) : 0 ≤ e.top ∧ e.level ≤ e.top := by
  unfold Evaluator.top
  split <;> omega

/-- The recovery of an evaluator: it began with sample `x`, and every sample since is better than
    the level. -/
def Recovering (e : Evaluator D) (samples : List Sample) : Prop :=
  ∃ since x before, samples = since ++ x :: before ∧ x.time = e.recoverySince ∧
    (∀ s ∈ since ++ [x], (s.raw : ℤ) < e.level) ∧ e.successStreak ≤ since.length + 1

/-- The evaluator against the samples since its streaks began anew. -/
structure Inv (e : Evaluator D) (samples : List Sample) : Prop where
  level : -1 ≤ e.level ∧ e.level ≤ 3
  failure : e.candidateLevel > e.top →
    e.failureStreak = min 100 (streak e.candidateLevel.toNat samples)
  candidate : ∀ s ∈ samples.head?, (s.raw : ℤ) > e.top → e.candidateLevel = s.raw
  initial : e.level < 0 → e.successStreak ≤ streak 0 samples
  recovery : 1 ≤ e.level → if e.recovering then Recovering e samples else e.successStreak = 0

theorem Inv.reset (revision : ℤ) : Inv (Evaluator.reset revision : Evaluator D) [] where
  level := ⟨Int.le_refl _, by show (-1 : ℤ) ≤ 3; decide⟩
  failure := fun h => by
    have hgt : (-1 : ℤ) > 0 := h
    exact absurd hgt (by decide)
  candidate := fun s hs => by cases hs
  initial := fun _ => Nat.le_refl 0
  recovery := fun h => by
    have hle : (1 : ℤ) ≤ -1 := h
    exact absurd hle (by decide)

/-- The streaks begin anew. -/
theorem Inv.restart (h : Inv e samples) : Inv e.restart [] where
  level := h.level
  failure := fun _ => rfl
  candidate := fun s hs => by cases hs
  initial := fun _ => Nat.le_refl 0
  recovery := fun _ => rfl

/-! ### The step -/

variable {p : Profile D} {latest : ℤ}

/-- A sample worse than the level: the level rises to its severity at the `failCount`-th in a row of
    this severity. -/
theorem worse_spec (hinv : Inv e samples) (hraw : (raw : ℤ) > e.top) (hle : raw ≤ 3)
    (hfail : 1 ≤ p.failCount ∧ p.failCount ≤ 100) :
    Inv (worse p e raw latest).1 (⟨raw, latest⟩ :: samples) ∧ (worse p e raw latest).1.level =
        if p.failCount ≤ streak raw (⟨raw, latest⟩ :: samples) then (raw : ℤ) else e.level := by
  obtain ⟨htop, hlevel⟩ := le_top e
  have hcons : streak raw (⟨raw, latest⟩ :: samples) = streak raw samples + 1 :=
    streak_cons_self ⟨raw, latest⟩ samples
  -- the failures counted are those in a row of this severity
  have hstreak : min 100 ((if e.candidateLevel ≠ raw then 0 else e.failureStreak) + 1) =
      min 100 (streak raw (⟨raw, latest⟩ :: samples)) := by
    rw [hcons]
    by_cases hcandidate : e.candidateLevel = raw
    · have hfailure := hinv.failure (by omega)
      rw [hcandidate, Int.toNat_natCast] at hfailure
      rw [if_neg (not_not.mpr hcandidate), hfailure]
      omega
    · have hzero : streak raw samples = 0 := by
        refine streak_eq_zero fun s hs hsame => hcandidate ?_
        rw [hinv.candidate s hs (by rw [hsame]; exact hraw), hsame]
      rw [if_pos hcandidate, hzero]
  unfold worse
  rw [hstreak]
  dsimp only
  split
  · -- the level rises
    rename_i hge
    have hlast : p.failCount ≤ streak raw (⟨raw, latest⟩ :: samples) := by omega
    rw [if_pos hlast]
    have hpos : (0 : ℤ) ≤ raw := Int.natCast_nonneg raw
    refine ⟨⟨⟨?_, ?_⟩, fun h => ?_, fun s hs _ => ?_, fun h => ?_, fun _ => rfl⟩, rfl⟩
    · show (-1 : ℤ) ≤ raw
      omega
    · show (raw : ℤ) ≤ 3
      omega
    · rw [top_of_nonneg rfl hpos] at h
      exact absurd h (lt_irrefl _)
    · obtain rfl : s = ⟨raw, latest⟩ := (some.inj hs).symm
      rfl
    · have hneg : (raw : ℤ) < 0 := h
      omega
  · rename_i hlt
    have hlast : ¬ p.failCount ≤ streak raw (⟨raw, latest⟩ :: samples) := by omega
    rw [if_neg hlast]
    refine ⟨⟨hinv.level, fun _ => ?_, fun s hs _ => ?_, fun _ => Nat.zero_le _, fun _ => rfl⟩, rfl⟩
    · rfl
    · obtain rfl : s = ⟨raw, latest⟩ := (some.inj hs).symm
      rfl

theorem startRecovery_eq (e : Evaluator D) (latest : ℤ) : startRecovery e latest = ({ e with
      recovering := true
      recoverySince := if e.recovering then e.recoverySince else latest }, !e.recovering) := by
  rcases e with ⟨rounds, level, candidate, failures, successes, _ | _, times⟩ <;> rfl

/-- A sample better than the level: the level falls by one when enough of them came in a row, the
    first one long enough ago, and the cooldown is over.  Where there is no level yet, healthy
    samples make it zero. -/
theorem better_spec (hinv : Inv e samples) (hraw : (raw : ℤ) ≤ e.top)
    (hbetter : (raw : ℤ) < e.level ∨ e.level < 0) :
    Inv (better p e raw latest).1 (⟨raw, latest⟩ :: samples) ∧
      ((better p e raw latest).1.level = e.level ∨
        (e.level = -1 ∧ (better p e raw latest).1.level = 0 ∧
          p.recoverCount ≤ streak 0 (⟨raw, latest⟩ :: samples)) ∨
        ((better p e raw latest).1.level = e.level - 1 ∧ latest ≥ e.cooldownUntil ∧
          ∃ since x before, (⟨raw, latest⟩ :: samples : List Sample) = since ++ x :: before ∧
            (∀ s ∈ since ++ [x], (s.raw : ℤ) < e.level) ∧
            max 2 p.recoverCount ≤ since.length + 1 ∧ latest - x.time ≥ 20)) := by
  obtain ⟨htop, hlevel⟩ := le_top e
  obtain ⟨hlow, hhigh⟩ := hinv.level
  -- the candidate, if it is above the level, is not the severity of this sample
  have hfailure : ∀ e' : Evaluator D, e'.top ≥ raw → e'.candidateLevel = e.candidateLevel →
      e'.failureStreak = 0 → e'.candidateLevel > e'.top →
      e'.failureStreak = min 100 (streak e'.candidateLevel.toNat (⟨raw, latest⟩ :: samples)) := by
    intro e' htop' hcandidate hzero habove
    rw [hzero, streak_cons_ne (by dsimp only; omega)]
    rfl
  have hhead : ∀ e' : Evaluator D, e'.top ≥ raw →
      ∀ s ∈ (⟨raw, latest⟩ :: samples : List Sample).head?, (s.raw : ℤ) > e'.top →
        e'.candidateLevel = s.raw := by
    intro e' htop' s hs habove
    obtain rfl : s = ⟨raw, latest⟩ := (some.inj hs).symm
    dsimp only at habove
    omega
  unfold better
  dsimp only
  by_cases hnone : e.level < 0
  · -- no level yet: the sample is healthy
    have hzero : raw = 0 := by
      rw [Evaluator.top, if_pos hnone] at hraw
      omega
    subst hzero
    have hstreak : streak 0 (⟨0, latest⟩ :: samples) = streak 0 samples + 1 :=
      streak_cons_self ⟨0, latest⟩ samples
    have hinitial := hinv.initial hnone
    rw [if_pos hnone]
    split
    · rename_i hready
      refine ⟨⟨⟨by show (-1 : ℤ) ≤ 0; decide, by show (0 : ℤ) ≤ 3; decide⟩, hfailure _ ?_ rfl rfl,
        hhead _ ?_, fun h => ?_, fun h => ?_⟩, .inr (.inl ⟨by omega, rfl, ?_⟩)⟩
      · exact (le_top _).1
      · exact (le_top _).1
      · exact absurd h (by show ¬ (0 : ℤ) < 0; decide)
      · exact absurd h (by show ¬ (1 : ℤ) ≤ 0; decide)
      · rw [hstreak]
        omega
    · refine ⟨⟨hinv.level, hfailure _ (le_top _).1 rfl rfl, hhead _ (le_top _).1, fun _ => ?_,
        fun h => ?_⟩, .inl rfl⟩
      · show min 100 (e.successStreak + 1) ≤ _
        rw [hstreak]
        omega
      · have hge : 1 ≤ e.level := h
        omega
  · have hge : 1 ≤ e.level := by omega
    have hlt : (raw : ℤ) < e.level := hbetter.resolve_right hnone
    have hrecovery := hinv.recovery hge
    -- the recovery this sample belongs to
    obtain ⟨since, x, before, hsplit, hx, hall, hcount⟩ :
        ∃ since x before, (⟨raw, latest⟩ :: samples : List Sample) = since ++ x :: before ∧
          x.time = (if e.recovering then e.recoverySince else latest) ∧
          (∀ s ∈ since ++ [x], (s.raw : ℤ) < e.level) ∧
          min 100 (e.successStreak + 1) ≤ since.length + 1 := by
      cases hrec : e.recovering with
      | true =>
        rw [hrec, if_pos rfl] at hrecovery
        obtain ⟨since, x, before, rfl, hx, hall, hcount⟩ := hrecovery
        refine ⟨⟨raw, latest⟩ :: since, x, before, rfl, by rw [if_pos rfl]; exact hx, ?_, ?_⟩
        · intro s hs
          rcases mem_cons.mp hs with rfl | hs
          · exact hlt
          · exact hall s hs
        · rw [length_cons]
          omega
      | false =>
        rw [hrec, if_neg Bool.false_ne_true] at hrecovery
        refine ⟨[], ⟨raw, latest⟩, samples, rfl, (if_neg Bool.false_ne_true).symm, ?_, ?_⟩
        · intro s hs
          rw [mem_singleton.mp hs]
          exact hlt
        · rw [hrecovery]
          decide
    rw [if_neg hnone, startRecovery_eq]
    dsimp only
    generalize (if e.recovering then e.recoverySince else latest) = start at hx ⊢
    split
    · -- the level falls
      rename_i hfall
      obtain ⟨hready, htwo, hlong, hcool⟩ := hfall
      have hfallen : (raw : ℤ) ≤ e.level - 1 := by omega
      refine ⟨⟨⟨by show -1 ≤ e.level - 1; omega, by show e.level - 1 ≤ 3; omega⟩,
        hfailure _ ?_ rfl rfl, hhead _ ?_, fun h => ?_, fun _ => rfl⟩,
        Or.inr (.inr ⟨rfl, hcool, since, x, before, hsplit, hall, ?_, ?_⟩)⟩
      · exact Int.le_trans hfallen (le_top _).2
      · exact Int.le_trans hfallen (le_top _).2
      · have hneg : e.level - 1 < 0 := h
        omega
      · omega
      · rw [hx]
        exact hlong
    · refine ⟨⟨hinv.level, hfailure _ ?_ rfl rfl, hhead _ ?_, fun h => absurd h hnone,
        fun _ => ?_⟩, .inl rfl⟩
      · exact Int.le_trans hlt.le (le_top _).2
      · exact Int.le_trans hlt.le (le_top _).2
      · exact ⟨since, x, before, hsplit, hx, hall, hcount⟩

/-- A sample of the level itself: everything begins anew. -/
theorem unchanged_spec (hinv : Inv e samples) (hraw : (raw : ℤ) = e.level) :
    Inv (unchanged e raw).1 (⟨raw, latest⟩ :: samples) where
  level := hinv.level
  failure := fun h => by
    have hgt : (raw : ℤ) > e.top := h
    have := (le_top e).2
    have htop := top_of_nonneg hraw.symm (Int.natCast_nonneg raw)
    omega
  candidate := fun s hs _ => by
    obtain rfl : s = ⟨raw, latest⟩ := (some.inj hs).symm
    rfl
  initial := fun _ => Nat.zero_le _
  recovery := fun _ => rfl

/-- Whether so much time passed that the samples before do not count. -/
def gap (p : Profile D) (e : Evaluator D) (latest : ℤ) : Bool :=
  decide (e.lastSampleAt ≠ 0) && decide (latest - e.lastSampleAt > p.maxInterval * 3)

/-- The samples that count with a new one. -/
def kept (p : Profile D) (e : Evaluator D) (latest : ℤ) (samples : List Sample) : List Sample :=
  if gap p e latest then [] else samples

theorem afterGap_spec (hinv : Inv e samples) (latest : ℤ) :
    Inv (afterGap p e latest) (kept p e latest samples) ∧ (afterGap p e latest).level = e.level ∧
      (afterGap p e latest).cooldownUntil = e.cooldownUntil := by
  have hgap : gap p e latest = true ↔
      e.lastSampleAt ≠ 0 ∧ latest - e.lastSampleAt > p.maxInterval * 3 := by
    simp [gap]
  unfold afterGap kept
  by_cases h : e.lastSampleAt ≠ 0 ∧ latest - e.lastSampleAt > p.maxInterval * 3
  · rw [if_pos h, if_pos (hgap.mpr h)]
    have hrestart := hinv.restart
    refine ⟨⟨hrestart.level, fun hcandidate => ?_, fun _ hs => (not_mem_none _ hs).elim, hrestart.initial,
      hrestart.recovery⟩, rfl, rfl⟩
    have hgt : (-1 : ℤ) > e.top := hcandidate
    have := (le_top e).1
    omega
  · rw [if_neg h, if_neg (mt hgap.mp h)]
    exact ⟨hinv, rfl, rfl⟩

/-- What a sample does to the level: it rises to the severity exactly when this severity was seen
    `failCount` times in a row above the level; and otherwise it stays, or falls by one behind a
    recovery, or is zero for the first time. -/
def Follows (p : Profile D) (e after : Evaluator D) (raw : ℕ) (latest : ℤ)
    (samples : List Sample) : Prop :=
  ((raw : ℤ) > e.top ∧
      after.level = if p.failCount ≤ streak raw samples then (raw : ℤ) else e.level) ∨
    ((raw : ℤ) ≤ e.top ∧ (after.level = e.level ∨
        (e.level = -1 ∧ after.level = 0 ∧ p.recoverCount ≤ streak 0 samples) ∨
        (after.level = e.level - 1 ∧ latest ≥ e.cooldownUntil ∧
          ∃ since x before, samples = since ++ x :: before ∧
            (∀ s ∈ since ++ [x], (s.raw : ℤ) < e.level) ∧
            max 2 p.recoverCount ≤ since.length + 1 ∧ latest - x.time ≥ 20)))

theorem Follows.of_eq {e₁ e₂ after₁ after₂ : Evaluator D}
    (h : Follows p e₁ after₁ raw latest samples)
    (hlevel : e₁.level = e₂.level) (hcooldown : e₁.cooldownUntil = e₂.cooldownUntil)
    (hafter : after₁.level = after₂.level) : Follows p e₂ after₂ raw latest samples := by
  have htop : e₁.top = e₂.top := by
    unfold Evaluator.top
    rw [hlevel]
  unfold Follows at h ⊢
  rw [htop, hlevel, hcooldown, hafter] at h
  exact h

theorem judge_spec (p : Profile D) (latest : ℤ) (hinv : Inv e samples) (hle : raw ≤ 3)
    (hfail : 1 ≤ p.failCount ∧ p.failCount ≤ 100) :
    Inv (judge p e raw latest).1 (⟨raw, latest⟩ :: samples) ∧
      Follows p e (judge p e raw latest).1 raw latest (⟨raw, latest⟩ :: samples) := by
  unfold judge
  by_cases hworse : (raw : ℤ) > e.top
  · rw [if_pos (show (raw : ℤ) > (if e.level < 0 then 0 else e.level) from hworse)]
    obtain ⟨hinv', hlevel⟩ := worse_spec (p := p) hinv hworse hle hfail
    exact ⟨hinv', .inl ⟨hworse, hlevel⟩⟩
  rw [if_neg (show ¬ (raw : ℤ) > (if e.level < 0 then 0 else e.level) from hworse)]
  have hnot : (raw : ℤ) ≤ e.top := not_lt.mp hworse
  by_cases hbetter : (raw : ℤ) < e.level ∨ e.level < 0
  · rw [if_pos hbetter]
    obtain ⟨hinv', hlevel⟩ := better_spec (p := p) hinv hnot hbetter
    exact ⟨hinv', .inr ⟨hnot, hlevel⟩⟩
  rw [if_neg hbetter]
  have hsame : (raw : ℤ) = e.level := by
    unfold Evaluator.top at hnot
    split at hnot <;> omega
  exact ⟨unchanged_spec hinv hsame, .inr ⟨hnot, .inl rfl⟩⟩

/-- **The step of the hysteresis**, for a new sample and those that count before it. -/
theorem settle_spec (p : Profile D) (latest : ℤ) (hinv : Inv e samples) (hle : raw ≤ 3)
    (hfail : 1 ≤ p.failCount ∧ p.failCount ≤ 100) :
    Inv (settle p e raw latest).1 (⟨raw, latest⟩ :: kept p e latest samples) ∧
      Follows p e (settle p e raw latest).1 raw latest
        (⟨raw, latest⟩ :: kept p e latest samples) := by
  obtain ⟨hgap, hlevel, hcooldown⟩ := afterGap_spec (p := p) hinv latest
  -- neither the time of the sample nor those of a transition are part of what is said
  have hstart : Inv { afterGap p e latest with lastSampleAt := latest }
      (kept p e latest samples) :=
    ⟨hgap.level, hgap.failure, hgap.candidate, hgap.initial, hgap.recovery⟩
  obtain ⟨hinv', hfollows⟩ := judge_spec p latest hstart hle hfail
  unfold settle
  dsimp only
  split
  · exact ⟨⟨hinv'.level, hinv'.failure, hinv'.candidate, hinv'.initial, hinv'.recovery⟩,
      hfollows.of_eq hlevel hcooldown rfl⟩
  · exact ⟨hinv', hfollows.of_eq hlevel hcooldown rfl⟩

end DreamingOS.WanSla
