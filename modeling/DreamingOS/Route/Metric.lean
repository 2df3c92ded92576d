import DreamingOS.Route.Rotation

namespace DreamingOS.Route

open List

/-!
# Policy routes — the comparison of metrics

* `quotients` — how two metrics compare, each divided by its weight;
* `metricCmp_eq` — the comparison of the code is exact up to weights of `2 ^ 32`;
* `metric_exact_iff` — **the selection is exact just when no weight is above `2 ^ 32`**, as the
  remainder of a division by a larger one does not fit into 32 bits.
-/

variable {adaptive : Bool} {cs : List Candidate} {l w m u r v : UInt64}

/-- How `l / w` and `r / v` compare, as fractions. -/
def quotients (l w r v : UInt64) : Ordering := compare (l.toNat * v.toNat) (r.toNat * w.toNat)

theorem quotients_ne_gt : quotients l w r v ≠ .gt ↔ l.toNat * v.toNat ≤ r.toNat * w.toNat := by
  rw [quotients, Ne, Nat.compare_eq_gt, Nat.not_lt]

theorem quotients_trans (hu : 0 < u.toNat) (h : quotients l w m u ≠ .gt)
    (h' : quotients m u r v ≠ .gt) : quotients l w r v ≠ .gt := by
  rw [quotients_ne_gt] at h h' ⊢
  refine Nat.le_of_mul_le_mul_left ?_ hu
  calc u.toNat * (l.toNat * v.toNat) = l.toNat * u.toNat * v.toNat := by ring
    _ ≤ m.toNat * w.toNat * v.toNat := Nat.mul_le_mul_right _ h
    _ = m.toNat * v.toNat * w.toNat := by ring
    _ ≤ r.toNat * u.toNat * w.toNat := Nat.mul_le_mul_right _ h'
    _ = u.toNat * (r.toNat * w.toNat) := by ring

/-! ### The code -/

theorem toNat_remainder (l w : UInt64) : (l - l / w * w).toNat = l.toNat % w.toNat := by
  have hle := Nat.div_mul_le_self l.toNat w.toNat
  have hmul : (l / w * w).toNat = l.toNat / w.toNat * w.toNat := by
    rw [UInt64.toNat_mul, UInt64.toNat_div]
    exact Nat.mod_eq_of_lt (Nat.lt_of_le_of_lt hle l.toNat_lt)
  have hmod := Nat.div_add_mod' l.toNat w.toNat
  rw [UInt64.toNat_sub_of_le _ _ (UInt64.le_iff_toNat_le.mpr (by rw [hmul]; exact hle)), hmul]
  omega

/-- A remainder of a weight up to `2 ^ 32` fits into 32 bits, and its product into 64. -/
theorem toNat_fraction (hw : 0 < w.toNat ∧ w.toNat ≤ 2 ^ 32) (hv : v.toNat ≤ 2 ^ 32) :
    ((l - l / w * w).toUInt32.toUInt64 * v).toNat = l.toNat % w.toNat * v.toNat := by
  have hlt := Nat.mod_lt l.toNat hw.1
  have hsmall : l.toNat % w.toNat ≤ 2 ^ 32 - 1 := by omega
  have hmul := Nat.mul_le_mul hsmall hv
  rw [UInt64.toNat_mul, UInt32.toNat_toUInt64, UInt64.toNat_toUInt32, toNat_remainder,
    Nat.mod_eq_of_lt (Nat.lt_of_le_of_lt hsmall (by decide))]
  exact Nat.mod_eq_of_lt (Nat.lt_of_le_of_lt hmul (by decide))

theorem mul_lt_of_div_lt {l w r v : ℕ} (hw : 0 < w) (hv : 0 < v) (h : l / w < r / v) :
    l * v < r * w := by
  calc l * v < w * (l / w + 1) * v := Nat.mul_lt_mul_of_pos_right (Nat.lt_mul_div_succ l hw) hv
    _ ≤ w * (r / v) * v := Nat.mul_le_mul_right _ (Nat.mul_le_mul_left _ h)
    _ = w * (r / v * v) := Nat.mul_assoc _ _ _
    _ ≤ w * r := Nat.mul_le_mul_left _ (Nat.div_mul_le_self r v)
    _ = r * w := Nat.mul_comm _ _

/-- **The comparison is exact** for weights up to `2 ^ 32`. -/
theorem metricCmp_eq (hw : 0 < w.toNat ∧ w.toNat ≤ 2 ^ 32) (hv : 0 < v.toNat ∧ v.toNat ≤ 2 ^ 32) :
    metricCmp l w r v = quotients l w r v := by
  unfold metricCmp
  rw [quotients, Nat.compare_eq_ite_lt]
  simp only [UInt64.lt_iff_toNat_lt, toNat_fraction hw hv.2, toNat_fraction hv hw.2, UInt64.toNat_div]
  rcases Nat.lt_trichotomy (l.toNat / w.toNat) (r.toNat / v.toNat) with hlt | heq | hgt
  · rw [if_pos hlt, if_pos (mul_lt_of_div_lt hw.1 hv.1 hlt)]
  · -- equal quotients: what is left compares as the whole does
    have hl : l.toNat * v.toNat =
        r.toNat / v.toNat * w.toNat * v.toNat + l.toNat % w.toNat * v.toNat := by
      rw [← heq, ← Nat.add_mul, Nat.div_add_mod']
    have hr : r.toNat * w.toNat =
        r.toNat / v.toNat * w.toNat * v.toNat + r.toNat % v.toNat * w.toNat := by
      rw [Nat.mul_right_comm, ← Nat.add_mul, Nat.div_add_mod']
    rw [heq, if_neg (Nat.lt_irrefl _), if_neg (Nat.lt_irrefl _), hl, hr]
    simp only [Nat.add_lt_add_iff_left]
  · rw [if_neg (Nat.lt_asymm hgt), if_pos hgt, if_neg (Nat.lt_asymm (mul_lt_of_div_lt hv.1 hw.1 hgt)),
      if_pos (mul_lt_of_div_lt hv.1 hw.1 hgt)]

/-- Above `2 ^ 32` the remainder `2 ^ 32` is taken for none. -/
theorem metricCmp_large (hw : 2 ^ 32 < w.toNat) :
    metricCmp 4294967296 w 0 w = .eq ∧ quotients 4294967296 w 0 w = .gt := by
  have hdiv : (4294967296 : UInt64) / w = 0 := by
    rw [← UInt64.toNat_inj, UInt64.toNat_div]
    exact Nat.div_eq_of_lt hw
  have hzero : (0 : UInt64) / w = 0 := by
    rw [← UInt64.toNat_inj, UInt64.toNat_div]
    exact Nat.zero_div _
  constructor
  · have hnone : (4294967296 : UInt64).toUInt32.toUInt64 = 0 := rfl
    have hnone' : (0 : UInt64).toUInt32.toUInt64 = 0 := rfl
    unfold metricCmp
    simp only [hdiv, hzero, UInt64.zero_mul, UInt64.sub_zero, hnone, hnone']
    rfl
  · rw [quotients, Nat.compare_eq_gt]
    show 0 * _ < 4294967296 * w.toNat
    omega

/-! ### The selection -/

/-- The metric of a candidate, divided by its weight, is no greater than that of another one. -/
def Below (byConnections adaptive : Bool) (c d : Candidate) : Prop :=
  quotients (metric byConnections c) (selectionWeight adaptive c) (metric byConnections d)
    (selectionWeight adaptive d) ≠ .gt

/-- The comparison and the selection are exact for some candidates, whatever their metrics are. -/
structure MetricExact (adaptive : Bool) (cs : List Candidate) : Prop where
  cmp : ∀ c ∈ cs, ∀ d ∈ cs, ∀ l r,
    metricCmp l (selectionWeight adaptive c) r (selectionWeight adaptive d) =
      quotients l (selectionWeight adaptive c) r (selectionWeight adaptive d)
  trans : ∀ c ∈ cs, ∀ d ∈ cs, ∀ e ∈ cs, ∀ l m r,
    metricCmp l (selectionWeight adaptive c) m (selectionWeight adaptive d) ≠ .gt →
    metricCmp m (selectionWeight adaptive d) r (selectionWeight adaptive e) ≠ .gt →
      metricCmp l (selectionWeight adaptive c) r (selectionWeight adaptive e) ≠ .gt
  least : cs ≠ [] → ∀ (h : Jhash) (byConnections : Bool) (hash : UInt32), ∃ c ∈ cs,
    selectMinMetric h byConnections hash adaptive cs = some c.wan ∧
      ∀ d ∈ cs, Below byConnections adaptive c d

/-- The weights are ones that the comparison can take. -/
def Light (adaptive : Bool) (c : Candidate) : Prop :=
  0 < (selectionWeight adaptive c).toNat ∧ (selectionWeight adaptive c).toNat ≤ 2 ^ 32

variable {byConnections : Bool} {c : Candidate}

theorem below_refl : Below byConnections adaptive c c := quotients_ne_gt.mpr (Nat.le_refl _)

/-- The ties of the loop are least among the candidates it has seen. -/
theorem minMetric_least (hw : ∀ d ∈ c :: cs, Light adaptive d) :
    let best := cs.foldl (minMetricStep byConnections adaptive) (c, [])
    ∀ t ∈ best.1 :: best.2, ∀ d ∈ c :: cs, Below byConnections adaptive t d := by
  induction cs using List.reverseRecOn with
  | nil =>
    intro best t ht d hd
    rw [mem_singleton.mp ht, mem_singleton.mp hd]
    exact below_refl
  | append_singleton cs e ih =>
    have hseen : ∀ d ∈ c :: cs, d ∈ c :: (cs ++ [e]) := fun d hd => mem_append_left [e] hd
    have hbelow := ih fun d hd => hw d (hseen d hd)
    have hsub := (@minMetric_fold byConnections adaptive c cs).1
    dsimp only at hbelow hsub ⊢
    rw [foldl_append, foldl_cons, foldl_nil]
    generalize cs.foldl (minMetricStep byConnections adaptive) (c, []) = best at hbelow hsub ⊢
    have hin := hsub mem_cons_self
    have hbest := hw best.1 (hseen _ hin)
    have hcmp := @metricCmp_eq (metric byConnections e) _ (metric byConnections best.1) _
      (hw e (mem_append_right (c :: cs) mem_cons_self)) hbest
    have hnew : Below byConnections adaptive e best.1 →
        ∀ d ∈ c :: (cs ++ [e]), Below byConnections adaptive e d := by
      intro he d hd
      rcases mem_append.mp (show d ∈ (c :: cs) ++ [e] from hd) with hd | hd
      · exact quotients_trans hbest.1 he (hbelow _ mem_cons_self d hd)
      · rw [mem_singleton.mp hd]
        exact below_refl
    have hold : Below byConnections adaptive best.1 e → ∀ t ∈ best.1 :: best.2,
        ∀ d ∈ c :: (cs ++ [e]), Below byConnections adaptive t d := by
      intro he t ht d hd
      rcases mem_append.mp (show d ∈ (c :: cs) ++ [e] from hd) with hd | hd
      · exact hbelow t ht d hd
      · rw [mem_singleton.mp hd]
        exact quotients_trans hbest.1 (hbelow t ht _ hin) he
    unfold minMetricStep
    split
    · next hlt =>
      rw [hcmp] at hlt
      intro t ht
      rw [mem_singleton.mp ht]
      exact hnew (by rw [Below, hlt]; exact nofun)
    · next heq =>
      rw [hcmp] at heq
      have hprod := Nat.compare_eq_eq.mp heq
      intro t ht
      rcases mem_append.mp (show t ∈ (best.1 :: best.2) ++ [e] from ht) with ht | ht
      · exact hold (quotients_ne_gt.mpr (Nat.le_of_eq hprod.symm)) t ht
      · rw [mem_singleton.mp ht]
        exact hnew (quotients_ne_gt.mpr (Nat.le_of_eq hprod))
    · next hgt =>
      rw [hcmp] at hgt
      exact hold (quotients_ne_gt.mpr (Nat.le_of_lt (Nat.compare_eq_gt.mp hgt)))

/-- **The selection by metric is exact just when no weight is above `2 ^ 32`.** -/
theorem metric_exact_iff (hcs : Schedulable cs) (adaptive : Bool) :
    MetricExact adaptive cs ↔ ∀ c ∈ cs, (selectionWeight adaptive c).toNat ≤ 2 ^ 32 := by
  have hpos : ∀ c ∈ cs, 0 < (selectionWeight adaptive c).toNat := fun c hc =>
    (selectionWeight_bounds (hcs.policy c hc) (hcs.adaptive c hc)).1
  constructor
  · intro h c hc
    by_contra hlarge
    obtain ⟨heq, hgt⟩ := metricCmp_large (Nat.not_le.mp hlarge)
    cases heq.symm.trans ((h.cmp c hc c hc _ _).trans hgt)
  · intro hle
    have hcmp : ∀ c ∈ cs, ∀ d ∈ cs, ∀ l r,
        metricCmp l (selectionWeight adaptive c) r (selectionWeight adaptive d) =
          quotients l (selectionWeight adaptive c) r (selectionWeight adaptive d) :=
      fun c hc d hd l r => metricCmp_eq ⟨hpos c hc, hle c hc⟩ ⟨hpos d hd, hle d hd⟩
    refine ⟨hcmp, fun c hc d hd e he l m r h h' => ?_, fun hne h byConnections hash => ?_⟩
    · rw [hcmp c hc d hd] at h
      rw [hcmp d hd e he] at h'
      rw [hcmp c hc e he]
      exact quotients_trans (hpos d hd) h h'
    · cases cs with
      | nil => exact absurd rfl hne
      | cons c cs =>
        obtain ⟨hsub, hcount⟩ := @minMetric_fold byConnections adaptive c cs
        obtain ⟨d, hd, heq⟩ := @tieSelect_mem h adaptive _ (cons_ne_nil _ _)
          (hcount.trans hcs.length_le) hash
        exact ⟨d, hsub hd, heq, minMetric_least (fun d hd => ⟨hpos d hd, hle d hd⟩) d hd⟩

/-- A WAN that was registered with the largest weight. -/
def heavy (id : ℕ) (rxBytes : UInt64) : Candidate :=
  ⟨{ wanId := id, fwmark := 1, health := 1, weight := 0xffffffff, adaptiveWeight := 100, rxBytes },
    0xffffffff⟩

theorem metric_exact_plain : MetricExact false [heavy 1 4294967296, heavy 2 0] :=
  (metric_exact_iff ⟨by decide, by decide, by decide⟩ false).mpr (by decide)

/-- A hash that is always zero. -/
def zeroHash : Jhash := ⟨fun _ _ => 0, fun _ _ _ => 0, fun _ _ _ _ => 0, fun _ _ => 0⟩

/-- **A WAN that has received four gigabytes ties with one that has received none**, and is chosen. -/
theorem heavy_ties : Schedulable [heavy 1 4294967296, heavy 2 0] ∧
    metricCmp 4294967296 (selectionWeight true (heavy 1 4294967296)) 0
      (selectionWeight true (heavy 2 0)) = .eq ∧
    quotients 4294967296 (selectionWeight true (heavy 1 4294967296)) 0
      (selectionWeight true (heavy 2 0)) = .gt ∧
    (selectMinMetric zeroHash false 0 true [heavy 1 4294967296, heavy 2 0]).map Wan.wanId = some 1 :=
  ⟨⟨by decide, by decide, by decide⟩, by decide, by decide, by decide⟩

end DreamingOS.Route
