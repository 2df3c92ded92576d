import DreamingOS.Qoe.Run
import Mathlib.Data.List.Induction

namespace DreamingOS.Qoe

/-!
# The path-quality cache — the preferred WAN

* `rank_injective` — no two WANs of an entry tie;
* `Tier`, `choose_spec` — `qoe_choose_preferred_wan` chooses among the healthy paths within the
  margin of the best one;
* `Saturated` — the healthy paths that it takes for none, as all of them have the largest score;
* `preferred_run` — **the preferred WAN, over runs without such paths**.
-/

open List
open List (mem_map)

variable {k : Key} {paths paths' : List Path} {prev w : UInt8} {now : ℕ} {e : Entry} {c : Cache}

/-! ### Ranks -/

/-- What `qoe_hash` does with the mixed key. -/
def mix (value : UInt64) : UInt64 :=
  let value := value ^^^ value >>> 30
  let value := value * 0xbf58476d1ce4e5b9
  let value := value ^^^ value >>> 27
  let value := value * 0x94d049bb133111eb
  value ^^^ value >>> 31

/-- The rank of a WAN for a key. -/
def rank (k : Key) (w : UInt8) : UInt64 := hash { k with key := k.key ^^^ w.toUInt64 <<< (56 : UInt64) }

theorem xorshift_injective {n x y : UInt64} (hn : 0 < n.toNat ∧ n.toNat < 64)
    (h : x ^^^ x >>> n = y ^^^ y >>> n) : x = y := by
  -- the difference is its own shift, so it is zero
  have hself : x ^^^ y = (x ^^^ y) >>> n := by
    rw [UInt64.shiftRight_xor, ← UInt64.xor_right_inj (x ^^^ y >>> n)]
    calc x ^^^ y >>> n ^^^ (x ^^^ y) = y ^^^ y >>> n := by
          rw [UInt64.xor_comm x, UInt64.xor_assoc, ← UInt64.xor_assoc x, UInt64.xor_self,
            UInt64.zero_xor, UInt64.xor_comm]
      _ = x ^^^ x >>> n := h.symm
      _ = x ^^^ y >>> n ^^^ (x >>> n ^^^ y >>> n) := by
          rw [UInt64.xor_comm (x >>> n), UInt64.xor_assoc, ← UInt64.xor_assoc (y >>> n),
            UInt64.xor_self, UInt64.zero_xor]
  rw [← UInt64.xor_eq_zero_iff]
  have hnat := congrArg UInt64.toNat hself
  rw [UInt64.toNat_shiftRight, Nat.mod_eq_of_lt hn.2, Nat.shiftRight_eq_div_pow] at hnat
  rw [← UInt64.toNat_inj]
  by_contra hne
  exact absurd hnat.symm
    (Nat.ne_of_lt (Nat.div_lt_self (Nat.pos_of_ne_zero hne) (Nat.one_lt_two_pow hn.1.ne')))

theorem mul_injective {a b x y : UInt64} (hab : a * b = 1) (h : x * a = y * a) : x = y := by
  rw [← UInt64.mul_one x, ← UInt64.mul_one y, ← hab, ← UInt64.mul_assoc, h, UInt64.mul_assoc]

theorem mix_injective {x y : UInt64} (h : mix x = mix y) : x = y := by
  have hb : (0x94d049bb133111eb : UInt64) * 3573116690164977347 = 1 := rfl
  have ha : (0xbf58476d1ce4e5b9 : UInt64) * 10871156337175269513 = 1 := rfl
  have h := mul_injective hb (xorshift_injective (by decide) h)
  exact xorshift_injective (by decide) (mul_injective ha (xorshift_injective (by decide) h))

/-- **No two WANs tie.** -/
theorem rank_injective (k : Key) : Function.Injective (rank k) := by
  intro w v h
  have hkeys := mix_injective h
  rw [UInt64.xor_left_inj, UInt64.xor_left_inj, UInt64.xor_left_inj, UInt64.xor_right_inj] at hkeys
  have hnat := congrArg UInt64.toNat hkeys
  rw [UInt64.toNat_shiftLeft, UInt64.toNat_shiftLeft, UInt8.toNat_toUInt64, UInt8.toNat_toUInt64,
    Nat.shiftLeft_eq, Nat.shiftLeft_eq] at hnat
  change _ * 2 ^ 56 % _ = _ * 2 ^ 56 % _ at hnat
  have hw := w.toNat_lt
  have hv := v.toNat_lt
  exact UInt8.toNat_inj.mp (by omega)

/-! ### The choice -/

/-- The score up to which a path is as good as this one. -/
def Path.ceiling (p : Path) : ℕ :=
  p.scoreUs.toNat + max (p.scoreUs.toNat * EQUIVALENT_PERCENT / 100) EQUIVALENT_ABS_US

/-- The WAN of a healthy path that is as good as every healthy path, the best one included. -/
def Tier (paths : List Path) (w : UInt8) : Prop :=
  ∃ p ∈ paths, p.wanId = w ∧ p.healthy = true ∧
    ∀ q ∈ paths, q.healthy = true → p.scoreUs.toNat ≤ q.ceiling

/-- There are healthy paths, and all of them have the largest score. -/
def Saturated (paths : List Path) : Prop :=
  (∃ p ∈ paths, p.healthy = true) ∧ ∀ p ∈ paths, p.healthy = true → p.scoreUs.toNat = UINT32_MAX

theorem bestScoreUs_spec (paths : List Path) :
    (∀ p ∈ paths, p.healthy = true → bestScoreUs paths ≤ p.scoreUs.toNat) ∧
      (bestScoreUs paths = UINT32_MAX ∨
        ∃ p ∈ paths, p.healthy = true ∧ bestScoreUs paths = p.scoreUs.toNat) := by
  induction paths using List.reverseRecOn with
  | nil => exact ⟨nofun, .inl rfl⟩
  | append_singleton paths p ih =>
    obtain ⟨hle, hbest⟩ := ih
    have hstep : bestScoreUs (paths ++ [p]) = if p.healthy = true ∧ p.scoreUs.toNat < bestScoreUs paths
        then p.scoreUs.toNat else bestScoreUs paths := foldl_append
    rw [hstep]
    split
    · next hless =>
      refine ⟨fun q hq hhealthy => ?_, .inr ⟨p, mem_append_right _ mem_cons_self, hless.1, rfl⟩⟩
      rcases mem_append.mp hq with hq | hq
      · exact hless.2.le.trans (hle q hq hhealthy)
      · rw [mem_singleton.mp hq]
    · next hnot =>
      refine ⟨fun q hq hhealthy => ?_, hbest.imp_right fun ⟨q, hq, h⟩ => ⟨q, mem_append_left _ hq, h⟩⟩
      rcases mem_append.mp hq with hq | hq
      · exact hle q hq hhealthy
      · obtain rfl := mem_singleton.mp hq
        exact Nat.not_lt.mp fun hlt => hnot ⟨hhealthy, hlt⟩

/-- A path that the walk may select. -/
def Path.Within (ceiling : ℕ) (p : Path) : Prop := p.healthy = true ∧ p.scoreUs.toNat ≤ ceiling

/-- The walk ends with the path of the highest rank. -/
theorem selectPath_spec {ceiling : ℕ} (hids : ∀ p ∈ paths, p.wanId ≠ 0) :
    (selectPath k ceiling paths = (0, 0) ∧ ∀ p ∈ paths, ¬ p.Within ceiling) ∨
    ∃ p ∈ paths, p.Within ceiling ∧ selectPath k ceiling paths = (p.wanId, rank k p.wanId) ∧
      ∀ q ∈ paths, q.Within ceiling → rank k q.wanId ≤ rank k p.wanId := by
  induction paths using List.reverseRecOn with
  | nil => exact .inl ⟨rfl, nofun⟩
  | append_singleton paths p ih =>
    have ih := ih fun q hq => hids q (mem_append_left _ hq)
    have hstep : selectPath k ceiling (paths ++ [p]) =
        if !p.healthy || p.scoreUs.toNat > ceiling then selectPath k ceiling paths
        else if (selectPath k ceiling paths).1 = 0 || rank k p.wanId > (selectPath k ceiling paths).2 then
          (p.wanId, rank k p.wanId)
        else selectPath k ceiling paths := foldl_append
    have hin : ∀ {q}, q ∈ paths ++ [p] → q ∈ paths ∨ q = p := fun hq =>
      (mem_append.mp hq).imp_right mem_singleton.mp
    rw [hstep]
    by_cases hp : p.Within ceiling
    · have hpass : ¬ (!p.healthy || p.scoreUs.toNat > ceiling) = true := by
        simp [hp.1, Nat.not_lt.mpr hp.2]
      rw [if_neg hpass]
      refine .inr ?_
      rcases ih with ⟨hnone, hno⟩ | ⟨q, hq, hwithin, hsel, hall⟩
      · rw [hnone, if_pos (by simp)]
        refine ⟨p, mem_append_right _ mem_cons_self, hp, rfl, fun q hq hq' => ?_⟩
        rcases hin hq with hq | rfl
        · exact absurd hq' (hno q hq)
        · exact UInt64.le_refl _
      · have hne := hids q (mem_append_left _ hq)
        rw [hsel]
        by_cases hgt : rank k p.wanId > rank k q.wanId
        · rw [if_pos (by simp [hgt])]
          refine ⟨p, mem_append_right _ mem_cons_self, hp, rfl, fun r hr hr' => ?_⟩
          rcases hin hr with hr | rfl
          · exact UInt64.le_trans (hall r hr hr') (UInt64.le_of_lt hgt)
          · exact UInt64.le_refl _
        · rw [if_neg (by simp [hne, hgt])]
          refine ⟨q, mem_append_left _ hq, hwithin, rfl, fun r hr hr' => ?_⟩
          rcases hin hr with hr | rfl
          · exact hall r hr hr'
          · exact UInt64.not_lt.mp hgt
    · have hskip : (!p.healthy || p.scoreUs.toNat > ceiling) = true := by
        rw [Path.Within, not_and, Nat.not_le] at hp
        cases hhealthy : p.healthy with
        | false => rfl
        | true => simp [hp hhealthy]
      rw [if_pos hskip]
      refine ih.imp (fun ⟨hnone, hno⟩ => ⟨hnone, fun q hq => ?_⟩)
        fun ⟨q, hq, hwithin, hsel, hall⟩ =>
          ⟨q, mem_append_left _ hq, hwithin, hsel, fun r hr hr' => ?_⟩
      · rcases hin hq with hq | rfl
        · exact hno q hq
        · exact hp
      · rcases hin hr with hr | rfl
        · exact hall r hr hr'
        · exact absurd hr' hp

/-- What is chosen where not all healthy paths are saturated: none just where there is no healthy
    path, the previous WAN where it is in the tier, and else the one of the highest rank. -/
structure Choice (k : Key) (paths : List Path) (prev w : UInt8) : Prop where
  zero : w = 0 ↔ ∀ p ∈ paths, p.healthy = false
  tier : w ≠ 0 → Tier paths w
  keeps : Tier paths prev → w = prev
  highest : ¬ Tier paths prev → ∀ v, Tier paths v → v ≠ w → rank k v < rank k w

theorem choose_spec (hids : ∀ p ∈ paths, p.wanId ≠ 0) (hsat : ¬ Saturated paths) :
    Choice k paths prev (choosePreferredWan k paths prev) := by
  obtain ⟨hle, hbest⟩ := bestScoreUs_spec paths
  unfold choosePreferredWan
  dsimp only
  by_cases hmax : bestScoreUs paths = UINT32_MAX
  · rw [if_pos hmax]
    have hnone : ∀ p ∈ paths, ¬ p.healthy = true := by
      refine fun p hp hhealthy => hsat ⟨⟨p, hp, hhealthy⟩, fun q hq hq' => ?_⟩
      have hbound := hle q hq hq'
      rw [hmax] at hbound
      exact Nat.le_antisymm (Nat.le_pred_of_lt q.scoreUs.toNat_lt) hbound
    have hno : ∀ {v}, ¬ Tier paths v := fun ⟨p, hp, _, hhealthy, _⟩ => hnone p hp hhealthy
    exact ⟨iff_of_true rfl fun p hp => Bool.eq_false_iff.mpr (hnone p hp), fun h => absurd rfl h,
      fun h => absurd h hno, fun _ v hv => absurd hv hno⟩
  obtain ⟨b, hb, hhealthy, hscore⟩ := hbest.resolve_left hmax
  rw [if_neg hmax]
  have hceiling : bestScoreUs paths + equivalentMarginUs (bestScoreUs paths) = b.ceiling := by
    have hlt := b.scoreUs.toNat_lt
    unfold equivalentMarginUs Path.ceiling
    rw [hscore]
    simp only [EQUIVALENT_PERCENT, EQUIVALENT_ABS_US, UINT32_MAX]
    omega
  rw [hceiling]
  have htier : ∀ {v}, Tier paths v ↔ ∃ p ∈ paths, p.wanId = v ∧ p.Within b.ceiling := by
    refine fun {v} => ⟨fun ⟨p, hp, hv, h, hall⟩ => ⟨p, hp, hv, h, hall b hb hhealthy⟩,
      fun ⟨p, hp, hv, h, hwithin⟩ => ⟨p, hp, hv, h, fun q hq hq' => hwithin.trans ?_⟩⟩
    have hmono := hscore ▸ hle q hq hq'
    have hdiv := Nat.div_le_div_right (c := 100) (Nat.mul_le_mul_right EQUIVALENT_PERCENT hmono)
    unfold Path.ceiling
    omega
  have hreal : ∀ {v}, Tier paths v → v ≠ 0 ∧ ¬ ∀ p ∈ paths, p.healthy = false :=
    fun ⟨p, hp, hv, h, _⟩ => ⟨hv ▸ hids p hp, fun hall => by cases h.symm.trans (hall p hp)⟩
  have hany : (prev ≠ 0 && paths.any fun p =>
      p.wanId = prev && p.healthy && p.scoreUs.toNat ≤ b.ceiling) = true ↔ Tier paths prev := by
    simp only [Bool.and_eq_true, decide_eq_true_iff, any_eq_true, htier, Path.Within, and_assoc]
    exact ⟨And.right, fun h => ⟨(hreal (htier.mpr h)).1, h⟩⟩
  by_cases hprev : Tier paths prev
  · rw [if_pos (hany.mpr hprev)]
    exact ⟨iff_of_false (hreal hprev).1 (hreal hprev).2, fun _ => hprev, fun _ => rfl,
      fun h => absurd hprev h⟩
  rw [if_neg fun h => hprev (hany.mp h)]
  rcases @selectPath_spec k paths b.ceiling hids with ⟨-, hno⟩ | ⟨p, hp, hwithin, hsel, hall⟩
  · exact absurd ⟨hhealthy, Nat.le_add_right _ _⟩ (hno b hb)
  rw [hsel]
  have hw : Tier paths p.wanId := htier.mpr ⟨p, hp, rfl, hwithin⟩
  refine ⟨iff_of_false (hreal hw).1 (hreal hw).2, fun _ => hw, fun h => absurd h hprev,
    fun _ v hv hne => ?_⟩
  obtain ⟨q, hq, rfl, hq'⟩ := htier.mp hv
  exact UInt64.lt_of_le_of_ne (hall q hq hq') fun heq => hne (rank_injective k heq)

theorem Choice.of_mem (h : Choice k paths prev w) (hmem : ∀ p, p ∈ paths ↔ p ∈ paths') :
    Choice k paths' prev w := by
  have htier : Tier paths = Tier paths' := by
    funext v
    unfold Tier
    simp only [hmem]
  obtain ⟨hzero, htiers, hkeeps, hhighest⟩ := h
  simp only [hmem, htier] at hzero htiers hkeeps hhighest
  exact ⟨hzero, htiers, hkeeps, hhighest⟩

/-- The paths are sorted before the choice. -/
theorem choose_sorted (hids : ∀ p ∈ paths, p.wanId ≠ 0) (hsat : ¬ Saturated paths) :
    Choice k paths prev (choosePreferredWan k (paths.mergeSort Path.le) prev) := by
  have hsat' : ¬ Saturated (paths.mergeSort Path.le) := by
    unfold Saturated
    simp only [mem_mergeSort]
    exact hsat
  exact (choose_spec (fun p hp => hids p (mem_mergeSort.mp hp)) hsat').of_mem fun _ => mem_mergeSort

/-- **What was not chosen does not matter**: where neither choice keeps a WAN, the same one is chosen
    from the same tier, and from fewer WANs with the chosen one among them. -/
theorem choose_subset {prev' w' : UInt8} (h : Choice k paths prev w) (h' : Choice k paths' prev' w')
    (hprev : ¬ Tier paths prev) (hprev' : ¬ Tier paths' prev')
    (hsub : ∀ v, Tier paths' v → Tier paths v) (hw : w ≠ 0 → Tier paths' w) : w' = w := by
  have hsome : ∀ {paths : List Path} {prev v w}, Choice k paths prev w → Tier paths v → w ≠ 0 := by
    rintro paths prev v w h ⟨p, hp, -, hhealthy, -⟩ hzero
    cases hhealthy.symm.trans (h.zero.mp hzero p hp)
  by_contra hne
  by_cases hzero : w' = 0
  · exact hsome h' (hw fun hw0 => hne (hzero.trans hw0.symm)) hzero
  have hv := hsub w' (h'.tier hzero)
  have hlt := h.highest hprev w' hv hne
  exact UInt64.lt_irrefl _ (UInt64.lt_trans hlt (h'.highest hprev' w (hw (hsome h hv)) (Ne.symm hne)))

/-! ### A line goes down -/

/-- The preferred WAN of an entry is right. -/
structure Good (e : Entry) : Prop where
  ids : ∀ p ∈ e.paths, p.wanId ≠ 0
  zero : e.preferredWan = 0 ↔ ∀ p ∈ e.paths, p.healthy = false
  tier : e.preferredWan ≠ 0 → Tier e.paths e.preferredWan

def Path.down (wanId : UInt8) (p : Path) : Path := if p.wanId = wanId then { p with healthy := false } else p

theorem Path.down_wanId (wanId : UInt8) (p : Path) : (p.down wanId).wanId = p.wanId := by
  unfold down
  split <;> rfl

/-- The paths that are left are not saturated, where a choice has to be made. -/
def Spared (wanId : UInt8) (e : Entry) : Prop :=
  e.preferredWan = wanId → ¬ Saturated (e.paths.map (Path.down wanId))

theorem Good.wanDown (h : Good e) (hfree : e.free = false) (hvalid : now < e.validUntilMs)
    (hspared : Spared w e) : Good (e.wanDown w now) := by
  have hids : ∀ p ∈ e.paths.map (Path.down w), p.wanId ≠ 0 := by
    intro p hp
    obtain ⟨q, hq, rfl⟩ := mem_map.mp hp
    rw [Path.down_wanId]
    exact h.ids q hq
  unfold Entry.wanDown
  rw [if_neg (by simp [hfree, hvalid])]
  dsimp only
  by_cases hpreferred : e.preferredWan = w
  · rw [if_pos hpreferred]
    have hchoice := @choose_sorted e.key _ 0 hids (hspared hpreferred)
    have hmem : ∀ p, p ∈ e.paths.map (Path.down w) ↔
        p ∈ (e.paths.map (Path.down w)).mergeSort Path.le := fun p => mem_mergeSort.symm
    exact ⟨fun p hp => hids p ((hmem p).mpr hp), (hchoice.of_mem hmem).zero, (hchoice.of_mem hmem).tier⟩
  · rw [if_neg hpreferred]
    have hsame : ∀ q : Path, (q.down w).healthy = true → q.down w = q ∧ q.healthy = true := by
      intro q hq
      unfold Path.down at hq ⊢
      split at hq
      · cases hq
      · next hne => exact ⟨if_neg hne, hq⟩
    have htier : e.preferredWan ≠ 0 → Tier (e.paths.map (Path.down w)) e.preferredWan := by
      intro hne
      obtain ⟨p, hp, hid, hhealthy, hall⟩ := h.tier hne
      have hkept : p.down w = p := if_neg (hid ▸ hpreferred)
      refine ⟨p, mem_map.mpr ⟨p, hp, hkept⟩, hid, hhealthy, fun r hr hr' => ?_⟩
      obtain ⟨q, hq, rfl⟩ := mem_map.mp hr
      obtain ⟨heq, hq'⟩ := hsame q hr'
      rw [heq]
      exact hall q hq hq'
    refine ⟨hids, ⟨fun hzero p hp => ?_, fun hnone => ?_⟩, htier⟩
    · obtain ⟨q, hq, rfl⟩ := mem_map.mp hp
      rw [Bool.eq_false_iff]
      intro hq'
      cases (hsame q hq').2.symm.trans (h.zero.mp hzero q hq)
    · by_contra hne
      obtain ⟨p, hp, -, hhealthy, -⟩ := htier hne
      cases hhealthy.symm.trans (hnone p hp)

/-! ### Runs -/

variable {m : Key → Option Entry} {scope : UInt32} {family : UInt8} {key : UInt64}
  {policyPrio : UInt16} {ttl now' : ℕ}

/-- The paths of a record, each of another WAN. -/
def Distinct (paths : List Path) : Prop := (paths.map Path.wanId).Nodup ∧ ∀ p ∈ paths, p.wanId ≠ 0

theorem Path.scored_wanId (p : Path) : p.scored.wanId = p.wanId := by
  unfold scored
  split <;> rfl

theorem normalPaths_distinct {seen : List UInt8} (h : Distinct paths)
    (hseen : ∀ p ∈ paths, p.wanId ∉ seen) : normalPaths seen paths = paths.map Path.scored := by
  induction paths generalizing seen with
  | nil => rfl
  | cons p paths ih =>
    obtain ⟨hnodup, hids⟩ := h
    obtain ⟨hp, hnodup⟩ := nodup_cons.mp hnodup
    have hfresh : ¬ (decide (p.wanId = 0) || seen.contains p.wanId) = true := by
      simp [hids p mem_cons_self, hseen p mem_cons_self]
    unfold normalPaths
    rw [if_neg hfresh, map_cons, ih ⟨hnodup, fun q hq => hids q (mem_cons_of_mem _ hq)⟩]
    intro q hq hin
    rcases mem_cons.mp hin with heq | hin
    · exact hp (heq ▸ List.mem_map_of_mem hq)
    · exact hseen q (mem_cons_of_mem _ hq) hin

theorem recordPaths_distinct (h : Distinct paths)
    (hpaths : recordPaths scope family key policyPrio paths = some paths') :
    paths' = (paths.map Path.scored).mergeSort Path.le := by
  unfold recordPaths at hpaths
  rw [normalPaths_distinct h fun _ _ => not_mem_nil] at hpaths
  split at hpaths
  · cases hpaths
  dsimp only at hpaths
  split at hpaths
  · cases hpaths
  · exact (Option.some.inj hpaths).symm

/-- The preferred WAN of the entry of a key, while it has not expired. -/
def preferred (c : Cache) (k : Key) (now : ℕ) : UInt8 := (live c k now).elim 0 Entry.preferredWan

theorem choice_recorded (h : Distinct paths) (hsat : ¬ Saturated (paths.map Path.scored))
    (hpaths : recordPaths scope family key policyPrio paths = some paths') :
    Choice k (paths.map Path.scored) (preferred c k now) (recorded c k paths' now ttl).preferredWan := by
  have hprev : (recorded c k paths' now ttl).preferredWan =
      choosePreferredWan k paths' (preferred c k now) := by
    unfold recorded newEntry preferred live
    cases present c k with
    | none => rfl
    | some old => by_cases hlive : now < old.validUntilMs <;> simp [Option.filter, hlive]
  rw [hprev, recordPaths_distinct h hpaths]
  refine choose_sorted (fun p hp => ?_) hsat
  obtain ⟨q, hq, rfl⟩ := mem_map.mp hp
  rw [Path.scored_wanId]
  exact h.2 q hq

/-- Runs of records and of lines that go down, at which no choice is made among saturated paths. -/
inductive Spares : Cache → ℕ → Prop
  | start (j : ℕ) (c : Cache) (hj : 1 ≤ j) (hc : Cache.init (2 ^ j) = some c) : Spares c 0
  | record (c : Cache) (now now' ttl : ℕ) (scope : UInt32) (family : UInt8) (key : UInt64)
    (policyPrio : UInt16) (paths : List Path) (h : Spares c now) (hnow : now ≤ now')
    (hmax : now' < UINT64_MAX) (hpaths : Distinct paths)
    (hsat : ¬ Saturated (paths.map Path.scored)) :
    Spares ((record c scope family key policyPrio paths now' ttl).getD c) now'
  | wanDown (c : Cache) (now now' : ℕ) (w : UInt8) (h : Spares c now) (hnow : now ≤ now')
    (hspared : ∀ e ∈ c.entries, e.free = false → now' < e.validUntilMs → Spared w e) :
    Spares (markWanDown c w now').1 now'

/-- The entries that have not expired are right. -/
def AllGood (c : Cache) (now : ℕ) : Prop :=
  ∀ e ∈ c.entries, e.free = false → now < e.validUntilMs → Good e

theorem spares_inv (h : Spares c now) : (∃ m, Inv c m) ∧ AllGood c now := by
  induction h with
  | start j c hj hc =>
    refine ⟨⟨_, run_inv (.start j c hj hc)⟩, fun e he hfree => ?_⟩
    unfold Cache.init at hc
    split at hc
    · obtain rfl := Option.some.inj hc
      rw [eq_of_mem_replicate he] at hfree
      cases hfree
    · cases hc
  | record c now now' ttl scope family key policyPrio paths _ hnow hmax hdistinct hsat ih =>
    obtain ⟨⟨m, hinv⟩, hgood⟩ := ih
    have hlater : AllGood c now' := fun e he hfree hvalid => hgood e he hfree (hnow.trans_lt hvalid)
    cases hpaths : recordPaths scope family key policyPrio paths with
    | none =>
      rw [record_refused hpaths]
      exact ⟨⟨m, hinv⟩, hlater⟩
    | some paths' =>
      obtain ⟨c', hc', hinv', -, hrecords⟩ : ∃ c', record c scope family key policyPrio paths now' ttl =
        some c' ∧ _ := hinv.after_record hmax hpaths
      rw [hc']
      refine ⟨⟨_, hinv'⟩, fun e he hfree hvalid => ?_⟩
      have hold : e ∈ c.entries ∨
          e = recorded c ⟨key, scope.toUInt8, family, policyPrio⟩ paths' now' ttl := by
        cases hrecords with
        | same i _ _ _ _ hentries => exact mem_or_eq_of_mem_set (hentries ▸ he)
        | put i _ _ _ _ hentries => exact mem_or_eq_of_mem_set (hentries ▸ he)
      rcases hold with hold | rfl
      · exact hlater e hold hfree hvalid
      have hchoice := @choice_recorded ⟨key, scope.toUInt8, family, policyPrio⟩ _ _ now' c _ _ _ _ ttl
        hdistinct hsat hpaths
      have hmem : ∀ p, p ∈ paths.map Path.scored ↔ p ∈ paths' := by
        rw [recordPaths_distinct hdistinct hpaths]
        exact fun p => mem_mergeSort.symm
      refine ⟨fun p hp => ?_, (hchoice.of_mem hmem).zero, (hchoice.of_mem hmem).tier⟩
      obtain ⟨q, hq, rfl⟩ := mem_map.mp ((hmem p).mpr hp)
      rw [Path.scored_wanId]
      exact hdistinct.2 q hq
  | wanDown c now now' w _ hnow hspared ih =>
    obtain ⟨⟨m, hinv⟩, hgood⟩ := ih
    refine ⟨⟨_, hinv.after_wanDown w⟩, ?_⟩
    have hlater : AllGood c now' := fun e he hfree hvalid => hgood e he hfree (hnow.trans_lt hvalid)
    unfold markWanDown
    split
    · exact hlater
    intro e he hfree hvalid
    obtain ⟨e, hold, rfl⟩ := mem_map.mp he
    obtain ⟨-, hfree', -, hvalid'⟩ := @wanDown_same now' w e
    rw [hfree'] at hfree
    rw [hvalid'] at hvalid
    exact (hlater e hold hfree hvalid).wanDown hfree hvalid (hspared e hold hfree hvalid)

/-- What holds of the preferred WANs: of those of the entries, and of the one that a record chooses. -/
structure Preferred (c : Cache) (now : ℕ) : Prop where
  entries : ∀ e ∈ c.entries, e.free = false → now < e.validUntilMs →
    (e.preferredWan = 0 ↔ ∀ p ∈ e.paths, p.healthy = false) ∧
      (e.preferredWan ≠ 0 → Tier e.paths e.preferredWan)
  record : ∀ now', now ≤ now' → now' < UINT64_MAX → ∀ scope family key policyPrio paths paths' ttl,
    recordPaths scope family key policyPrio paths = some paths' → Distinct paths →
    ¬ Saturated (paths.map Path.scored) →
    let k : Key := ⟨key, scope.toUInt8, family, policyPrio⟩
    ∃ c' e, record c scope family key policyPrio paths now' ttl = some c' ∧ present c' k = some e ∧
      Choice k (paths.map Path.scored) (preferred c k now') e.preferredWan
  same : ∀ k paths paths' prev prev' w w', Choice k paths prev w → Choice k paths' prev' w' →
    ¬ Tier paths prev → ¬ Tier paths' prev' → (∀ v, Tier paths' v → Tier paths v) →
    (w ≠ 0 → Tier paths' w) → w' = w

/-- **The preferred WAN**, over every run without choices among saturated paths. -/
theorem preferred_run (h : Spares c now) : Preferred c now := by
  obtain ⟨⟨m, hinv⟩, hgood⟩ := spares_inv h
  refine ⟨fun e he hfree hvalid => ?_, ?_,
    fun _ _ _ _ _ _ _ h h' hprev hprev' hsub hw => choose_subset h h' hprev hprev' hsub hw⟩
  · have hright := hgood e he hfree hvalid
    exact ⟨hright.zero, hright.tier⟩
  · intro now' _ hmax scope family key policyPrio paths paths' ttl hpaths hdistinct hsat
    obtain ⟨c', hc', -, hpresent, -⟩ : ∃ c', Qoe.record c scope family key policyPrio paths now' ttl =
      some c' ∧ _ := hinv.after_record hmax hpaths
    exact ⟨c', _, hc', hpresent, choice_recorded hdistinct hsat hpaths⟩

/-- The WAN of an entry goes down. -/
theorem preferred_run_down : ∃ c, Spares c 9 ∧ (∀ e ∈ c.entries, e.preferredWan = 0) ∧
    Preferred c 9 := by
  have hrecord := (Spares.start 1 _ (Nat.le_refl 1) rfl).record _ 0 5 100 3 AF_INET (qoeKey 1 2) 1
    [⟨1, true, 90, 20000, 0, 0⟩] (by decide) (by decide)
    (by unfold Distinct; decide) (by unfold Saturated; decide)
  have hdown := hrecord.wanDown _ 5 9 1 (by decide) (by unfold Spared Saturated; decide +kernel)
  exact ⟨_, hdown, by decide +kernel, preferred_run hdown⟩

/-- A healthy path with the largest score, and none is preferred. -/
theorem saturated_none : ∃ c, record { entries := List.replicate 2 Entry.zero } 3 AF_INET (qoeKey 1 2) 1
    [⟨1, true, 90, 20000, 0, 0xffffffff⟩] 5 100 = some c ∧
    ∃ e ∈ c.entries, e.free = false ∧ 5 < e.validUntilMs ∧ e.preferredWan = 0 ∧
      ∃ p ∈ e.paths, p.healthy = true :=
  ⟨_, rfl, by decide +kernel⟩

end DreamingOS.Qoe
