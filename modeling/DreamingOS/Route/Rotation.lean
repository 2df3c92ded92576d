import DreamingOS.Route.FirstMatch
import DreamingOS.Lib.Wheel

namespace DreamingOS.Route

/-!
# Policy routes — turns of the weighted round-robin

* `weights`, `slotIndex_eq_some` — the slot selection turns a wheel, without overflow of its 64 bits;
* `serve`, `serve_rotates` — selections one after the other use slots one after the other;
* `rotation_exact` — **over one full turn every candidate is chosen as often as it weighs**, from
  whatever slot on, and every selection returns a candidate.
-/

open Wheel List Option

/-! ### The wheel -/

/-- The weights of the candidates, as numbers. -/
def weights (adaptive : Bool) (cs : List Candidate) : List ℕ :=
  cs.map fun c => (selectionWeight adaptive c).toNat

theorem weights_cons (adaptive : Bool) (c : Candidate) (cs : List Candidate) :
    weights adaptive (c :: cs) = (selectionWeight adaptive c).toNat :: weights adaptive cs := rfl

variable {cs : List Candidate} {adaptive : Bool}

/-- The walk over the weights is the one of the wheel. -/
theorem pointWalk_eq {point : UInt64} :
    pointWalk adaptive point cs = pick (weights adaptive cs) point.toNat := by
  induction cs generalizing point with
  | nil => rfl
  | cons c cs ih =>
    rw [weights_cons, pick_cons]
    unfold pointWalk
    by_cases hlt : point < selectionWeight adaptive c
    · rw [if_pos hlt, if_pos (UInt64.lt_iff_toNat_lt.mp hlt)]
    have hle : selectionWeight adaptive c ≤ point := UInt64.not_lt.mp hlt
    rw [if_neg hlt, if_neg fun h => hlt (UInt64.lt_iff_toNat_lt.mpr h), ih,
      UInt64.toNat_sub_of_le _ _ hle]

theorem totalWeight_eq
    (h : (weights adaptive cs).sum < 2 ^ 64) : (totalWeight adaptive cs).toNat = (weights adaptive cs).sum := by
  have hall : ∀ (cs : List Candidate) (total : UInt64), total.toNat + (weights adaptive cs).sum < 2 ^ 64 →
      (cs.foldl (fun total c => total + selectionWeight adaptive c) total).toNat =
        total.toNat + (weights adaptive cs).sum := by
    intro cs
    induction cs with
    | nil => exact fun _ _ => rfl
    | cons c cs ih =>
      intro total hsum
      rw [weights_cons, sum_cons] at hsum ⊢
      have hadd : (total + selectionWeight adaptive c).toNat =
          total.toNat + (selectionWeight adaptive c).toNat := by
        rw [UInt64.toNat_add]
        exact Nat.mod_eq_of_lt (by omega)
      rw [foldl_cons, ih _ (by rw [hadd]; omega), hadd, Nat.add_assoc]
  have hzero := hall cs 0 (by rw [UInt64.toNat_zero, Nat.zero_add]; exact h)
  rwa [UInt64.toNat_zero, Nat.zero_add] at hzero

/-- A weight is positive and well below the word. -/
theorem selectionWeight_bounds {adaptive : Bool} {c : Candidate} (hpolicy : c.policyWeight ≠ 0)
    (hadaptive : c.wan.adaptiveWeight ≤ 100) :
    0 < (selectionWeight adaptive c).toNat ∧ (selectionWeight adaptive c).toNat ≤ 100 * 2 ^ 32 := by
  have hpos : 0 < c.policyWeight.toNat := by
    rw [Nat.pos_iff_ne_zero]
    exact fun h => hpolicy (UInt32.toNat_inj.mp h)
  have hlt := c.policyWeight.toNat_lt
  unfold selectionWeight
  cases adaptive with
  | false =>
    show 0 < c.policyWeight.toUInt64.toNat ∧ c.policyWeight.toUInt64.toNat ≤ _
    rw [UInt32.toNat_toUInt64]
    omega
  | true =>
    -- the factor is the adaptive weight, or 100
    obtain ⟨f, hf, hfpos, hfle⟩ : ∃ f : UInt64,
        (if c.wan.adaptiveWeight ≠ 0 then c.wan.adaptiveWeight.toUInt64 else 100) = f ∧
          0 < f.toNat ∧ f.toNat ≤ 100 := by
      refine ⟨_, rfl, ?_⟩
      by_cases hzero : c.wan.adaptiveWeight = 0
      · rw [if_neg (not_not.mpr hzero)]
        decide
      rw [if_pos hzero, UInt32.toNat_toUInt64]
      refine ⟨Nat.pos_of_ne_zero fun h => hzero (UInt32.toNat_inj.mp h), ?_⟩
      exact UInt32.le_iff_toNat_le.mp hadaptive
    show 0 < (c.policyWeight.toUInt64 * _).toNat ∧ (c.policyWeight.toUInt64 * _).toNat ≤ _
    have hprod : c.policyWeight.toNat * f.toNat ≤ 2 ^ 32 * 100 := Nat.mul_le_mul hlt.le hfle
    rw [hf, UInt64.toNat_mul, UInt32.toNat_toUInt64,
      Nat.mod_eq_of_lt (Nat.lt_of_le_of_lt hprod (by decide))]
    exact ⟨Nat.mul_pos hpos hfpos, by omega⟩

/-- What the code knows of a list of candidates. -/
structure Schedulable (cs : List Candidate) : Prop where
  length_le : cs.length ≤ JMX_MAX_WAN_IFACES
  policy : ∀ c ∈ cs, c.policyWeight ≠ 0
  adaptive : ∀ c ∈ cs, c.wan.adaptiveWeight ≤ 100

theorem schedulable_candidates {s : State} (h : Inv s) (r : RouteRule) :
    Schedulable (candidates s.wans r) := by
  have hcandidate : ∀ c ∈ candidates s.wans r, c.policyWeight ≠ 0 ∧ c.wan.adaptiveWeight ≤ 100 := by
    intro c hc
    obtain ⟨m, -, hm⟩ := mem_candidates hc
    obtain ⟨hbyId, -, -, hpolicy⟩ := candidate_eq_some hm
    obtain ⟨-, -, hget⟩ := wanById_eq_some hbyId
    exact ⟨hpolicy, h.adaptive c.wan (mem_of_getElem? hget)⟩
  exact ⟨length_candidates s.wans r, fun c hc => (hcandidate c hc).1, fun c hc => (hcandidate c hc).2⟩

theorem Schedulable.sum_lt (h : Schedulable cs) (adaptive : Bool) :
    (weights adaptive cs).sum < 2 ^ 64 := by
  have hle : (weights adaptive cs).sum ≤ cs.length * (100 * 2 ^ 32) := by
    have hall : ∀ w ∈ weights adaptive cs, w ≤ 100 * 2 ^ 32 := by
      intro w hw
      obtain ⟨c, hc, rfl⟩ := List.mem_map.mp hw
      exact (selectionWeight_bounds (h.policy c hc) (h.adaptive c hc)).2
    have hsum : (weights adaptive cs).sum ≤ (weights adaptive cs).length * (100 * 2 ^ 32) :=
      sum_le_card_nsmul _ _ hall
    have hlen : (weights adaptive cs).length = cs.length := length_map _
    rwa [hlen] at hsum
  have hlen : cs.length * (100 * 2 ^ 32) ≤ 8 * (100 * 2 ^ 32) := Nat.mul_le_mul_right _ h.length_le
  omega

theorem Schedulable.sum_pos (h : Schedulable cs) (adaptive : Bool)
    (hne : cs ≠ []) : 0 < (weights adaptive cs).sum := by
  cases cs with
  | nil => exact absurd rfl hne
  | cons c cs =>
    rw [weights_cons, sum_cons]
    have hpos := (@selectionWeight_bounds adaptive c (h.policy c mem_cons_self)
      (h.adaptive c mem_cons_self)).1
    omega

/-- The slot selection turns the wheel of the weights. -/
theorem slotIndex_eq_some (adaptive : Bool) (h : Schedulable cs) (hne : cs ≠ []) (slot : UInt64) :
    pick (weights adaptive cs) (slot.toNat % (weights adaptive cs).sum) =
      some (slotIndex adaptive cs slot) := by
  have hpos := h.sum_pos adaptive hne
  have htotal := totalWeight_eq (h.sum_lt adaptive)
  have hnonzero : totalWeight adaptive cs ≠ 0 := by
    intro hzero
    rw [hzero, UInt64.toNat_zero] at htotal
    omega
  have hsome := pick_isSome.mpr (Nat.mod_lt slot.toNat hpos)
  obtain ⟨i, hi⟩ := isSome_iff_exists.mp hsome
  unfold slotIndex
  dsimp only
  rw [if_neg hnonzero, pointWalk_eq, UInt64.toNat_mod, htotal, hi]
  rfl

variable {i : ℕ}

/-- One full turn, from any slot on. -/
theorem count_slotIndex (h : Schedulable cs)
    (hi : i < cs.length) {slot : UInt64} (hslot : slot.toNat + (weights adaptive cs).sum ≤ 2 ^ 64) :
    Nat.count (fun k => slotIndex adaptive cs (slot + UInt64.ofNat k) = i) (weights adaptive cs).sum =
      (selectionWeight adaptive cs[i]).toNat := by
  have hne : cs ≠ [] := ne_nil_of_length_pos (Nat.lt_of_le_of_lt (Nat.zero_le i) hi)
  have hiw : i < (weights adaptive cs).length := by
    rw [weights, length_map]
    exact hi
  have hwindow := count_window hiw slot.toNat
  have hget : (weights adaptive cs)[i] = (selectionWeight adaptive cs[i]).toNat := getElem_map _
  rw [hget] at hwindow
  rw [← hwindow, Nat.count_eq_card_filter_range, Nat.count_eq_card_filter_range]
  congr 1
  apply Finset.filter_congr
  intro k hk
  have hk := Finset.mem_range.mp hk
  have hsum := h.sum_lt adaptive
  have hnat : (slot + UInt64.ofNat k).toNat = slot.toNat + k := by
    have hsmall : k < UInt64.size := Nat.lt_trans hk hsum
    rw [UInt64.toNat_add, UInt64.toNat_ofNat_of_lt' hsmall]
    exact Nat.mod_eq_of_lt (by omega)
  rw [← hnat, slotIndex_eq_some adaptive h hne, some_inj]

/-! ### Selections one after the other -/

/-- Selections of flows, one after the other: what each returns. -/
def serve (h : Jhash) : State → List (UInt64 × FlowKey × Bool) → List (Option SelectErrno × Selection)
  | _, [] => []
  | s, (jiffies, key, acquire) :: requests =>
    let result := selectWan h jiffies key acquire s
    (result.1, result.2.1) :: serve h result.2.2 requests

/-- A WAN, apart from its connections. -/
def Wan.idle (wan : Wan) : Wan := { wan with activeConn := 0 }

def Candidate.idle (c : Candidate) : Candidate := { c with wan := c.wan.idle }

/-- A rule, apart from its hits. -/
def RouteRule.settled (r : RouteRule) : RouteRule := { r with hitCount := 0, lastHitJiffies := 0 }

/-- Two states that differ in hits, connections and counters only. -/
structure Alike (s s' : State) : Prop where
  rules : s'.tables.rules.map RouteRule.settled = s.tables.rules.map RouteRule.settled
  slots : s'.tables.slots = s.tables.slots
  carriers : s'.tables.carriers = s.tables.carriers
  wans : s'.wans.map Wan.idle = s.wans.map Wan.idle

theorem Alike.refl (s : State) : Alike s s := ⟨rfl, rfl, rfl, rfl⟩

theorem wanById_idle (wans : List Wan) (id : ℕ) :
    wanById (wans.map Wan.idle) id = (wanById wans id).map Wan.idle := by
  unfold wanById
  split
  · rw [getElem?_map]
    cases wans[id - 1]? with
    | none => rfl
    | some wan =>
      show Option.filter _ (some wan.idle) = Option.map Wan.idle (Option.filter _ (some wan))
      rw [filter_some, filter_some]
      show (if decide (wan.wanId = id) = true then some wan.idle else none) =
        Option.map Wan.idle (if decide (wan.wanId = id) = true then some wan else none)
      split
      · rfl
      · rfl
  · rfl

theorem candidate_idle (wans : List Wan) (id weight : ℕ) :
    candidate (wans.map Wan.idle) id weight = (candidate wans id weight).map Candidate.idle := by
  unfold candidate
  rw [wanById_idle]
  cases wanById wans id with
  | none => rfl
  | some wan =>
    show (if wan.health = 0 ∨ wan.fwmark = 0 then none else _) = _
    dsimp only
    split
    · rfl
    · rfl

theorem candidates_idle (wans : List Wan) (r : RouteRule) :
    candidates (wans.map Wan.idle) r = (candidates wans r).map Candidate.idle := by
  unfold candidates
  rw [map_filterMap]
  congr 1
  funext m
  exact candidate_idle wans m.1 m.2

/-- Connections do not weigh. -/
theorem weights_idle (adaptive : Bool) (cs : List Candidate) :
    weights adaptive (cs.map Candidate.idle) = weights adaptive cs := by
  unfold weights
  rw [List.map_map]
  rfl

variable {s s' : State}

theorem Alike.same_candidates (h : Alike s s') {r r' : RouteRule} (hr : r'.settled = r.settled) :
    (candidates s'.wans r').map Candidate.idle = (candidates s.wans r).map Candidate.idle := by
  have hrule : ∀ (wans : List Wan) (r : RouteRule), candidates wans r = candidates wans r.settled :=
    fun _ _ => rfl
  rw [← candidates_idle, ← candidates_idle, h.wans, hrule, hr, ← hrule]

variable {key : FlowKey}

theorem Alike.canTake (h : Alike s s') {r r' : RouteRule}
    (hr : r'.settled = r.settled) : CanTake s' key r' ↔ CanTake s key r := by
  have hrule : ∀ (r : RouteRule), ruleMatch s.tables.carriers r key =
    ruleMatch s.tables.carriers r.settled key := fun _ => rfl
  have hnil : candidates s'.wans r' = [] ↔ candidates s.wans r = [] := by
    rw [← map_eq_nil_iff (f := Candidate.idle), h.same_candidates hr, map_eq_nil_iff]
  rw [canTake_iff, canTake_iff, h.carriers, hrule, hr, ← hrule, Ne, Ne, hnil]

/-- The rule at a place, in states that are alike. -/
theorem Alike.rule (h : Alike s s') (i : ℕ) :
    (s'.tables.rules[i]?).map RouteRule.settled = (s.tables.rules[i]?).map RouteRule.settled := by
  rw [← getElem?_map, ← getElem?_map, h.rules]

/-- The rule at a place is the one that takes a flow. -/
structure Takes (s : State) (key : FlowKey) (i : ℕ) (r : RouteRule) : Prop where
  rule : s.tables.rules[i]? = some r
  canTake : CanTake s key r
  first : ∀ j < i, ∀ r', s.tables.rules[j]? = some r' → ¬CanTake s key r'

variable {r : RouteRule}

theorem Alike.takes (h : Alike s s')
    (ht : Takes s key i r) : ∃ r', Takes s' key i r' ∧ r'.settled = r.settled := by
  have hi := h.rule i
  rw [ht.rule] at hi
  obtain ⟨r', hr', hsettled⟩ := map_eq_some_iff.mp hi
  refine ⟨r', ⟨hr', (h.canTake hsettled).mpr ht.canTake, fun j hj q' hq' hcan => ?_⟩, hsettled⟩
  have hjrule := h.rule j
  rw [hq'] at hjrule
  obtain ⟨q, hq, hsame⟩ := map_eq_some_iff.mp hjrule.symm
  exact ht.first j hj q hq ((h.canTake hsame.symm).mp hcan)

/-- The loop stops at the rule that takes the flow. -/
theorem Takes.selectFrom {s : State} (ht : Takes s key i r)
    (h : Jhash) (jiffies : UInt64) : ∃ wan seq,
      Route.selectFrom h jiffies s key 0 s.tables.rules = some (i, r, wan, seq) ∧
        selectWanNolock h jiffies s i r key = some (wan, seq) := by
  cases hsel : Route.selectFrom h jiffies s key 0 s.tables.rules with
  | none => exact absurd ht.canTake (selectFrom_none.mp hsel r (mem_of_getElem? ht.rule))
  | some found =>
    obtain ⟨j, r', wan, seq⟩ := found
    obtain ⟨front, back, hsplit, hj, hcan, hfront, hwan⟩ := selectFrom_some hsel
    rw [Nat.zero_add] at hj
    have hget : s.tables.rules[j]? = some r' := by
      rw [hsplit, hj, getElem?_append_right (Nat.le_refl _), Nat.sub_self]
      rfl
    obtain hlt | heq | hgt := Nat.lt_trichotomy j i
    · exact absurd hcan (ht.first j hlt r' hget)
    · subst heq
      rw [ht.rule] at hget
      obtain rfl := some.inj hget
      exact ⟨wan, seq, rfl, hwan⟩
    · -- the rule in front would have been taken
      have hmem : r ∈ front := by
        have hi := ht.rule
        rw [hsplit, getElem?_append_left (hj ▸ hgt)] at hi
        exact mem_of_getElem? hi
      exact absurd ht.canTake (hfront r hmem)

/-- A rule that hands its flows round. -/
def Rotates (r : RouteRule) : Prop :=
  r.stickyMode = JMX_STICKY_NEW_CONN ∨ r.stickyMode = JMX_STICKY_ADAPTIVE_PENALTY

/-- One selection of such a rule takes the candidate at its counter, and counts on. -/
theorem selectWanNolock_rotates {s : State} (hmode : Rotates r)
    (hi : i < JMX_MAX_ROUTE_RULES) (hne : candidates s.wans r ≠ []) (h : Jhash) (jiffies : UInt64)
    (key : FlowKey) :
    selectWanNolock h jiffies s i r key = let slot := UInt64.ofNat (s.tables.newFlowSeq.getD i 0)
      (slotSelect (adaptiveRule s.tables.slots r) (candidates s.wans r) slot).map
        (·, s.tables.newFlowSeq.set i (slot + 1).toNat) := by
  have hother : r.stickyMode ≠ JMX_STICKY_PRIMARY_BACKUP ∧ r.stickyMode ≠ JMX_STICKY_DOWNLOAD ∧
      r.stickyMode ≠ JMX_STICKY_CONN_CNT := by
    obtain hm | hm := hmode
    · rw [hm]
      decide
    · rw [hm]
      decide
  unfold selectWanNolock
  cases hcs : candidates s.wans r with
  | nil => exact absurd hcs hne
  | cons first rest =>
    dsimp only
    rw [if_neg hother.1, if_neg hother.2.1, if_neg hother.2.2, if_pos ⟨hmode, hi⟩]

/-- The id of the candidate at a slot. -/
def idAt (adaptive : Bool) (cs : List Candidate) (slot : UInt64) : Option ℕ :=
  (slotSelect adaptive cs slot).map Wan.wanId

theorem idAt_idle (adaptive : Bool) {cs cs' : List Candidate} (h : Schedulable cs) (h' : Schedulable cs')
    (hsame : cs'.map Candidate.idle = cs.map Candidate.idle) (slot : UInt64) :
    idAt adaptive cs' slot = idAt adaptive cs slot := by
  have hids : ∀ cs : List Candidate, ∀ i : ℕ, ((cs[i]?).map Candidate.wan).map Wan.wanId =
      ((cs.map Candidate.idle)[i]?).map fun c => c.wan.wanId := by
    intro cs i
    rw [getElem?_map, Option.map_map, Option.map_map]
    rfl
  have hindex : cs ≠ [] → slotIndex adaptive cs' slot = slotIndex adaptive cs slot := by
    intro hne
    have hne' : cs' ≠ [] := by
      intro hnil
      rw [hnil, map_nil] at hsame
      exact hne (map_eq_nil_iff.mp hsame.symm)
    have hw : weights adaptive cs' = weights adaptive cs := by
      rw [← weights_idle, hsame, weights_idle]
    have hpick := slotIndex_eq_some adaptive h' hne' slot
    rw [hw, slotIndex_eq_some adaptive h hne slot] at hpick
    exact (some.inj hpick).symm
  unfold idAt slotSelect
  rw [hids, hids, hsame]
  by_cases hnil : cs = []
  · rw [hnil]
    rfl
  · rw [hindex hnil]

theorem set_eq_self {α : Type} {l : List α} {a : α} (h : l[i]? = some a) : l.set i a = l := by
  obtain ⟨hi, rfl⟩ := List.getElem?_eq_some_iff.mp h
  exact set_getElem_self hi

/-- The state after a selection is like the one before, and the counter is one further. -/
theorem alike_select (h : Jhash)
    (hinv : Inv s') (halike : Alike s s') (ht : Takes s key i r) (hmode : Rotates r)
    (jiffies : UInt64) (acquire : Bool) :
    let result := selectWan h jiffies key acquire s'
    let slot := UInt64.ofNat (s'.tables.newFlowSeq.getD i 0)
    result.1 = none ∧
      some result.2.1.wanId = idAt (adaptiveRule s'.tables.slots r) (candidates s'.wans r) slot ∧
      Alike s result.2.2 ∧ result.2.2.tables.newFlowSeq.getD i 0 = (slot + 1).toNat := by
  obtain ⟨r', ht', hsettled⟩ := halike.takes ht
  obtain ⟨wan, seq, hsel, hwan⟩ := ht'.selectFrom h jiffies
  have hi : i < s'.tables.rules.length := (List.getElem?_eq_some_iff.mp ht'.rule).1
  have hmax := Nat.lt_of_lt_of_le hi hinv.paired.bounded
  have hne := (canTake_iff.mp ht'.canTake).2
  have hmode' : Rotates r' := by
    have hstick : r'.settled.stickyMode = r.settled.stickyMode := by rw [hsettled]
    unfold Rotates
    rwa [show r'.stickyMode = r.stickyMode from hstick]
  have hcs : candidates s'.wans r' = candidates s'.wans r := by
    show candidates s'.wans r'.settled = candidates s'.wans r.settled
    rw [hsettled]
  have hadaptive : adaptiveRule s'.tables.slots r' = adaptiveRule s'.tables.slots r := by
    show adaptiveRule s'.tables.slots r'.settled = adaptiveRule s'.tables.slots r.settled
    rw [hsettled]
  rw [selectWanNolock_rotates hmode' hmax hne h jiffies key, hcs, hadaptive] at hwan
  obtain ⟨chosen, hchosen, hpair⟩ := map_eq_some_iff.mp hwan
  obtain ⟨rfl, rfl⟩ := Prod.mk.inj hpair
  -- the chosen WAN stands in its slot of the table
  have hslot : s'.wans[chosen.wanId - 1]? = some chosen := by
    obtain ⟨c, hc, heq⟩ := slotSelect_mem (hcs ▸ hne)
      (length_candidates _ _) (UInt64.ofNat (s'.tables.newFlowSeq.getD i 0))
    rw [hchosen] at heq
    obtain rfl := some.inj heq
    obtain ⟨m, -, hm⟩ := mem_candidates hc
    obtain ⟨hid, -, hget⟩ := wanById_eq_some (candidate_eq_some hm).1
    rwa [hid]
  unfold selectWan
  rw [hsel]
  refine ⟨rfl, ?_, ⟨?_, halike.slots, halike.carriers, ?_⟩, ?_⟩
  · unfold idAt
    rw [hchosen]
    rfl
  · rw [← halike.rules]
    show (s'.tables.rules.set i (r'.hit jiffies)).map RouteRule.settled = _
    rw [map_set]
    apply set_eq_self
    rw [getElem?_map, ht'.rule]
    rfl
  · rw [← halike.wans]
    show (if acquire = true then _ else s'.wans).map Wan.idle = _
    split
    · rw [map_set]
      apply set_eq_self
      rw [getElem?_map, hslot]
      rfl
    · rfl
  · show (s'.tables.newFlowSeq.set i _).getD i 0 = _
    rw [getD_eq_getElem?_getD, getElem?_set_self (by rw [hinv.seq]; exact hmax)]
    rfl

/-- **Selections one after the other use slots one after the other.** -/
theorem serve_rotates {s : State} (h : Jhash) (hinv : Inv s)
    (hmode : Rotates r) {requests : List (UInt64 × FlowKey × Bool)}
    (htakes : ∀ q ∈ requests, Takes s q.2.1 i r) :
    (serve h s requests).map (fun out => (out.1, some out.2.wanId)) =
      (List.range requests.length).map fun k =>
        (none, idAt (adaptiveRule s.tables.slots r) (candidates s.wans r)
          (UInt64.ofNat (s.tables.newFlowSeq.getD i 0) + UInt64.ofNat k)) := by
  have hall : ∀ (requests : List (UInt64 × FlowKey × Bool)) (s' : State) (slot : UInt64), Inv s' →
      Alike s s' → (∀ q ∈ requests, Takes s q.2.1 i r) →
      UInt64.ofNat (s'.tables.newFlowSeq.getD i 0) = slot →
      (serve h s' requests).map (fun out => (out.1, some out.2.wanId)) =
        (List.range requests.length).map fun k =>
          (none, idAt (adaptiveRule s.tables.slots r) (candidates s.wans r) (slot + UInt64.ofNat k)) := by
    intro requests
    induction requests with
    | nil => exact fun _ _ _ _ _ _ => rfl
    | cons q requests ih =>
      intro s' slot hinv' halike htakes hslot
      obtain ⟨jiffies, key, acquire⟩ := q
      obtain ⟨hq, hrest⟩ := forall_mem_cons.mp htakes
      obtain ⟨hnone, hid, hnext, hseq⟩ := alike_select h hinv' halike hq hmode jiffies acquire
      rw [hslot] at hid hseq
      have hsame := idAt_idle (adaptiveRule s.tables.slots r)
        (schedulable_candidates hinv r) (schedulable_candidates hinv' r) (halike.same_candidates rfl) slot
      rw [halike.slots, hsame] at hid
      have htail := ih _ (slot + 1) (hinv'.select jiffies key acquire) hnext hrest
        (by rw [hseq]; exact UInt64.ofNat_toNat)
      rw [length_cons, range_succ_eq_map, map_cons, List.map_map]
      show ((selectWan h jiffies key acquire s').1, some (selectWan h jiffies key acquire s').2.1.wanId) ::
        (serve h (selectWan h jiffies key acquire s').2.2 requests).map _ = _
      rw [hnone, hid, htail]
      congr 1
      · rw [show slot + UInt64.ofNat 0 = slot from UInt64.add_zero slot]
      · apply map_congr_left
        intro k _
        show _ = (none, idAt _ _ (slot + UInt64.ofNat (k + 1)))
        rw [UInt64.add_assoc, show (1 : UInt64) + UInt64.ofNat k = UInt64.ofNat (k + 1) by
          rw [UInt64.add_comm, UInt64.ofNat_add]
          rfl]
  exact hall requests s _ hinv (Alike.refl s) htakes rfl

/-! ### Exactness -/

/-- **Over one full turn every candidate is chosen as often as it weighs**: for the candidates of any
    rule after any calls, and every slot from which a turn does not wrap the counter.  Every
    selection returns a candidate, and flows that a rotating rule takes one after the other are given
    slots one after the other. -/
theorem rotation_exact (h : Jhash) (calls : List Call) (r : RouteRule) :
    let s := history h calls
    let cs := candidates s.wans r
    (∀ (adaptive : Bool) (slot : UInt64), slot.toNat + (totalWeight adaptive cs).toNat ≤ 2 ^ 64 →
      ∀ (i : ℕ) (hi : i < cs.length),
        Nat.count (fun k => slotIndex adaptive cs (slot + UInt64.ofNat k) = i)
          (totalWeight adaptive cs).toNat = (selectionWeight adaptive cs[i]).toNat) ∧
    (cs ≠ [] → ∀ (adaptive : Bool) (slot : UInt64),
      0 < (totalWeight adaptive cs).toNat ∧ ∃ c ∈ cs, slotSelect adaptive cs slot = some c.wan) ∧
    ∀ (seq : List ℕ), seq.length = JMX_MAX_ROUTE_RULES →
      ∀ (i : ℕ) (requests : List (UInt64 × FlowKey × Bool)), Rotates r →
      let s := { s with tables := { s.tables with newFlowSeq := seq } }
      (∀ q ∈ requests, Takes s q.2.1 i r) →
      (serve h s requests).map (fun out => (out.1, some out.2.wanId)) =
        (List.range requests.length).map fun k =>
          (none, idAt (adaptiveRule s.tables.slots r) cs
            (UInt64.ofNat (seq.getD i 0) + UInt64.ofNat k)) := by
  have hinv := inv_history h calls
  generalize history h calls = s at hinv
  have hsched := schedulable_candidates hinv r
  dsimp only
  refine ⟨?_, ?_, ?_⟩
  · intro adaptive slot hslot i hi
    rw [totalWeight_eq (hsched.sum_lt adaptive)] at hslot ⊢
    exact count_slotIndex hsched hi hslot
  · intro hne adaptive slot
    rw [totalWeight_eq (hsched.sum_lt adaptive)]
    exact ⟨hsched.sum_pos adaptive hne, slotSelect_mem hne hsched.length_le slot⟩
  · intro seq hseq i requests hmode htakes
    have hinv' : Inv { s with tables := { s.tables with newFlowSeq := seq } } :=
      ⟨hinv.paired.congr rfl rfl, hseq, hinv.wans, hinv.adaptive⟩
    exact serve_rotates h hinv' hmode htakes

end DreamingOS.Route
