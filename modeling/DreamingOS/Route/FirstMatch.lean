import DreamingOS.Route.Select

namespace DreamingOS.Route

open List

/-!
# Policy routes — the first rule that can take a flow

* `LongestCarrier`, `Matches` — what it means that a rule is for a flow;
* `selectWanNolock_none`, `selectWanNolock_some` — every scheduler picks one of the candidates;
* `Inv`, `inv_history` — what holds of the tables after any calls;
* `select_first_match` — **the WAN of a selection is an eligible member of the matching rule of
  lowest prio that has one**, and a selection fails only when no matching rule has one.
-/

/-! ### Carriers -/

/-- The address lies in the prefix. -/
def CarrierPrefix.Covers (p : CarrierPrefix) (ip : ℕ) : Prop := ip &&& p.mask = p.network

/-- The carrier of the prefix with the longest mask among those around an address, of the last one
    where there are several; no carrier where there is none. -/
def LongestCarrier (carriers : List CarrierPrefix) (ip carrier : ℕ) : Prop :=
  (carrier = JMX_CARRIER_ANY ∧ ∀ p ∈ carriers, ¬p.Covers ip) ∨
    ∃ front p back, carriers = front ++ p :: back ∧ p.Covers ip ∧ carrier = p.carrierId ∧
      (∀ q ∈ front, q.Covers ip → ntohl q.mask ≤ ntohl p.mask) ∧
      ∀ q ∈ back, q.Covers ip → ntohl q.mask < ntohl p.mask

variable {ip : ℕ} {p : CarrierPrefix}

theorem carrierStep_covers (h : p.Covers ip) (best : ℕ × ℕ) :
    carrierStep ip best p = if ntohl best.2 ≤ ntohl p.mask then (p.carrierId, p.mask) else best :=
  if_neg (not_not.mpr h)

theorem carrierStep_skip (h : ¬p.Covers ip) (best : ℕ × ℕ) : carrierStep ip best p = best :=
  if_pos h

theorem carrierFold_longest (carriers : List CarrierPrefix) (ip : ℕ) :
    let best := carriers.foldl (carrierStep ip) (JMX_CARRIER_ANY, 0)
    (best = (JMX_CARRIER_ANY, 0) ∧ ∀ p ∈ carriers, ¬p.Covers ip) ∨
      ∃ front p back, carriers = front ++ p :: back ∧ p.Covers ip ∧ best = (p.carrierId, p.mask) ∧
        (∀ q ∈ front, q.Covers ip → ntohl q.mask ≤ ntohl p.mask) ∧
        ∀ q ∈ back, q.Covers ip → ntohl q.mask < ntohl p.mask := by
  induction carriers using List.reverseRecOn with
  | nil => exact .inl ⟨rfl, fun _ hp => absurd hp not_mem_nil⟩
  | append_singleton carriers last ih =>
    dsimp only at ih ⊢
    rw [foldl_append, foldl_cons, foldl_nil]
    generalize carriers.foldl (carrierStep ip) (JMX_CARRIER_ANY, 0) = best at ih ⊢
    by_cases hlast : last.Covers ip
    · rw [carrierStep_covers hlast]
      obtain ⟨rfl, hnone⟩ | ⟨front, p, back, rfl, hp, rfl, hfront, hback⟩ := ih
      · have hzero : ntohl (JMX_CARRIER_ANY, 0).2 ≤ ntohl last.mask := Nat.zero_le _
        rw [if_pos hzero]
        exact .inr ⟨carriers, last, [], rfl, hlast, rfl,
          fun q hq hcovers => absurd hcovers (hnone q hq), fun _ hq => absurd hq not_mem_nil⟩
      · split
        · next hle =>
          -- the last prefix is at least as long as every one before
          refine .inr ⟨front ++ p :: back, last, [], rfl, hlast, rfl, fun q hq hcovers => ?_,
            fun _ hq => absurd hq not_mem_nil⟩
          obtain hq | hq := mem_append.mp hq
          · exact Nat.le_trans (hfront q hq hcovers) hle
          · obtain rfl | hq := mem_cons.mp hq
            · exact hle
            · exact Nat.le_trans (hback q hq hcovers).le hle
        · next hlt =>
          refine .inr ⟨front, p, back ++ [last], by rw [append_assoc]; rfl, hp, rfl, hfront,
            fun q hq hcovers => ?_⟩
          obtain hq | hq := mem_append.mp hq
          · exact hback q hq hcovers
          · obtain rfl := mem_singleton.mp hq
            exact Nat.lt_of_not_le hlt
    · rw [carrierStep_skip hlast]
      obtain ⟨hbest, hnone⟩ | ⟨front, p, back, rfl, hp, hbest, hfront, hback⟩ := ih
      · refine .inl ⟨hbest, fun q hq => ?_⟩
        obtain hq | hq := mem_append.mp hq
        · exact hnone q hq
        · obtain rfl := mem_singleton.mp hq
          exact hlast
      · refine .inr ⟨front, p, back ++ [last], by rw [append_assoc]; rfl, hp, hbest, hfront,
          fun q hq hcovers => ?_⟩
        obtain hq | hq := mem_append.mp hq
        · exact hback q hq hcovers
        · obtain rfl := mem_singleton.mp hq
          exact absurd hcovers hlast

theorem carrierLookup_longest (carriers : List CarrierPrefix) (ip : ℕ) :
    LongestCarrier carriers ip (carrierLookup carriers ip) := by
  unfold carrierLookup
  obtain ⟨hbest, hnone⟩ | ⟨front, p, back, hsplit, hp, hbest, hfront, hback⟩ :=
    carrierFold_longest carriers ip
  · rw [hbest]
    exact .inl ⟨rfl, hnone⟩
  · rw [hbest]
    exact .inr ⟨front, p, back, hsplit, hp, rfl, hfront, hback⟩

variable {carriers : List CarrierPrefix}

/-- There is one longest prefix. -/
theorem LongestCarrier.unique {c d : ℕ}
    (hc : LongestCarrier carriers ip c) (hd : LongestCarrier carriers ip d) : c = d := by
  obtain ⟨rfl, hnone⟩ | ⟨front, p, back, hsplit, hp, rfl, hfront, hback⟩ := hc
  · obtain ⟨rfl, -⟩ | ⟨front, p, back, hsplit, hp, -⟩ := hd
    · rfl
    · exact absurd hp (hnone p (hsplit ▸ mem_append_right _ mem_cons_self))
  · obtain ⟨-, hnone⟩ | ⟨front', p', back', hsplit', hp', rfl, hfront', hback'⟩ := hd
    · exact absurd hp (hnone p (hsplit ▸ mem_append_right _ mem_cons_self))
    rw [hsplit] at hsplit'
    -- neither of the two prefixes can lie behind the other
    obtain ⟨mid, hmid, hrest⟩ | ⟨mid, hmid, hrest⟩ := append_eq_append_iff.mp hsplit'
    · cases mid with
      | nil => rw [(List.cons.inj hrest).1]
      | cons q mid =>
        obtain ⟨rfl, rfl⟩ := List.cons.inj hrest
        have hlt := hback p' (mem_append_right _ mem_cons_self) hp'
        have hle := hfront' p (hmid ▸ mem_append_right _ mem_cons_self) hp
        omega
    · cases mid with
      | nil => rw [(List.cons.inj hrest).1]
      | cons q mid =>
        obtain ⟨rfl, rfl⟩ := List.cons.inj hrest
        have hlt := hback' p (mem_append_right _ mem_cons_self) hp
        have hle := hfront p' (hmid ▸ mem_append_right _ mem_cons_self) hp'
        omega

/-! ### Matching -/

/-- An address is in the network of a rule, which is every one where it is not given. -/
def InNetwork (ip network mask : ℕ) : Prop := network = 0 ∨ mask = 0 ∨ ip &&& mask = network &&& mask

/-- The rule is for the flow.  The carrier of a rule is that of the longest prefix around the
    destination; a rule for IPv4 addresses is for no IPv6 flow. -/
structure Matches (carriers : List CarrierPrefix) (r : RouteRule) (key : FlowKey) : Prop where
  enabled : r.enabled ≠ 0
  proto : r.proto = 0 ∨ r.proto = key.proto
  appid : r.appid = 0 ∨ r.appid = key.appid
  dstPort : r.dstPort = 0 ∨ r.dstPort = key.dstPort
  v4 : ∀ src dst, key.addr = .v4 src dst →
    (r.carrierId = 0 ∨ LongestCarrier carriers dst r.carrierId) ∧
      InNetwork src r.srcAddr r.srcMask ∧ InNetwork dst r.dstAddr r.dstMask
  v6 : ∀ src dst, key.addr = .v6 src dst →
    r.carrierId = 0 ∧ r.srcAddr = 0 ∧ r.srcMask = 0 ∧ r.dstAddr = 0 ∧ r.dstMask = 0

theorem ipMatch_iff {network mask : ℕ} :
    ipMatch ip network mask = true ↔ InNetwork ip network mask := by
  unfold ipMatch InNetwork
  rw [Bool.or_eq_true, Bool.or_eq_true, decide_eq_true_eq, decide_eq_true_eq, decide_eq_true_eq,
    or_assoc]

theorem longestCarrier_iff {c : ℕ} : c = carrierLookup carriers ip ↔ LongestCarrier carriers ip c :=
  ⟨fun h => h ▸ carrierLookup_longest carriers ip, fun h => h.unique (carrierLookup_longest carriers ip)⟩

variable {r : RouteRule} {key : FlowKey}

/-- `jmx_rule_match` tests for exactly this. -/
theorem ruleMatch_iff : ruleMatch carriers r key = true ↔ Matches carriers r key := by
  have hor : ∀ {a b : ℕ}, ¬(a ≠ 0 ∧ a ≠ b) ↔ a = 0 ∨ a = b := by
    intro a b
    rw [not_and_or, not_not, not_not]
  unfold ruleMatch
  split
  · next h => exact iff_of_false Bool.false_ne_true fun hm => hm.enabled h
  rename_i henabled
  split
  · next h => exact iff_of_false Bool.false_ne_true fun hm => hor.mpr hm.proto h
  rename_i hproto
  split
  · next h => exact iff_of_false Bool.false_ne_true fun hm => hor.mpr hm.appid h
  rename_i happid
  split
  · next h => exact iff_of_false Bool.false_ne_true fun hm => hor.mpr hm.dstPort h
  rename_i hport
  split
  · next src dst haddr =>
    have hrest : Matches carriers r key ↔
        (r.carrierId = 0 ∨ LongestCarrier carriers dst r.carrierId) ∧
          InNetwork src r.srcAddr r.srcMask ∧ InNetwork dst r.dstAddr r.dstMask := by
      constructor
      · exact fun hm => hm.v4 src dst haddr
      · intro h
        refine ⟨henabled, hor.mp hproto, hor.mp happid, hor.mp hport, ?_, ?_⟩
        · intro src' dst' heq
          rw [haddr] at heq
          cases heq
          exact h
        · intro src' dst' heq
          rw [haddr] at heq
          cases heq
    rw [hrest, ← longestCarrier_iff, ← hor]
    split
    · next h => exact iff_of_false Bool.false_ne_true fun hm => hm.1 h
    · next h => rw [Bool.and_eq_true, ipMatch_iff, ipMatch_iff, and_iff_right h]
  · next src dst haddr =>
    have hrest : Matches carriers r key ↔
        r.carrierId = 0 ∧ r.srcAddr = 0 ∧ r.srcMask = 0 ∧ r.dstAddr = 0 ∧ r.dstMask = 0 := by
      constructor
      · exact fun hm => hm.v6 src dst haddr
      · intro h
        refine ⟨henabled, hor.mp hproto, hor.mp happid, hor.mp hport, ?_, ?_⟩
        · intro src' dst' heq
          rw [haddr] at heq
          cases heq
        · intro src' dst' heq
          exact h
    rw [hrest]
    simp only [Bool.and_eq_true, decide_eq_true_eq, and_assoc]

/-! ### Candidates -/

/-- A member that can take a flow. -/
def Eligible (wans : List Wan) (id : ℕ) : Prop :=
  ∃ wan, wanById wans id = some wan ∧ wan.health ≠ 0 ∧ wan.fwmark ≠ 0

variable {wans : List Wan}
variable {wan : Wan} {id : ℕ}

theorem wanById_eq_some (h : wanById wans id = some wan) :
    wan.wanId = id ∧ wanIdxValid id ∧ wans[id - 1]? = some wan := by
  unfold wanById at h
  split at h
  · next hid =>
    obtain ⟨hget, hwan⟩ := Option.filter_eq_some_iff.mp h
    exact ⟨of_decide_eq_true hwan, hid, hget⟩
  · cases h

variable {c : Candidate} {weight : ℕ}

theorem candidate_eq_some (h : candidate wans id weight = some c) :
    wanById wans id = some c.wan ∧ c.wan.health ≠ 0 ∧ c.wan.fwmark ≠ 0 ∧ c.policyWeight ≠ 0 := by
  unfold candidate at h
  split at h
  · cases h
  rename_i wan hwan
  split at h
  · cases h
  rename_i hbad
  obtain rfl := Option.some.inj h
  rw [not_or] at hbad
  refine ⟨hwan, hbad.1, hbad.2, ?_⟩
  dsimp only
  generalize (if weight ≠ 0 then UInt32.ofNat weight else wan.weight) = w
  by_cases hw : w = 0
  · rw [if_pos hw]
    decide
  · rwa [if_neg hw]

theorem candidate_isSome : (candidate wans id weight).isSome = true ↔ Eligible wans id := by
  constructor
  · intro h
    obtain ⟨c, hc⟩ := Option.isSome_iff_exists.mp h
    obtain ⟨hwan, hhealth, hmark, -⟩ := candidate_eq_some hc
    exact ⟨c.wan, hwan, hhealth, hmark⟩
  · rintro ⟨wan, hwan, hhealth, hmark⟩
    unfold candidate
    rw [hwan]
    dsimp only
    rw [if_neg (not_or.mpr ⟨hhealth, hmark⟩)]
    rfl

theorem mem_candidates
    (h : c ∈ candidates wans r) : ∃ m ∈ members r, candidate wans m.1 m.2 = some c :=
  mem_filterMap.mp h

/-- A rule has candidates if and only if one of its members is eligible. -/
theorem candidates_eq_nil : candidates wans r = [] ↔ ∀ m ∈ members r, ¬Eligible wans m.1 := by
  unfold candidates
  rw [filterMap_eq_nil_iff]
  constructor
  · intro h m hm helig
    have hsome : (candidate wans m.1 m.2).isSome = true := candidate_isSome.mpr helig
    have hnone : candidate wans m.1 m.2 = none := h m hm
    rw [hnone] at hsome
    cases hsome
  · intro h m hm
    show candidate wans m.1 m.2 = none
    rw [← Option.not_isSome_iff_eq_none]
    exact fun hsome => h m hm (candidate_isSome.mp hsome)

theorem length_candidates (wans : List Wan) (r : RouteRule) :
    (candidates wans r).length ≤ JMX_MAX_WAN_IFACES := by
  refine (length_filterMap_le _ _).trans ?_
  unfold members
  rw [length_map, length_range]
  exact Nat.min_le_right _ _

/-! ### Schedulers -/

variable {cs : List Candidate} {adaptive : Bool}
variable {i : ℕ}

theorem pointWalk_lt {point : UInt64}
    (h : pointWalk adaptive point cs = some i) : i < cs.length := by
  induction cs generalizing point i with
  | nil => cases h
  | cons c cs ih =>
    unfold pointWalk at h
    split at h
    · obtain rfl := Option.some.inj h
      exact Nat.succ_pos _
    · obtain ⟨j, hj, rfl⟩ := Option.map_eq_some_iff.mp h
      exact Nat.succ_lt_succ (ih hj)

/-- The walk never leaves the candidates: where it ends behind them, the last one is taken. -/
theorem getD_pointWalk_lt (hne : cs ≠ []) (point : UInt64) :
    (pointWalk adaptive point cs).getD (cs.length - 1) < cs.length := by
  have hpos : 0 < cs.length := length_pos_iff.mpr hne
  cases h : pointWalk adaptive point cs with
  | none =>
    show cs.length - 1 < cs.length
    omega
  | some i => exact pointWalk_lt h

theorem slotIndex_lt (hne : cs ≠ [])
    (hlen : cs.length ≤ JMX_MAX_WAN_IFACES) (slot : UInt64) : slotIndex adaptive cs slot < cs.length := by
  unfold slotIndex
  dsimp only
  split
  · have hpos : 0 < cs.length := length_pos_iff.mpr hne
    have hsmall : cs.length < 2 ^ 64 := Nat.lt_of_le_of_lt hlen (by decide)
    rw [UInt64.toNat_mod, UInt64.toNat_ofNat_of_lt' hsmall]
    exact Nat.mod_lt _ hpos
  · exact getD_pointWalk_lt hne _

/-- A list with a position in it. -/
theorem exists_of_index (hi : i < cs.length) : ∃ c ∈ cs, (cs[i]?).map Candidate.wan = some c.wan :=
  ⟨cs[i], getElem_mem hi, by rw [getElem?_eq_getElem hi]; rfl⟩

theorem slotSelect_mem (hne : cs ≠ []) (hlen : cs.length ≤ JMX_MAX_WAN_IFACES) (slot : UInt64) :
    ∃ c ∈ cs, slotSelect adaptive cs slot = some c.wan :=
  exists_of_index (slotIndex_lt hne hlen slot)

theorem tieSelect_mem (h : Jhash) {adaptive : Bool} {cs : List Candidate} (hne : cs ≠ [])
    (hlen : cs.length ≤ JMX_MAX_WAN_IFACES) (hash : UInt32) :
    ∃ c ∈ cs, tieSelect h adaptive cs hash = some c.wan := by
  unfold tieSelect
  apply exists_of_index
  split
  · have hpos : 0 < cs.length := length_pos_iff.mpr hne
    have hsmall : cs.length < 2 ^ 32 := Nat.lt_of_le_of_lt hlen (by decide)
    rw [UInt32.toNat_mod, UInt32.toNat_ofNat_of_lt' hsmall]
    exact Nat.mod_lt _ hpos
  · exact getD_pointWalk_lt hne _

/-- The ties are candidates, and no more than these. -/
theorem minMetric_fold {byConnections adaptive : Bool} {c : Candidate} (cs : List Candidate) :
    let best := cs.foldl (minMetricStep byConnections adaptive) (c, [])
    best.1 :: best.2 ⊆ c :: cs ∧ (best.1 :: best.2).length ≤ (c :: cs).length := by
  induction cs using List.reverseRecOn with
  | nil => exact ⟨List.Subset.refl _, Nat.le_refl _⟩
  | append_singleton cs d ih =>
    dsimp only at ih ⊢
    rw [foldl_append, foldl_cons, foldl_nil]
    generalize cs.foldl (minMetricStep byConnections adaptive) (c, []) = best at ih ⊢
    obtain ⟨hsub, hlen⟩ := ih
    have hsub' : best.1 :: best.2 ⊆ c :: (cs ++ [d]) := fun x hx => mem_append_left [d] (hsub hx)
    have hd : d ∈ c :: (cs ++ [d]) := mem_append_right (c :: cs) mem_cons_self
    rw [length_cons, length_cons] at hlen
    have hgrown : (c :: (cs ++ [d])).length = cs.length + 1 + 1 := by
      rw [length_cons, length_append, length_singleton]
    unfold minMetricStep
    rw [hgrown]
    split
    · refine ⟨fun x hx => ?_, Nat.succ_le_succ (Nat.zero_le _)⟩
      obtain rfl := mem_singleton.mp hx
      exact hd
    · refine ⟨fun x hx => ?_, ?_⟩
      · obtain rfl | hx := mem_cons.mp hx
        · exact hsub' mem_cons_self
        · obtain hx | hx := mem_append.mp hx
          · exact hsub' (mem_cons_of_mem _ hx)
          · obtain rfl := mem_singleton.mp hx
            exact hd
      · rw [length_cons, length_append, length_singleton]
        omega
    · refine ⟨hsub', ?_⟩
      rw [length_cons]
      omega

theorem selectMinMetric_mem (h : Jhash) {byConnections adaptive : Bool}
    (hne : cs ≠ []) (hlen : cs.length ≤ JMX_MAX_WAN_IFACES) (hash : UInt32) :
    ∃ c ∈ cs, selectMinMetric h byConnections hash adaptive cs = some c.wan := by
  cases cs with
  | nil => exact absurd rfl hne
  | cons c cs =>
    obtain ⟨hsub, hcount⟩ := @minMetric_fold byConnections adaptive c cs
    obtain ⟨d, hd, heq⟩ := @tieSelect_mem h adaptive _ (cons_ne_nil _ _) (hcount.trans hlen) hash
    exact ⟨d, hsub hd, heq⟩

variable {s : State}

/-- What a selection in a rule with candidates looks like. -/
theorem selectWanNolock_some (h : Jhash) (jiffies : UInt64) (i : ℕ)
    (key : FlowKey) (hne : candidates s.wans r ≠ []) :
    ∃ c ∈ candidates s.wans r, ∃ seq, selectWanNolock h jiffies s i r key = some (c.wan, seq) := by
  have hlen := length_candidates s.wans r
  unfold selectWanNolock
  dsimp only
  generalize candidates s.wans r = cs at hne hlen ⊢
  cases cs with
  | nil => exact absurd rfl hne
  | cons first rest =>
    dsimp only
    split
    · exact ⟨first, mem_cons_self, _, rfl⟩
    split
    · obtain ⟨c, hc, heq⟩ := selectMinMetric_mem h hne hlen (routeHash h jiffies r key)
      rw [heq]
      exact ⟨c, hc, _, rfl⟩
    split
    · obtain ⟨c, hc, heq⟩ := selectMinMetric_mem h hne hlen (routeHash h jiffies r key)
      rw [heq]
      exact ⟨c, hc, _, rfl⟩
    split
    · obtain ⟨c, hc, heq⟩ := slotSelect_mem hne hlen (UInt64.ofNat (s.tables.newFlowSeq.getD i 0))
      rw [heq]
      exact ⟨c, hc, _, rfl⟩
    · obtain ⟨c, hc, heq⟩ := slotSelect_mem hne hlen _
      rw [heq]
      exact ⟨c, hc, _, rfl⟩

theorem selectWanNolock_none (h : Jhash) (jiffies : UInt64) (i : ℕ)
    (key : FlowKey) (hnil : candidates s.wans r = []) : selectWanNolock h jiffies s i r key = none := by
  unfold selectWanNolock
  rw [hnil]

/-! ### The loop over the rules -/

/-- A rule that is for the flow and has an eligible member. -/
def CanTake (s : State) (key : FlowKey) (r : RouteRule) : Prop :=
  Matches s.tables.carriers r key ∧ ∃ m ∈ members r, Eligible s.wans m.1

theorem canTake_iff :
    CanTake s key r ↔ ruleMatch s.tables.carriers r key = true ∧ candidates s.wans r ≠ [] := by
  unfold CanTake
  rw [ruleMatch_iff, Ne, candidates_eq_nil]
  push Not
  rfl

theorem selectFrom_cons (h : Jhash) (jiffies : UInt64) (s : State) (key : FlowKey) (i : ℕ)
    (r : RouteRule) (rs : List RouteRule) : selectFrom h jiffies s key i (r :: rs) =
      if !ruleMatch s.tables.carriers r key then selectFrom h jiffies s key (i + 1) rs
      else
        match selectWanNolock h jiffies s i r key with
        | none => selectFrom h jiffies s key (i + 1) rs
        | some (wan, seq) => some (i, r, wan, seq) := rfl

variable {h : Jhash}
variable {jiffies : UInt64} {rs : List RouteRule}

theorem selectFrom_none : selectFrom h jiffies s key i rs = none ↔ ∀ r ∈ rs, ¬CanTake s key r := by
  induction rs generalizing i with
  | nil => exact iff_of_true rfl fun _ hr => absurd hr not_mem_nil
  | cons r rs ih =>
    rw [forall_mem_cons, ← ih (i := i + 1), canTake_iff, selectFrom_cons]
    by_cases hmatch : ruleMatch s.tables.carriers r key = true
    · rw [hmatch]
      by_cases hnil : candidates s.wans r = []
      · rw [selectWanNolock_none h jiffies i key hnil]
        have hno : ¬(true = true ∧ candidates s.wans r ≠ []) := fun hcan => hcan.2 hnil
        exact (and_iff_right hno).symm
      · obtain ⟨c, -, seq, heq⟩ := selectWanNolock_some h jiffies i key hnil
        rw [heq]
        refine iff_of_false (by nofun) fun hno => hno.1 ⟨rfl, hnil⟩
    · rw [Bool.not_eq_true] at hmatch
      rw [hmatch]
      have hno : ¬(false = true ∧ candidates s.wans r ≠ []) := fun hcan => Bool.false_ne_true hcan.1
      exact (and_iff_right hno).symm

variable {seq : List ℕ}

/-- The rule that is taken is the first one that can take the flow. -/
theorem selectFrom_some {i j : ℕ} (hsel : selectFrom h jiffies s key i rs = some (j, r, wan, seq)) :
    ∃ front back, rs = front ++ r :: back ∧ j = i + front.length ∧ CanTake s key r ∧
      (∀ r' ∈ front, ¬CanTake s key r') ∧ selectWanNolock h jiffies s j r key = some (wan, seq) := by
  induction rs generalizing i with
  | nil => cases hsel
  | cons r' rs ih =>
    -- what holds when the loop goes on behind the first rule
    have hnext : ¬CanTake s key r' → selectFrom h jiffies s key (i + 1) rs = some (j, r, wan, seq) →
        ∃ front back, r' :: rs = front ++ r :: back ∧ j = i + front.length ∧ CanTake s key r ∧
          (∀ r' ∈ front, ¬CanTake s key r') ∧
            selectWanNolock h jiffies s j r key = some (wan, seq) := by
      intro hno hrest
      obtain ⟨front, back, rfl, hj, hcan, hfront, heq⟩ := ih hrest
      refine ⟨r' :: front, back, rfl, ?_, hcan, forall_mem_cons.mpr ⟨hno, hfront⟩, heq⟩
      rw [hj, length_cons]
      omega
    rw [selectFrom_cons] at hsel
    by_cases hmatch : ruleMatch s.tables.carriers r' key = true
    · rw [hmatch] at hsel
      by_cases hnil : candidates s.wans r' = []
      · rw [selectWanNolock_none h jiffies i key hnil] at hsel
        exact hnext (fun hcan => (canTake_iff.mp hcan).2 hnil) hsel
      obtain ⟨c, -, seq', heq⟩ := selectWanNolock_some h jiffies i key hnil
      rw [heq] at hsel
      cases hsel
      exact ⟨[], rs, rfl, rfl, canTake_iff.mpr ⟨hmatch, hnil⟩,
        fun _ hr => absurd hr not_mem_nil, heq⟩
    · rw [Bool.not_eq_true] at hmatch
      rw [hmatch] at hsel
      refine hnext (fun hcan => ?_) hsel
      have htrue := (canTake_iff.mp hcan).1
      rw [hmatch] at htrue
      cases htrue

/-! ### What holds after any calls -/

variable {t : Tables}

/-- `Paired` sees the prios of the rules and the slots. -/
theorem Paired.congr {t' : Tables} (h : Paired t)
    (hprios : t'.rules.map RouteRule.prio = t.rules.map RouteRule.prio) (hslots : t'.slots = t.slots) :
    Paired t' := by
  have hlen : t'.rules.length = t.rules.length := by
    rw [← length_map RouteRule.prio, hprios, length_map]
  refine ⟨?_, hlen ▸ h.bounded, hslots ▸ h.slots, ?_⟩
  · have hsorted : (t.rules.map RouteRule.prio).Pairwise (· < ·) := pairwise_map.mpr h.sorted
    rw [← hprios] at hsorted
    exact pairwise_map.mp hsorted
  · rw [hslots, hprios]
    exact h.perm

/-- The rules are sorted, and adaptive weights are what the setter admits. -/
structure Inv (s : State) : Prop where
  paired : Paired s.tables
  seq : s.tables.newFlowSeq.length = JMX_MAX_ROUTE_RULES
  wans : s.wans.length = JMX_MAX_WAN_IFACES
  adaptive : ∀ wan ∈ s.wans, wan.adaptiveWeight ≤ 100

theorem inv_start : Inv {} where
  paired := paired_init
  seq := length_replicate
  wans := length_replicate
  adaptive := by
    intro wan hwan
    rw [eq_of_mem_replicate hwan]
    decide

/-- The counters of new flows are a table of fixed size. -/
theorem length_newFlowSeq_step (h : t.newFlowSeq.length = JMX_MAX_ROUTE_RULES) (op : Op) :
    (step t op).1.newFlowSeq.length = JMX_MAX_ROUTE_RULES := by
  cases op with
  | add rule flags =>
    show (ruleAddWithEnhancements rule flags t).1.newFlowSeq.length = _
    unfold ruleAddWithEnhancements
    split
    · exact h
    split
    · split
      · exact h
      · exact length_replicate
    split
    · exact h
    split
    · exact h
    · exact length_replicate
  | del prio =>
    show (ruleDel prio t).newFlowSeq.length = _
    unfold ruleDel
    split
    · exact h
    · exact length_replicate
  | clearHits prio => exact h
  | flush => exact length_replicate

/-- One slot of the WAN table is written. -/
theorem Inv.setWan (h : Inv s) (i : ℕ) (hwan : wan.adaptiveWeight ≤ 100) (generation : UInt32) :
    Inv { s with wans := s.wans.set i wan, wanGeneration := generation } where
  paired := h.paired
  seq := h.seq
  wans := by rw [length_set]; exact h.wans
  adaptive := by
    intro w hw
    obtain hw | rfl := mem_or_eq_of_mem_set hw
    · exact h.adaptive w hw
    · exact hwan

variable {change : Wan → Wan}

theorem Inv.update (h : Inv s) (id : ℕ)
    (hchange : ∀ wan, wan.adaptiveWeight ≤ 100 → (change wan).adaptiveWeight ≤ 100) :
    Inv (wanUpdate id change s) := by
  unfold wanUpdate
  split
  · exact h
  rename_i wan hwan
  obtain ⟨-, -, hget⟩ := wanById_eq_some hwan
  exact h.setWan _ (hchange wan (h.adaptive wan (mem_of_getElem? hget))) _

theorem Inv.set (h : Inv s) (id : ℕ) (weight : UInt32)
    (hchange : weight ≤ 100 → ∀ wan, wan.adaptiveWeight ≤ 100 → (change wan).adaptiveWeight ≤ 100) :
    Inv (wanSet id weight change s).1 := by
  unfold wanSet
  split
  · exact h
  rename_i hbad
  split
  · exact h
  · rw [not_or, not_or] at hbad
    exact h.update id (hchange (UInt32.not_lt.mp hbad.2.2))

theorem adaptiveWeight_registered {old : Wan} (h : old.adaptiveWeight ≤ 100) (generation : UInt32)
    (id : ℕ) (name : List UInt8) (fwmark tableId gateway weight : UInt32) :
    (registered old generation id name fwmark tableId gateway weight).1.adaptiveWeight ≤ 100 := by
  unfold registered
  dsimp only
  generalize (if tableId ≠ 0 then tableId else JMX_ROUTE_TABLE_BASE + UInt32.ofNat id) = table
  by_cases hnew : old.wanId ≠ id ∨ old.fwmark ≠ fwmark ∨ old.tableId ≠ table ∨ old.name ≠ name.take 15
  · rw [if_pos hnew]
    show (100 : UInt32) ≤ 100
    decide
  · rw [if_neg hnew]
    exact h

/-- The state of the rules after a hit of one of them. -/
theorem prios_hit {rules front back : List RouteRule}
    (hsplit : rules = front ++ r :: back) (hi : i = front.length) (jiffies : UInt64) :
    (rules.set i (r.hit jiffies)).map RouteRule.prio = rules.map RouteRule.prio := by
  subst hsplit
  subst hi
  rw [set_append_right _ _ (Nat.le_refl _), Nat.sub_self, set_cons_zero, map_append, map_append]
  rfl

theorem length_seq_selectWanNolock (hsel : selectWanNolock h jiffies s i r key = some (wan, seq)) :
    seq.length = s.tables.newFlowSeq.length := by
  have hmap : ∀ {w : Option Wan} {seq' : List ℕ},
      w.map (·, seq') = some (wan, seq) → seq = seq' := by
    intro w seq' heq
    obtain ⟨_, -, heq⟩ := Option.map_eq_some_iff.mp heq
    exact (Prod.mk.inj heq).2.symm
  unfold selectWanNolock at hsel
  dsimp only at hsel
  split at hsel
  · cases hsel
  split at hsel
  · cases hsel
    rfl
  split at hsel
  · rw [hmap hsel]
  split at hsel
  · rw [hmap hsel]
  split at hsel
  · rw [hmap hsel, length_set]
  · rw [hmap hsel]

theorem Inv.select (hinv : Inv s) (jiffies : UInt64) (key : FlowKey)
    (acquire : Bool) : Inv (selectWan h jiffies key acquire s).2.2 := by
  unfold selectWan
  split
  · exact hinv
  rename_i i r wan seq hsel
  obtain ⟨front, back, hsplit, hi, -, -, hwan⟩ := selectFrom_some hsel
  rw [Nat.zero_add] at hi
  have hlen := length_seq_selectWanNolock hwan
  have hcandidate : wan.adaptiveWeight ≤ 100 := by
    by_cases hnil : candidates s.wans r = []
    · rw [selectWanNolock_none h jiffies i key hnil] at hwan
      cases hwan
    obtain ⟨c, hc, seq', heq⟩ := selectWanNolock_some h jiffies i key hnil
    rw [heq] at hwan
    obtain ⟨rfl, -⟩ := Prod.mk.inj (Option.some.inj hwan)
    obtain ⟨m, -, hcandidate⟩ := mem_candidates hc
    obtain ⟨-, -, hget⟩ := wanById_eq_some (candidate_eq_some hcandidate).1
    exact hinv.adaptive c.wan (mem_of_getElem? hget)
  dsimp only
  refine ⟨hinv.paired.congr (prios_hit hsplit hi jiffies) rfl, hlen.trans hinv.seq, ?_, ?_⟩
  · show (if acquire = true then _ else s.wans).length = _
    split
    · rw [length_set]
      exact hinv.wans
    · exact hinv.wans
  · intro w hw
    show w.adaptiveWeight ≤ 100
    replace hw : w ∈ if acquire = true then
      s.wans.set (wan.wanId - 1) { wan with activeConn := wan.activeConn + 1 } else s.wans := hw
    split at hw
    · obtain hw | rfl := mem_or_eq_of_mem_set hw
      · exact hinv.adaptive w hw
      · exact hcandidate
    · exact hinv.adaptive w hw

/-- Every call keeps the invariant. -/
theorem Inv.step (hinv : Inv s) (call : Call) : Inv (callStep h s call) := by
  cases call with
  | rule op => exact ⟨hinv.paired.step op, length_newFlowSeq_step hinv.seq op, hinv.wans, hinv.adaptive⟩
  | register id name fwmark tableId gateway weight =>
    show Inv (wanRegister id name fwmark tableId gateway weight s).1
    unfold wanRegister
    split
    · exact hinv
    refine hinv.setWan _ (adaptiveWeight_registered ?_ _ id name fwmark tableId gateway weight) _
    rw [getD_eq_getElem?_getD]
    cases hget : s.wans[id - 1]? with
    | none => decide
    | some wan => exact hinv.adaptive wan (mem_of_getElem? hget)
  | unregister id =>
    show Inv (wanUnregister id s)
    unfold wanUnregister
    split
    · exact hinv.setWan _ (by decide) _
    · exact hinv
  | setWeight id weight => exact hinv.set id weight fun _ _ hwan => hwan
  | setAdaptiveWeight id weight => exact hinv.set id weight fun hweight _ _ => hweight
  | setHealth id health => exact hinv.update id fun _ hwan => hwan
  | accountRx id generation bytes =>
    show Inv (wanFlowAccountRx id generation bytes s)
    unfold wanFlowAccountRx
    split
    · exact hinv
    refine hinv.update id fun wan hwan => ?_
    split
    · exact hwan
    · exact hwan
  | release id generation =>
    show Inv (wanFlowRelease id generation s)
    unfold wanFlowRelease
    split
    · exact hinv
    refine hinv.update id fun wan hwan => ?_
    split
    · exact hwan
    · exact hwan
  | reconcile measured =>
    refine ⟨hinv.paired, hinv.seq, ?_, ?_⟩
    · show ((s.wans.zipIdx).map _).length = _
      rw [length_map, length_zipIdx]
      exact hinv.wans
    · intro w hw
      obtain ⟨⟨wan, i⟩, hmem, rfl⟩ := List.mem_map.mp hw
      have hwan := hinv.adaptive wan (fst_mem_of_mem_zipIdx hmem)
      dsimp only
      split
      · exact hwan
      split
      · exact hwan
      · exact hwan
  | carrierAdd network mask carrierId =>
    show Inv (carrierPrefixAdd network mask carrierId s).1
    unfold carrierPrefixAdd
    split
    · exact hinv
    split
    · exact hinv
    · exact ⟨hinv.paired.congr rfl rfl, hinv.seq, hinv.wans, hinv.adaptive⟩
  | carrierFlush => exact ⟨hinv.paired.congr rfl rfl, hinv.seq, hinv.wans, hinv.adaptive⟩
  | select jiffies key acquire => exact hinv.select jiffies key acquire

theorem inv_history (h : Jhash) (calls : List Call) : Inv (history h calls) := by
  induction calls using List.reverseRecOn with
  | nil => exact inv_start
  | append_singleton calls call ih =>
    rw [history_concat]
    exact ih.step call

/-! ### The selection -/

/-- The WAN that is returned is an eligible member of the rule of lowest prio that can take the
    flow. -/
def Selected (s : State) (key : FlowKey) (out : Selection) : Prop :=
  ∃ r ∈ s.tables.rules, CanTake s key r ∧ (∀ r' ∈ s.tables.rules, CanTake s key r' → r.prio ≤ r'.prio) ∧
    out.rulePrio = r.prio ∧ (∃ m ∈ members r, m.1 = out.wanId) ∧
    ∃ wan, wanById s.wans out.wanId = some wan ∧ wan.health ≠ 0 ∧ wan.fwmark ≠ 0 ∧
      out.fwmark = wan.fwmark

/-- **The first rule that can take the flow.**  After any calls, a selection returns an eligible
    member of the matching rule of lowest prio that has one; it returns `-ENOENT`, with its outputs
    zeroed, if and only if no matching rule has an eligible member, and no other error. -/
theorem select_first_match (h : Jhash) (calls : List Call) (jiffies : UInt64) (key : FlowKey)
    (acquire : Bool) :
    let s := history h calls
    let result := selectWan h jiffies key acquire s
    (result.1 = none ∧ Selected s key result.2.1 ∨
      result.1 = some .ENOENT ∧ result.2.1 = {} ∧ result.2.2 = s) ∧
    (result.1 = some .ENOENT ↔ ∀ r ∈ s.tables.rules, Matches s.tables.carriers r key →
      ∀ m ∈ members r, ¬Eligible s.wans m.1) := by
  have hinv := inv_history h calls
  generalize history h calls = s at hinv
  have hnone : (∀ r ∈ s.tables.rules, ¬CanTake s key r) ↔ ∀ r ∈ s.tables.rules,
      Matches s.tables.carriers r key → ∀ m ∈ members r, ¬Eligible s.wans m.1 := by
    refine forall₂_congr fun r _ => ?_
    unfold CanTake
    push Not
    rfl
  dsimp only
  rw [← hnone, ← selectFrom_none (h := h) (i := 0)]
  unfold selectWan
  cases hsel : selectFrom h jiffies s key 0 s.tables.rules with
  | none => exact ⟨.inr ⟨rfl, rfl, rfl⟩, iff_of_true rfl rfl⟩
  | some found =>
    obtain ⟨i, r, wan, seq⟩ := found
    refine ⟨.inl ⟨rfl, ?_⟩, iff_of_false (by nofun) (by nofun)⟩
    obtain ⟨front, back, hsplit, -, hcan, hfront, hwan⟩ := selectFrom_some hsel
    have hsorted := hinv.paired.sorted
    rw [hsplit] at hsorted
    obtain ⟨c, hc, seq', heq⟩ := selectWanNolock_some h jiffies i key (canTake_iff.mp hcan).2
    rw [heq] at hwan
    obtain ⟨rfl, -⟩ := Prod.mk.inj (Option.some.inj hwan)
    obtain ⟨m, hm, hcandidate⟩ := mem_candidates hc
    obtain ⟨hbyId, hhealth, hmark, -⟩ := candidate_eq_some hcandidate
    obtain ⟨hid, -, -⟩ := wanById_eq_some hbyId
    rw [← hid] at hbyId
    refine ⟨r, hsplit ▸ mem_append_right _ mem_cons_self, hcan, ?_, rfl, ⟨m, hm, hid.symm⟩,
      c.wan, hbyId, hhealth, hmark, rfl⟩
    intro r' hr' hcan'
    rw [hsplit] at hr'
    obtain hr' | hr' := mem_append.mp hr'
    · exact absurd hcan' (hfront r' hr')
    · obtain rfl | hr' := mem_cons.mp hr'
      · exact Nat.le_refl _
      · -- the rules behind have higher prios
        exact ((pairwise_cons.mp (pairwise_append.mp hsorted).2.1).1 r' hr').le

end DreamingOS.Route
