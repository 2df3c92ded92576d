import DreamingOS.Route.Integrity

namespace DreamingOS.Route

open Bytes

/-!
# Policy routes — the choice of a WAN

The WAN table of `jmx_route.c` and the selection, each call one section under `jmx_route_lock`.

* `Wan`, `wanRegister` / `wanSetWeight` / `wanSetAdaptiveWeight` — the table and what changes it;
* `candidates` — the members of a rule that can take a flow;
* `slotSelect` / `selectMinMetric` — the schedulers;
* `callStep`, `history` — the state after any sequence of calls.

The kernel's hash functions are a parameter.  Symbols for addresses are numbers as they stand in
memory.
-/

/-! ### The WAN table -/

def JMX_ROUTE_TABLE_BASE : UInt32 := 100
def JMX_MAX_CARRIER_PREFIXES : ℕ := 8192
def JMX_CARRIER_ANY : ℕ := 0

/-- `jmx_wan_iface_t`; a slot whose id is zero is free. -/
structure Wan where
  wanId : ℕ := 0
  name : List UInt8 := []
  fwmark : UInt32 := 0
  tableId : UInt32 := 0
  gateway : UInt32 := 0
  health : UInt8 := 0
  weight : UInt32 := 0
  adaptiveWeight : UInt32 := 0
  rxBytes : UInt64 := 0
  activeConn : UInt64 := 0
  generation : UInt32 := 0

/-- The rule tables, `g_wans` and `g_wan_generation`. -/
structure State where
  tables : Tables := {}
  wans : List Wan := List.replicate JMX_MAX_WAN_IFACES {}
  wanGeneration : UInt32 := 0

/-- `jmx_wan_idx_valid`. -/
def wanIdxValid (id : ℕ) : Prop := 0 < id ∧ id ≤ JMX_MAX_WAN_IFACES

instance (id : ℕ) : Decidable (wanIdxValid id) := inferInstanceAs (Decidable (_ ∧ _))

/-- `jmx_wan_by_id_nolock`. -/
def wanById (wans : List Wan) (id : ℕ) : Option Wan :=
  if wanIdxValid id then (wans[id - 1]?).filter fun wan => wan.wanId = id else none

/-- `jmx_wan_next_generation_nolock`. -/
def nextGeneration (generation : UInt32) : UInt32 :=
  if generation + 1 = 0 then generation + 2 else generation + 1

/-- The errors of the calls on WANs and carriers, and of the selection. -/
inductive SelectErrno where
  | EINVAL | ENOENT | ENOSPC

/-- The entry that `jmx_wan_register` leaves: a new incarnation, unless mark, table and name stay. -/
def registered (old : Wan) (generation : UInt32) (id : ℕ) (name : List UInt8)
    (fwmark tableId gateway weight : UInt32) : Wan × UInt32 :=
  let name := name.take 15
  let tableId := if tableId ≠ 0 then tableId else JMX_ROUTE_TABLE_BASE + UInt32.ofNat id
  let newIncarnation := old.wanId ≠ id ∨ old.fwmark ≠ fwmark ∨ old.tableId ≠ tableId ∨ old.name ≠ name
  let generation' := if newIncarnation then nextGeneration generation else generation
  let wan : Wan :=
    if newIncarnation then { generation := generation', health := 1, adaptiveWeight := 100 } else old
  ({ wan with wanId := id, name, fwmark, tableId, gateway, weight }, generation')

/-- `jmx_wan_register`. -/
def wanRegister (id : ℕ) (name : List UInt8) (fwmark tableId gateway weight : UInt32) (s : State) :
    State × Option SelectErrno :=
  if ¬wanIdxValid id ∨ fwmark = 0 ∨ weight = 0 then (s, some .EINVAL)
  else
    let (wan, generation) := registered (s.wans.getD (id - 1) {}) s.wanGeneration id name fwmark
      tableId gateway weight
    ({ s with wans := s.wans.set (id - 1) wan, wanGeneration := generation }, none)

/-- A registered WAN is changed. -/
def wanUpdate (id : ℕ) (change : Wan → Wan) (s : State) : State :=
  match wanById s.wans id with
  | none => s
  | some wan => { s with wans := s.wans.set (id - 1) (change wan) }

/-- `jmx_wan_set_weight`, and `jmx_wan_set_adaptive_weight`. -/
def wanSet (id : ℕ) (weight : UInt32) (change : Wan → Wan) (s : State) :
    State × Option SelectErrno :=
  if ¬wanIdxValid id ∨ weight < 1 ∨ 100 < weight then (s, some .EINVAL)
  else if (wanById s.wans id).isNone then (s, some .ENOENT)
  else (wanUpdate id change s, none)

def wanSetWeight (id : ℕ) (weight : UInt32) : State → State × Option SelectErrno :=
  wanSet id weight fun wan => { wan with weight }

def wanSetAdaptiveWeight (id : ℕ) (weight : UInt32) : State → State × Option SelectErrno :=
  wanSet id weight fun wan => { wan with adaptiveWeight := weight }

/-- `jmx_wan_unregister`. -/
def wanUnregister (id : ℕ) (s : State) : State :=
  if wanIdxValid id then { s with wans := s.wans.set (id - 1) {} } else s

/-- `jmx_wan_set_health`. -/
def wanSetHealth (id : ℕ) (health : UInt8) (s : State) : State :=
  wanUpdate id (fun wan => { wan with health := if health ≠ 0 then 1 else 0 }) s

/-- `jmx_wan_flow_account_rx`. -/
def wanFlowAccountRx (id : ℕ) (generation : UInt32) (bytes : UInt64) (s : State) : State :=
  if bytes = 0 ∨ generation = 0 then s
  else wanUpdate id (fun wan =>
    if wan.generation = generation then { wan with rxBytes := wan.rxBytes + bytes } else wan) s

/-- `jmx_wan_flow_release`. -/
def wanFlowRelease (id : ℕ) (generation : UInt32) (s : State) : State :=
  if generation = 0 then s
  else wanUpdate id (fun wan =>
    if wan.generation = generation ∧ wan.activeConn ≠ 0 then
      { wan with activeConn := wan.activeConn - 1 }
    else wan) s

/-- `jmx_wan_active_conn_reconcile`, on the counts and generations of the first slots. -/
def wanActiveConnReconcile (measured : List (UInt64 × UInt32)) (s : State) : State :=
  { s with
    wans := s.wans.zipIdx.map fun (wan, i) =>
      match measured[i]? with
      | none => wan
      | some (count, generation) =>
        if wan.wanId = 0 ∨ generation = 0 ∨ wan.generation ≠ generation then wan
        else { wan with activeConn := count } }

/-! ### Carriers -/

/-- The number behind four bytes in network order, on a little-endian machine. -/
def ntohl (n : ℕ) : ℕ := ofLE (toLE 4 n).reverse

/-- `jmx_carrier_prefix_add`. -/
def carrierPrefixAdd (network mask carrierId : ℕ) (s : State) : State × Option SelectErrno :=
  if mask = 0 ∨ carrierId = 0 then (s, some .EINVAL)
  else if JMX_MAX_CARRIER_PREFIXES ≤ s.tables.carriers.length then (s, some .ENOSPC)
  else
    ({ s with
       tables := { s.tables with
         carriers := s.tables.carriers ++ [⟨network &&& mask, mask, carrierId⟩] } }, none)

/-- `jmx_carrier_prefix_flush`. -/
def carrierPrefixFlush (s : State) : State := { s with tables := { s.tables with carriers := [] } }

/-- One round of `jmx_carrier_lookup_nolock`: the carrier so far and its mask. -/
def carrierStep (ip : ℕ) (best : ℕ × ℕ) (p : CarrierPrefix) : ℕ × ℕ :=
  if ip &&& p.mask ≠ p.network then best
  else if ntohl best.2 ≤ ntohl p.mask then (p.carrierId, p.mask)
  else best

/-- `jmx_carrier_lookup_nolock`. -/
def carrierLookup (carriers : List CarrierPrefix) (ip : ℕ) : ℕ :=
  (carriers.foldl (carrierStep ip) (JMX_CARRIER_ANY, 0)).1

/-! ### Rules and flows -/

/-- The addresses of a flow; those of IPv6 are four words each. -/
inductive FlowAddr where
  | v4 (src dst : ℕ)
  | v6 (src dst : List ℕ)

/-- `struct jmx_route_flow_key`, as the four entry points fill it in. -/
structure FlowKey where
  (proto srcPort dstPort appid : ℕ)
  addr : FlowAddr

/-- `jmx_ip_match`. -/
def ipMatch (ip ruleIp mask : ℕ) : Bool := ruleIp = 0 || mask = 0 || ip &&& mask = ruleIp &&& mask

/-- `jmx_rule_match`. -/
def ruleMatch (carriers : List CarrierPrefix) (r : RouteRule) (key : FlowKey) : Bool :=
  if r.enabled = 0 then false
  else if r.proto ≠ 0 ∧ r.proto ≠ key.proto then false
  else if r.appid ≠ 0 ∧ r.appid ≠ key.appid then false
  else if r.dstPort ≠ 0 ∧ r.dstPort ≠ key.dstPort then false
  else
    match key.addr with
    | .v4 src dst =>
      if r.carrierId ≠ 0 ∧ r.carrierId ≠ carrierLookup carriers dst then false
      else ipMatch src r.srcAddr r.srcMask && ipMatch dst r.dstAddr r.dstMask
    -- rules carry IPv4 prefixes only
    | .v6 _ _ =>
      r.carrierId = 0 && r.srcAddr = 0 && r.srcMask = 0 && r.dstAddr = 0 && r.dstMask = 0

/-- The kernel's hash functions. -/
structure Jhash where
  word1 : UInt32 → UInt32 → UInt32
  words2 : UInt32 → UInt32 → UInt32 → UInt32
  words3 : UInt32 → UInt32 → UInt32 → UInt32 → UInt32
  words : List UInt32 → UInt32 → UInt32

def JMX_STICKY_NEW_CONN : ℕ := 0
def JMX_STICKY_SIP : ℕ := 1
def JMX_STICKY_SIP_SPORT : ℕ := 2
def JMX_STICKY_SIP_DIP : ℕ := 3
def JMX_STICKY_SIP_DIP_DPORT : ℕ := 4
def JMX_STICKY_5TUPLE : ℕ := 5
def JMX_STICKY_PRIMARY_BACKUP : ℕ := 6
def JMX_STICKY_DOWNLOAD : ℕ := 7
def JMX_STICKY_CONN_CNT : ℕ := 8
def JMX_STICKY_ADAPTIVE_PENALTY : ℕ := 9

/-- `jmx_route_hash4`. -/
def routeHash4 (h : Jhash) (jiffies : UInt64) (r : RouteRule) (key : FlowKey) (src dst : ℕ) : UInt32 :=
  let srcIp := UInt32.ofNat src
  let dstIp := UInt32.ofNat dst
  let ports := UInt32.ofNat key.srcPort <<< 16 ||| UInt32.ofNat key.dstPort
  let protoPrio := UInt32.ofNat key.proto <<< 24 ||| UInt32.ofNat r.prio
  if r.stickyMode = JMX_STICKY_SIP then h.word1 srcIp 0x51a7e001
  else if r.stickyMode = JMX_STICKY_SIP_SPORT then h.words2 srcIp (UInt32.ofNat key.srcPort) 0x51a7e002
  else if r.stickyMode = JMX_STICKY_SIP_DIP then h.words2 srcIp dstIp 0x51a7e003
  else if r.stickyMode = JMX_STICKY_SIP_DIP_DPORT then
    h.words3 srcIp dstIp (UInt32.ofNat key.dstPort) 0x51a7e004
  else if r.stickyMode = JMX_STICKY_5TUPLE then
    h.words3 (srcIp ^^^ dstIp) ports protoPrio 0x51a7e005
  else if r.stickyMode = JMX_STICKY_PRIMARY_BACKUP then 0
  else if r.stickyMode = JMX_STICKY_DOWNLOAD ∨ r.stickyMode = JMX_STICKY_CONN_CNT ∨
      r.stickyMode = JMX_STICKY_ADAPTIVE_PENALTY then
    h.words3 (srcIp ^^^ dstIp) ports protoPrio 0x51a7e006
  else h.words3 srcIp dstIp ports jiffies.toUInt32

/-- `jmx_route_hash6`. -/
def routeHash6 (h : Jhash) (jiffies : UInt64) (r : RouteRule) (key : FlowKey) (src dst : List ℕ) :
    UInt32 :=
  let src := (src.take 4).map UInt32.ofNat
  let dst := (dst.take 4).map UInt32.ofNat
  let ports := UInt32.ofNat key.srcPort <<< 16 ||| UInt32.ofNat key.dstPort
  let protoPrio := UInt32.ofNat key.proto <<< 24 ||| UInt32.ofNat r.prio
  if r.stickyMode = JMX_STICKY_SIP then h.words src 0x51a7e001
  else if r.stickyMode = JMX_STICKY_SIP_SPORT then
    h.words (src ++ [UInt32.ofNat key.srcPort]) 0x51a7e002
  else if r.stickyMode = JMX_STICKY_SIP_DIP then h.words (src ++ dst) 0x51a7e003
  else if r.stickyMode = JMX_STICKY_SIP_DIP_DPORT then
    h.words (src ++ dst ++ [UInt32.ofNat key.dstPort]) 0x51a7e004
  else if r.stickyMode = JMX_STICKY_5TUPLE then h.words (src ++ dst ++ [ports, protoPrio]) 0x51a7e005
  else if r.stickyMode = JMX_STICKY_PRIMARY_BACKUP then 0
  else if r.stickyMode = JMX_STICKY_DOWNLOAD ∨ r.stickyMode = JMX_STICKY_CONN_CNT ∨
      r.stickyMode = JMX_STICKY_ADAPTIVE_PENALTY then
    h.words (src ++ dst ++ [ports, protoPrio]) 0x51a7e006
  else h.words (src ++ dst ++ [ports, UInt32.ofNat key.proto]) jiffies.toUInt32

/-- `jmx_route_hash`. -/
def routeHash (h : Jhash) (jiffies : UInt64) (r : RouteRule) (key : FlowKey) : UInt32 :=
  match key.addr with
  | .v4 src dst => routeHash4 h jiffies r key src dst
  | .v6 src dst => routeHash6 h jiffies r key src dst

/-! ### Schedulers -/

/-- `struct jmx_route_candidate`. -/
structure Candidate where
  wan : Wan
  policyWeight : UInt32

/-- `jmx_selection_weight`. -/
def selectionWeight (adaptive : Bool) (c : Candidate) : UInt64 :=
  if adaptive then
    c.policyWeight.toUInt64 *
      (if c.wan.adaptiveWeight ≠ 0 then c.wan.adaptiveWeight.toUInt64 else 100)
  else c.policyWeight.toUInt64

/-- The sum of the weights, in 64 bits. -/
def totalWeight (adaptive : Bool) (cs : List Candidate) : UInt64 :=
  cs.foldl (fun total c => total + selectionWeight adaptive c) 0

/-- The walk of a point over the weights: the position of the candidate it falls to. -/
def pointWalk (adaptive : Bool) : UInt64 → List Candidate → Option ℕ
  | _, [] => none
  | point, c :: cs =>
    if point < selectionWeight adaptive c then some 0
    else (pointWalk adaptive (point - selectionWeight adaptive c) cs).map (· + 1)

/-- The position that `jmx_weighted_slot_select` picks. -/
def slotIndex (adaptive : Bool) (cs : List Candidate) (slot : UInt64) : ℕ :=
  let total := totalWeight adaptive cs
  if total = 0 then (slot % UInt64.ofNat cs.length).toNat
  else (pointWalk adaptive (slot % total) cs).getD (cs.length - 1)

/-- `jmx_weighted_slot_select`. -/
def slotSelect (adaptive : Bool) (cs : List Candidate) (slot : UInt64) : Option Wan :=
  (cs[slotIndex adaptive cs slot]?).map Candidate.wan

/-- `jmx_weighted_tie_select`. -/
def tieSelect (h : Jhash) (adaptive : Bool) (cs : List Candidate) (hash : UInt32) : Option Wan :=
  let total := totalWeight adaptive cs
  let index :=
    if total = 0 then (hash % UInt32.ofNat cs.length).toNat
    else
      let hash64 := hash.toUInt64 <<< 32 ||| (h.word1 hash 0x51a7e007).toUInt64
      (pointWalk adaptive (hash64 % total) cs).getD (cs.length - 1)
  (cs[index]?).map Candidate.wan

/-- `jmx_weighted_metric_cmp`. -/
def metricCmp (left leftWeight right rightWeight : UInt64) : Ordering :=
  let leftQ := left / leftWeight
  let rightQ := right / rightWeight
  if leftQ < rightQ then .lt
  else if rightQ < leftQ then .gt
  else
    let leftR := (left - leftQ * leftWeight).toUInt32
    let rightR := (right - rightQ * rightWeight).toUInt32
    let leftFraction := leftR.toUInt64 * rightWeight
    let rightFraction := rightR.toUInt64 * leftWeight
    if leftFraction < rightFraction then .lt
    else if rightFraction < leftFraction then .gt
    else .eq

/-- The metric of a candidate: its connections, or the bytes it received. -/
def metric (byConnections : Bool) (c : Candidate) : UInt64 :=
  if byConnections then c.wan.activeConn else c.wan.rxBytes

/-- One round of the loop of `jmx_select_min_metric_nolock`: the ties so far, the first one apart. -/
def minMetricStep (byConnections adaptive : Bool) (best : Candidate × List Candidate) (c : Candidate) :
    Candidate × List Candidate :=
  match metricCmp (metric byConnections c) (selectionWeight adaptive c) (metric byConnections best.1)
    (selectionWeight adaptive best.1) with
  | .lt => (c, [])
  | .eq => (best.1, best.2 ++ [c])
  | .gt => best

/-- `jmx_select_min_metric_nolock`. -/
def selectMinMetric (h : Jhash) (byConnections : Bool) (hash : UInt32) (adaptive : Bool)
    (cs : List Candidate) : Option Wan :=
  match cs with
  | [] => none
  | c :: cs =>
    let best := cs.foldl (minMetricStep byConnections adaptive) (c, [])
    tieSelect h adaptive (best.1 :: best.2) hash

/-! ### Selection -/

/-- A member that can take a flow, with its weight. -/
def candidate (wans : List Wan) (id : ℕ) (ruleWeight : ℕ) : Option Candidate :=
  match wanById wans id with
  | none => none
  | some wan =>
    if wan.health = 0 ∨ wan.fwmark = 0 then none
    else
      let weight := if ruleWeight ≠ 0 then UInt32.ofNat ruleWeight else wan.weight
      some ⟨wan, if weight = 0 then 1 else weight⟩

/-- The members of a rule, in their order. -/
def members (r : RouteRule) : List (ℕ × ℕ) :=
  (List.range (min r.wanCount JMX_MAX_WAN_IFACES)).map fun i =>
    (r.wanIds.getD i 0, r.wanWeights.getD i 0)

/-- The loop of `jmx_select_wan_nolock`. -/
def candidates (wans : List Wan) (r : RouteRule) : List Candidate :=
  (members r).filterMap fun (id, weight) => candidate wans id weight

/-- Whether the weights of a rule's members are scaled by their adaptive weights. -/
def adaptiveRule (slots : List Slot) (r : RouteRule) : Bool :=
  enhancements r.prio slots &&& JMX_ROUTE_ENHANCEMENT_ADAPTIVE_PENALTY ≠ 0 ||
    r.stickyMode = JMX_STICKY_ADAPTIVE_PENALTY

/-- `jmx_select_wan_nolock` for the rule at index `i`: the WAN, and the counters of new flows. -/
def selectWanNolock (h : Jhash) (jiffies : UInt64) (s : State) (i : ℕ) (r : RouteRule)
    (key : FlowKey) : Option (Wan × List ℕ) :=
  let cs := candidates s.wans r
  let adaptive := adaptiveRule s.tables.slots r
  let seq := s.tables.newFlowSeq
  match cs with
  | [] => none
  | first :: _ =>
    let hash := routeHash h jiffies r key
    if r.stickyMode = JMX_STICKY_PRIMARY_BACKUP then some (first.wan, seq)
    else if r.stickyMode = JMX_STICKY_DOWNLOAD then
      (selectMinMetric h false hash adaptive cs).map (·, seq)
    else if r.stickyMode = JMX_STICKY_CONN_CNT then
      (selectMinMetric h true hash adaptive cs).map (·, seq)
    else if (r.stickyMode = JMX_STICKY_NEW_CONN ∨ r.stickyMode = JMX_STICKY_ADAPTIVE_PENALTY) ∧
        i < JMX_MAX_ROUTE_RULES then
      let slot := UInt64.ofNat (seq.getD i 0)
      (slotSelect adaptive cs slot).map (·, seq.set i (slot + 1).toNat)
    else
      let slot := hash.toUInt64 <<< 32 ||| (h.word1 hash 0x51a7e008).toUInt64
      (slotSelect adaptive cs slot).map (·, seq)

def JMX_ROUTE_SRC_DEFAULT : ℕ := 0
def JMX_ROUTE_SRC_APP : ℕ := 1
def JMX_ROUTE_SRC_DOMAIN : ℕ := 2
def JMX_ROUTE_SRC_TUPLE : ℕ := 3

/-- What a selection returns through its pointers. -/
structure Selection where
  fwmark : UInt32 := 0
  wanId : ℕ := 0
  routeSource : ℕ := JMX_ROUTE_SRC_DEFAULT
  rulePrio : ℕ := 0
  wanGeneration : UInt32 := 0

/-- The loop of `jmx_route_select_wan_internal` from rule `i` on. -/
def selectFrom (h : Jhash) (jiffies : UInt64) (s : State) (key : FlowKey) :
    ℕ → List RouteRule → Option (ℕ × RouteRule × Wan × List ℕ)
  | _, [] => none
  | i, r :: rs =>
    if !ruleMatch s.tables.carriers r key then selectFrom h jiffies s key (i + 1) rs
    else
      match selectWanNolock h jiffies s i r key with
      | none => selectFrom h jiffies s key (i + 1) rs
      | some (wan, seq) => some (i, r, wan, seq)

/-- The rule after one more hit. -/
def RouteRule.hit (r : RouteRule) (jiffies : UInt64) : RouteRule :=
  { r with hitCount := (r.hitCount + 1) % 2 ^ 64, lastHitJiffies := jiffies.toNat }

/-- `jmx_route_select_wan_internal`: the return value, the outputs, and the state. -/
def selectWan (h : Jhash) (jiffies : UInt64) (key : FlowKey) (acquire : Bool) (s : State) :
    Option SelectErrno × Selection × State :=
  match selectFrom h jiffies s key 0 s.tables.rules with
  | none => (some .ENOENT, {}, s)
  | some (i, r, wan, seq) =>
    (none,
      { fwmark := wan.fwmark
        wanId := wan.wanId
        routeSource :=
          if r.appid ≠ 0 then JMX_ROUTE_SRC_APP
          else if r.carrierId ≠ 0 then JMX_ROUTE_SRC_DOMAIN
          else JMX_ROUTE_SRC_TUPLE
        rulePrio := r.prio
        wanGeneration := if acquire then wan.generation else 0 },
      { s with
        tables := { s.tables with
          rules := s.tables.rules.set i (r.hit jiffies)
          newFlowSeq := seq }
        wans :=
          if acquire then
            s.wans.set (wan.wanId - 1) { wan with activeConn := wan.activeConn + 1 }
          else s.wans })

/-! ### Histories -/

/-- A call that changes the state. -/
inductive Call where
  | rule (op : Op)
  | register (id : ℕ) (name : List UInt8) (fwmark tableId gateway weight : UInt32)
  | unregister (id : ℕ)
  | setWeight (id : ℕ) (weight : UInt32)
  | setAdaptiveWeight (id : ℕ) (weight : UInt32)
  | setHealth (id : ℕ) (health : UInt8)
  | accountRx (id : ℕ) (generation : UInt32) (bytes : UInt64)
  | release (id : ℕ) (generation : UInt32)
  | reconcile (measured : List (UInt64 × UInt32))
  | carrierAdd (network mask carrierId : ℕ)
  | carrierFlush
  | select (jiffies : UInt64) (key : FlowKey) (acquire : Bool)

/-- The state after a call. -/
def callStep (h : Jhash) (s : State) : Call → State
  | .rule op => { s with tables := (step s.tables op).1 }
  | .register id name fwmark tableId gateway weight =>
    (wanRegister id name fwmark tableId gateway weight s).1
  | .unregister id => wanUnregister id s
  | .setWeight id weight => (wanSetWeight id weight s).1
  | .setAdaptiveWeight id weight => (wanSetAdaptiveWeight id weight s).1
  | .setHealth id health => wanSetHealth id health s
  | .accountRx id generation bytes => wanFlowAccountRx id generation bytes s
  | .release id generation => wanFlowRelease id generation s
  | .reconcile measured => wanActiveConnReconcile measured s
  | .carrierAdd network mask carrierId => (carrierPrefixAdd network mask carrierId s).1
  | .carrierFlush => carrierPrefixFlush s
  | .select jiffies key acquire => (selectWan h jiffies key acquire s).2.2

/-- The state after a sequence of calls from the start. -/
def history (h : Jhash) (calls : List Call) : State := calls.foldl (callStep h) {}

theorem history_concat (h : Jhash) (calls : List Call) (call : Call) :
    history h (calls ++ [call]) = callStep h (history h calls) call := by
  rw [history, List.foldl_append]
  rfl

end DreamingOS.Route
