import DreamingOS.V3.Rules
import Mathlib.Data.List.FinRange

namespace DreamingOS.V2

open V3 (timeAfterEq)

/-!
# v2 rules — the staging transaction

The state of `jmx_v2_rules.c` and the operations on it, each one section under
`rules_update_lock`.

* `Rule` — a rule as the netlink handler hands it over and as a node of the set keeps it;
* `RuleSet` — hash buckets of nodes with the counters of the transaction;
* `KState` — the two rule sets and the owner of the staging one;
* `rulesBegin` / `ruleAdd` / `rulesCommit` — the operations of the netlink handler;
* `txExpireWorkfn` — the delayed work.

The counters are 32 bits wide and wrap.  The hash of an application id is a parameter (the kernel's
`jhash_1word`), and so is the construction of the automaton, which may fail.
-/

/-! ### Rules -/

def JMX_V2_MATCH_EXACT : ℕ := 0
def JMX_V2_MATCH_BM_STR : ℕ := 1
def JMX_V2_MATCH_NO_FIXED : ℕ := 3
def JMX_V2_PROTO_UDP : ℕ := 2
def JMX_V2_DIR_REPLY : ℕ := 2
def JMX_V2_MAX_PORTS : ℕ := 8
def JMX_V2_MAX_LEN_RNG : ℕ := 4
def JMX_V2_MAX_MATCH : ℕ := 256

/-- The error numbers the engine returns (as `-errno`). -/
inductive Errno where
  | EPERM | ENOENT | EIO | ENOMEM | EBUSY | EINVAL | EOVERFLOW | EMSGSIZE | ETIMEDOUT
  deriving DecidableEq

structure PortRange where
  (minPort maxPort : ℕ)
  deriving DecidableEq

structure LenRange where
  (minLen maxLen : ℕ)
  deriving DecidableEq

/-- `jmx_v2_rule_t`, and the fields of `struct jmx_v2_rule_node`. -/
structure Rule where
  (appid ruleId priority method proto dir portCount lenCount pktSeq : ℕ)
  offset : ℤ
  matchLen : ℕ
  matchStr : List UInt8
  ports : List PortRange
  lenRange : List LenRange
  deriving DecidableEq

/-- The node made of a rule: of each array only the counted part is copied. -/
def Rule.node (r : Rule) : Rule :=
  { r with
    matchStr := r.matchStr.take r.matchLen
    ports := r.ports.take r.portCount
    lenRange := r.lenRange.take r.lenCount }

/-- The checks of `jmx_v2_rule_add_locked`. -/
def Rule.Bad (r : Rule) : Prop :=
  JMX_V2_MAX_MATCH < r.matchLen ∨ JMX_V2_MAX_PORTS < r.portCount ∨
    JMX_V2_MAX_LEN_RNG < r.lenCount ∨ JMX_V2_MATCH_NO_FIXED < r.method ∨
    JMX_V2_PROTO_UDP < r.proto ∨ JMX_V2_DIR_REPLY < r.dir

instance (r : Rule) : Decidable r.Bad := inferInstanceAs (Decidable (_ ∨ _))

/-- `jmx_v2_ac_pattern_t`. -/
structure AcPattern where
  (appid priority proto dir method portCount lenCount : ℕ)
  ports : List PortRange
  lens : List LenRange
  pktSeq : ℕ
  offset : ℤ
  matchLen : ℕ
  matchStr : List UInt8

/-- The pattern a commit makes of a node. -/
def Rule.pattern (r : Rule) : AcPattern where
  appid := r.appid
  priority := r.priority
  proto := r.proto
  dir := r.dir
  method := r.method
  portCount := r.portCount
  lenCount := r.lenCount
  ports := r.ports
  lens := r.lenRange
  pktSeq := r.pktSeq
  offset := r.offset
  matchLen := r.matchLen
  matchStr := r.matchStr

/-- A node the automaton has to hold. -/
def Rule.Literal (r : Rule) : Prop := r.method = JMX_V2_MATCH_BM_STR ∨ r.method = JMX_V2_MATCH_EXACT

instance (r : Rule) : Decidable r.Literal := inferInstanceAs (Decidable (_ ∨ _))

/-! ### State -/

/-- A `uint32_t` counter, one up. -/
def inc32 (n : ℕ) : ℕ := (n + 1) % 4294967296

/-- `struct jmx_v2_rule_set_k`. -/
structure RuleSet (Ac : Type) where
  buckets : Fin 256 → List Rule := fun _ => []
  count : ℕ := 0
  version : ℕ := 0
  attempted : ℕ := 0
  rejectedInvalid : ℕ := 0
  rejectedNomem : ℕ := 0
  ac : Option Ac := none

/-- The nodes in the order a walk over the buckets meets them. -/
def RuleSet.nodes {Ac : Type} (s : RuleSet Ac) : List Rule := (List.finRange 256).flatMap s.buckets

/-- `rule_sets` with `active_idx`, as the active set and the other one, and the staging owner. -/
structure KState (Ac : Type) where
  active : RuleSet Ac := {}
  staging : RuleSet Ac := {}
  stagingOwnerPortid : ℕ := 0
  stagingDeadline : BitVec 64 := 0

/-- What the surroundings of one section contribute: the tick rate, the readings of `jiffies` by
    the expiry test and by the renewal of the deadline, the outcomes of the allocations, and the
    construction of the automaton. -/
structure Env (Ac : Type) where
  hz : ℕ := 100
  (now renew : BitVec 64)
  alloc : Bool := true
  patsAlloc : Bool := true
  acBuild : List AcPattern → Except Errno Ac

variable {Ac : Type}

/-! ### Ownership -/

/-- `JMX_V2_TX_TIMEOUT`. -/
def txTimeout (hz : ℕ) : BitVec 64 := BitVec.ofNat 64 (30 * hz)

/-- `jmx_v2_tx_reset_locked`. -/
def txResetLocked (clearStaging : Bool) (st : KState Ac) : KState Ac :=
  { st with
    staging := if clearStaging then {} else st.staging
    stagingOwnerPortid := 0
    stagingDeadline := 0 }

/-- The test of `jmx_v2_tx_expire_locked`. -/
def Expired (now : BitVec 64) (st : KState Ac) : Prop :=
  st.stagingOwnerPortid ≠ 0 ∧ timeAfterEq now st.stagingDeadline = true

instance (now : BitVec 64) (st : KState Ac) : Decidable (Expired now st) :=
  inferInstanceAs (Decidable (_ ∧ _))

/-- `jmx_v2_tx_expire_locked`. -/
def txExpireLocked (now : BitVec 64) (st : KState Ac) : KState Ac × Bool :=
  if Expired now st then (txResetLocked true st, true) else (st, false)

/-- `jmx_v2_tx_expire_workfn`. -/
def txExpireWorkfn (now : BitVec 64) (st : KState Ac) : KState Ac := (txExpireLocked now st).1

/-- `jmx_v2_tx_check_owner_locked`. -/
def txCheckOwnerLocked (now : BitVec 64) (ownerPortid : ℕ) (st : KState Ac) :
    KState Ac × Option Errno :=
  if ownerPortid = 0 then (st, some .EINVAL)
  else
    match txExpireLocked now st with
    | (st, true) => (st, some .ETIMEDOUT)
    | (st, false) =>
      if st.stagingOwnerPortid = 0 then (st, some .ENOENT)
      else if st.stagingOwnerPortid ≠ ownerPortid then (st, some .EPERM)
      else (st, none)

/-- `jmx_v2_tx_refresh_locked`. -/
def txRefreshLocked (env : Env Ac) (st : KState Ac) : KState Ac :=
  { st with stagingDeadline := env.renew + txTimeout env.hz }

/-! ### Begin and add -/

/-- `jmx_v2_rules_begin`. -/
def rulesBegin (env : Env Ac) (ownerPortid : ℕ) (st : KState Ac) : KState Ac × Option Errno :=
  if ownerPortid = 0 then (st, some .EINVAL)
  else
    let (st, _) := txExpireLocked env.now st
    if st.stagingOwnerPortid ≠ 0 ∧ st.stagingOwnerPortid ≠ ownerPortid then (st, some .EBUSY)
    else
      (txRefreshLocked env { st with staging := {}, stagingOwnerPortid := ownerPortid }, none)

/-- `hlist_add_head` of a node to the bucket of its application id. -/
def RuleSet.insert (hashAppid : ℕ → Fin 256) (s : RuleSet Ac) (node : Rule) : RuleSet Ac :=
  { s with
    buckets := Function.update s.buckets (hashAppid node.appid)
      (node :: s.buckets (hashAppid node.appid))
    count := inc32 s.count }

/-- `jmx_v2_rule_add_locked` on the staging set; `none` is the null rule. -/
def ruleAddLocked (hashAppid : ℕ → Fin 256) (alloc : Bool) (rule : Option Rule)
    (s : RuleSet Ac) : RuleSet Ac × Option Errno :=
  let s := { s with attempted := inc32 s.attempted }
  match rule with
  | none => ({ s with rejectedInvalid := inc32 s.rejectedInvalid }, some .EINVAL)
  | some r =>
    if r.Bad then ({ s with rejectedInvalid := inc32 s.rejectedInvalid }, some .EINVAL)
    else if !alloc then ({ s with rejectedNomem := inc32 s.rejectedNomem }, some .ENOMEM)
    else (s.insert hashAppid r.node, none)

/-- `jmx_v2_rule_add`. -/
def ruleAdd (hashAppid : ℕ → Fin 256) (env : Env Ac) (ownerPortid : ℕ) (rule : Option Rule)
    (st : KState Ac) : KState Ac × Option Errno :=
  match txCheckOwnerLocked env.now ownerPortid st with
  | (st, some e) => (st, some e)
  | (st, none) =>
    let (staging, rc) := ruleAddLocked hashAppid env.alloc rule st.staging
    (txRefreshLocked env { st with staging := staging }, rc)

/-! ### Commit -/

/-- The automaton of a staged set: of the literal nodes in the order of the walk, or none. -/
def buildAc (env : Env Ac) (s : RuleSet Ac) : Except Errno (Option Ac) :=
  let eligible := s.nodes.countP (fun r => r.Literal ∧ r.matchLen ≠ 0) % 4294967296
  if eligible = 0 then .ok none
  else if !env.patsAlloc then .error .ENOMEM
  else
    let pats := (s.nodes.filter fun r => r.Literal ∧ r.matchLen ≠ 0).map Rule.pattern
    if pats.length % 4294967296 ≠ eligible then .error Errno.EIO
    else (env.acBuild pats).map some

/-- What `jmx_v2_rules_commit` finds wrong with the staged set before it builds the automaton. -/
def commitRejects (s : RuleSet Ac) : Option Errno :=
  let emptyRejected := s.nodes.countP (fun r => r.Literal ∧ r.matchLen = 0) % 4294967296
  if s.rejectedInvalid ≠ 0 ∨ s.rejectedNomem ≠ 0 ∨ emptyRejected ≠ 0 then
    some (if s.rejectedNomem ≠ 0 then .ENOMEM else .EINVAL)
  else none

/-- `jmx_v2_rules_commit`: the staged set becomes the active one and the old one is cleared, or the
    staged set is discarded. -/
def rulesCommit (env : Env Ac) (ownerPortid version : ℕ) (st : KState Ac) :
    KState Ac × Option Errno :=
  match txCheckOwnerLocked env.now ownerPortid st with
  | (st, some e) => (st, some e)
  | (st, none) =>
    match commitRejects st.staging with
    | some e => (txResetLocked true st, some e)
    | none =>
      match buildAc env st.staging with
      | .error e => (txResetLocked true st, some e)
      | .ok ac =>
        (txResetLocked false
          { st with active := { st.staging with ac := ac, version := version }, staging := {} },
          none)

/-- `jmx_v2_rules_get_status`: the version and the count of the active set. -/
def rulesGetStatus (st : KState Ac) : ℕ × ℕ := (st.active.version, st.active.count)

end DreamingOS.V2
