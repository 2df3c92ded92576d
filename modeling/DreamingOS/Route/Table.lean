import DreamingOS.V3.Abi
import Mathlib.Data.List.Sort

namespace DreamingOS.Route

open Bytes

/-!
# Policy routes — the rule table and the enhancement table

The rule operations of `jmx_route.c`, each one section under `jmx_route_lock`, and the netlink
messages that ask for them.

* `Slot`, `enhancements` / `setEnhancements` / `clearEnhancements` — the table of enhancement
  flags, one slot for each prio;
* `ruleAddWithEnhancements` / `ruleDel` / `ruleClearHits` / `ruleFlush` — the operations;
* `step`, `run` — operations one after the other, with the flags last given for each prio.

Of `g_rules` only the first `g_rule_count` entries are kept: the operations read no others.
-/

def JMX_MAX_WAN_IFACES : ℕ := 8
def JMX_MAX_ROUTE_RULES : ℕ := 256
def JMX_STICKY_MAX : ℕ := 9
def JMX_ROUTE_ENHANCEMENT_ADAPTIVE_PENALTY : UInt32 := 0x00000001
def JMX_ROUTE_ENHANCEMENT_KNOWN : UInt32 := JMX_ROUTE_ENHANCEMENT_ADAPTIVE_PENALTY

/-- The error numbers of the operations (as `-errno`). -/
inductive Errno where
  | EINVAL | ENOSPC

/-! ### The tables -/

/-- `jmx_route_rule_t`. -/
structure RouteRule where
  (enabled prio srcAddr srcMask dstAddr dstMask dstPort proto appid carrierId stickyMode : ℕ)
  (wanCount : ℕ)
  (wanIds wanWeights : List ℕ)
  (hitCount lastHitJiffies : ℕ)

/-- `struct jmx_route_rule_enhancement_state`; a slot with prio zero is free. -/
structure Slot where
  prio : ℕ := 0
  flags : UInt32 := 0

/-- `jmx_carrier_prefix_t`. -/
structure CarrierPrefix where
  (network mask carrierId : ℕ)

/-- `g_rules`, `g_rule_enhancements`, `g_new_flow_seq` and `g_carriers`. -/
structure Tables where
  rules : List RouteRule := []
  slots : List Slot := List.replicate JMX_MAX_ROUTE_RULES {}
  newFlowSeq : List ℕ := List.replicate JMX_MAX_ROUTE_RULES 0
  carriers : List CarrierPrefix := []

/-! ### Enhancement slots -/

/-- `jmx_route_enhancements_nolock`. -/
def enhancements (prio : ℕ) : List Slot → UInt32
  | [] => 0
  | s :: slots => if s.prio = prio then s.flags else enhancements prio slots

/-- The table with its first slot of this prio replaced, if there is one. -/
def replaceFirst (prio : ℕ) (f : Slot → Slot) : List Slot → Option (List Slot)
  | [] => none
  | s :: slots =>
    if s.prio = prio then some (f s :: slots)
    else (replaceFirst prio f slots).map (s :: ·)

/-- `jmx_route_set_enhancements_nolock`: the slot of the prio, else the first free one. -/
def setEnhancements (prio : ℕ) (flags : UInt32) (slots : List Slot) : Except Errno (List Slot) :=
  match replaceFirst prio (fun s => { s with flags := flags }) slots with
  | some slots => .ok slots
  | none =>
    match replaceFirst 0 (fun _ => ⟨prio, flags⟩) slots with
    | some slots => .ok slots
    | none => .error .ENOSPC

/-- `jmx_route_clear_enhancements_nolock`. -/
def clearEnhancements (prio : ℕ) (slots : List Slot) : List Slot :=
  (replaceFirst prio (fun _ => {}) slots).getD slots

/-! ### Sorting -/

/-- The inner loop of `jmx_route_sort_rules_nolock` on the sorted part, last rule first: rules of
    a higher prio move one place up, and the key goes behind the others. -/
def shiftKey (key : RouteRule) : List RouteRule → List RouteRule
  | [] => [key]
  | r :: rs => if key.prio < r.prio then r :: shiftKey key rs else key :: r :: rs

/-- `jmx_route_sort_rules_nolock`. -/
def sortRules (rules : List RouteRule) : List RouteRule :=
  (rules.foldl (fun sorted key => shiftKey key sorted) []).reverse

/-! ### Operations -/

/-- The parameters `jmx_route_rule_add_with_enhancements` refuses. -/
def addBad (rule : RouteRule) (flags : UInt32) : Prop :=
  rule.enabled = 0 ∨ rule.wanCount = 0 ∨ JMX_MAX_WAN_IFACES < rule.wanCount ∨
    JMX_STICKY_MAX < rule.stickyMode ∨ flags &&& ~~~JMX_ROUTE_ENHANCEMENT_KNOWN ≠ 0

instance (rule : RouteRule) (flags : UInt32) : Decidable (addBad rule flags) :=
  inferInstanceAs (Decidable (_ ∨ _))

/-- The rule that replaces another one of its prio: it goes on counting the hits. -/
def RouteRule.replacing (rule old : RouteRule) : RouteRule :=
  { rule with hitCount := old.hitCount, lastHitJiffies := old.lastHitJiffies }

/-- The rules with the first one of the new rule's prio replaced, if there is one. -/
def replaceRule (rule : RouteRule) : List RouteRule → Option (List RouteRule)
  | [] => none
  | r :: rs =>
    if r.prio = rule.prio then some (rule.replacing r :: rs)
    else (replaceRule rule rs).map (r :: ·)

/-- The end of a successful addition. -/
def Tables.added (t : Tables) (rules : List RouteRule) (slots : List Slot) : Tables :=
  { t with
    rules := sortRules rules
    slots := slots
    newFlowSeq := List.replicate JMX_MAX_ROUTE_RULES 0 }

/-- `jmx_route_rule_add_with_enhancements`. -/
def ruleAddWithEnhancements (rule : RouteRule) (flags : UInt32) (t : Tables) :
    Tables × Option Errno :=
  if addBad rule flags then (t, some .EINVAL)
  else
    match replaceRule rule t.rules with
    | some rules =>
      -- the rule is written before the flags can fail
      match setEnhancements rule.prio flags t.slots with
      | .error e => ({ t with rules := rules }, some e)
      | .ok slots => (t.added rules slots, none)
    | none =>
      if JMX_MAX_ROUTE_RULES ≤ t.rules.length then (t, some .ENOSPC)
      else
        match setEnhancements rule.prio flags t.slots with
        | .error e => (t, some e)
        | .ok slots => (t.added (t.rules ++ [rule]) slots, none)

/-- The rules without the first one of this prio, if there is one. -/
def removeRule (prio : ℕ) : List RouteRule → Option (List RouteRule)
  | [] => none
  | r :: rs => if r.prio = prio then some rs else (removeRule prio rs).map (r :: ·)

/-- `jmx_route_rule_del`. -/
def ruleDel (prio : ℕ) (t : Tables) : Tables :=
  match removeRule prio t.rules with
  | none => t
  | some rules =>
    { t with
      rules := rules
      slots := clearEnhancements prio t.slots
      newFlowSeq := List.replicate JMX_MAX_ROUTE_RULES 0 }

/-- `jmx_route_rule_clear_hits`; prio zero means every rule. -/
def ruleClearHits (prio : ℕ) (t : Tables) : Tables :=
  { t with
    rules := t.rules.map fun r =>
      if prio ≠ 0 ∧ r.prio ≠ prio then r else { r with hitCount := 0, lastHitJiffies := 0 } }

/-- `jmx_route_rule_flush`. -/
def ruleFlush : Tables := {}

/-! ### Messages -/

/-- An operation on the tables. -/
inductive Op where
  | add (rule : RouteRule) (flags : UInt32)
  | del (prio : ℕ)
  | clearHits (prio : ℕ)
  | flush

def JMX_NL_ACT_ROUTE_ADD : ℕ := 33
def JMX_NL_ACT_ROUTE_DEL : ℕ := 34
def JMX_NL_ACT_ROUTE_FLUSH : ℕ := 35
def JMX_NL_ACT_ROUTE_CLEAR_HITS : ℕ := 36
def JMX_NL_ACT_ROUTE_ADD_V2 : ℕ := 44

def sizeofRule : ℕ := 88

/-- The rule at the front of a payload. -/
def RouteRule.ofBytes (bs : List UInt8) : RouteRule where
  enabled := fieldLE bs 0 1
  prio := fieldLE bs 2 2
  srcAddr := fieldLE bs 4 4
  srcMask := fieldLE bs 8 4
  dstAddr := fieldLE bs 12 4
  dstMask := fieldLE bs 16 4
  dstPort := fieldLE bs 20 2
  proto := fieldLE bs 22 1
  appid := fieldLE bs 24 4
  carrierId := fieldLE bs 28 1
  stickyMode := fieldLE bs 29 1
  wanCount := fieldLE bs 30 1
  wanIds := (List.range 8).map fun i => fieldLE bs (31 + i) 1
  wanWeights := (List.range 8).map fun i => fieldLE bs (40 + 4 * i) 4
  hitCount := fieldLE bs 72 8
  lastHitJiffies := fieldLE bs 80 8

/-- The rule messages of `jmx_v2_nl_handle`: the operation a message asks for. -/
def routeOp (data : List UInt8) : Option Op :=
  let action := fieldLE data 0 4
  if data.length < 4 then none
  else if action = JMX_NL_ACT_ROUTE_ADD then
    if data.length ≠ 4 + sizeofRule then none
    else some (.add (RouteRule.ofBytes (data.drop 4)) 0)
  else if action = JMX_NL_ACT_ROUTE_ADD_V2 then
    if data.length ≠ 4 + sizeofRule + 4 then none
    else
      some (.add (RouteRule.ofBytes (data.drop 4)) (UInt32.ofNat (fieldLE data (4 + sizeofRule) 4)))
  else if action = JMX_NL_ACT_ROUTE_DEL then
    if data.length < 6 then none else some (.del (fieldLE data 4 2))
  else if action = JMX_NL_ACT_ROUTE_CLEAR_HITS then
    if data.length < 6 then none else some (.clearHits (fieldLE data 4 2))
  else if action = JMX_NL_ACT_ROUTE_FLUSH then some .flush
  else none

/-! ### Runs -/

/-- One operation: the tables after it, and the error it returns. -/
def step (t : Tables) : Op → Tables × Option Errno
  | .add rule flags => ruleAddWithEnhancements rule flags t
  | .del prio => (ruleDel prio t, none)
  | .clearHits prio => (ruleClearHits prio t, none)
  | .flush => (ruleFlush, none)

/-- The flags each prio was given by its last successful addition. -/
abbrev Given := ℕ → Option UInt32

/-- The given flags, after an operation with its outcome. -/
def record (rc : Option Errno) (op : Op) (given : Given) : Given :=
  match op with
  | .add rule flags => if rc = none then Function.update given rule.prio (some flags) else given
  | _ => given

/-- The tables after a sequence of operations, and the flags given. -/
def run (ops : List Op) : Tables × Given :=
  ops.foldl (fun s op => ((step s.1 op).1, record (step s.1 op).2 op s.2)) ({}, fun _ => none)

theorem run_concat (ops : List Op) (op : Op) :
    run (ops ++ [op]) = ((step (run ops).1 op).1, record (step (run ops).1 op).2 op (run ops).2) := by
  rw [run, List.foldl_append]
  rfl

end DreamingOS.Route
