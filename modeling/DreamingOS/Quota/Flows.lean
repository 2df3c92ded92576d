import DreamingOS.Lib.Probing
import Mathlib.Data.Nat.Bitwise

namespace DreamingOS.Quota

open Probing Option

/-!
# Terminal quotas — flow baselines

The flow table of `flowd_terminal_quota_runtime.c` and the event path that reads byte deltas from
conntrack counters.

* `quotaEventToSrc`, `quotaDstIsInternet` — what an event says, and whether it counts;
* `quotaLookup` — the entry of a flow in the open-addressed table;
* `advance` — what a counter does to the baseline of its direction;
* `quotaProcessEvent` — one event; the deltas it hands to the accounts.
-/

/-! ### Samples -/

def AF_INET : ℕ := 2
def AF_INET6 : ℕ := 10

/-- The fields `flowd_tp_same_flow` compares. -/
structure Flow where
  (family protocol : ℕ)
  (srcAddr dstAddr : List UInt8)
  (srcPort dstPort : ℕ)
deriving DecidableEq

/-- `struct flowd_tp_quota_src`; a direction without its bit in `counter_mask` has no bytes. -/
structure QuotaSrc where
  flow : Flow
  (upBytes downBytes : Option ℕ)
  lastSeenMs : ℕ
deriving DecidableEq

inductive Direction where
  | up
  | down

def Direction.counter : Direction → QuotaSrc → Option ℕ
  | .up, s => s.upBytes
  | .down, s => s.downBytes

/-- The attributes of a conntrack message that the event path reads. -/
structure Conntrack where
  (origL3Proto origL4Proto : Option ℕ)
  origIpv4Src : Option (List UInt8) := none
  origIpv4Dst : Option (List UInt8) := none
  origIpv6Src : Option (List UInt8) := none
  origIpv6Dst : Option (List UInt8) := none
  origPortSrc : Option ℕ := none
  origPortDst : Option ℕ := none
  origCounterBytes : Option ℕ := none
  replCounterBytes : Option ℕ := none

/-- The two addresses of a message of the family. -/
def eventAddrs (ct : Conntrack) (family : ℕ) : Option (List UInt8 × List UInt8) :=
  if family = AF_INET then
    ct.origIpv4Src.bind fun src => ct.origIpv4Dst.map fun dst => (src, dst)
  else if family = AF_INET6 then
    ct.origIpv6Src.bind fun src => ct.origIpv6Dst.map fun dst => (src, dst)
  else none

/-- `flowd_tp_quota_event_to_src`. -/
def quotaEventToSrc (ct : Conntrack) (nowMs : ℕ) : Option QuotaSrc :=
  ct.origL3Proto.bind fun family =>
    ct.origL4Proto.bind fun protocol =>
      (eventAddrs ct family).map fun addrs =>
        { flow :=
            { family := family
              protocol := protocol
              srcAddr := addrs.1
              dstAddr := addrs.2
              srcPort := ct.origPortSrc.getD 0
              dstPort := ct.origPortDst.getD 0 }
          upBytes := ct.origCounterBytes
          downBytes := ct.replCounterBytes
          lastSeenMs := nowMs }

/-! ### Scope -/

/-- `struct flowd_tp_local_addr`. -/
structure LocalAddr where
  (family prefixLen : ℕ)
  isLan : Bool
  addr : List UInt8

/-- `flowd_tp_addr_in_prefix`. -/
def addrInPrefix (family : ℕ) (pre : List UInt8) (plen : ℕ) (addr : List UInt8) : Bool :=
  let addrLen := if family = AF_INET6 then 16 else 4
  let mask := UInt8.ofNat (0xff <<< (8 - plen % 8))
  plen ≤ addrLen * 8 && pre.take (plen / 8) == addr.take (plen / 8) &&
    (plen % 8 == 0 || pre.getD (plen / 8) 0 &&& mask == addr.getD (plen / 8) 0 &&& mask)

/-- `flowd_tp_quota_dst_is_internet`. -/
def quotaDstIsInternet (locals : List LocalAddr) (family : ℕ) (dst : List UInt8) : Bool :=
  let af := if family = AF_INET6 then AF_INET6 else AF_INET
  let first := dst.getD 0 0
  let reserved :=
    if af = AF_INET then first = 127 || (first = 169 && dst.getD 1 0 = 254) || 224 ≤ first
    else dst = List.replicate 15 0 ++ [1] || (first = 0xfe && dst.getD 1 0 &&& 0xc0 = 0x80) ||
      first = 0xff
  !reserved && locals.all fun l =>
    l.family != af ||
      !(addrInPrefix af l.addr (if af = AF_INET6 then 128 else 32) dst ||
        (l.isLan && addrInPrefix af l.addr l.prefixLen dst))

/-! ### The table -/

def FLOWD_TP_MAX_STATE : ℕ := 4096
def FLOWD_TP_TABLE_SLOTS : ℕ := FLOWD_TP_MAX_STATE * 2

/-- One step of the FNV hash in 32 bits. -/
def fnv (h x : ℕ) : ℕ := (h ^^^ x) * 16777619 % 2 ^ 32

def fnvBytes (h : ℕ) (bytes : List UInt8) : ℕ := bytes.foldl (fun h b => fnv h b.toNat) h

/-- `flowd_tp_quota_hash`, and the cell it stands for. -/
def quotaHash (f : Flow) : ℕ :=
  let h := fnv (fnv 2166136261 f.family) f.protocol
  let h := fnvBytes (fnvBytes h f.srcAddr) f.dstAddr
  fnv (fnv h f.srcPort) f.dstPort

def quotaStart (f : Flow) : ℕ := quotaHash f % FLOWD_TP_TABLE_SLOTS

/-- The flow table with its count of live entries. -/
structure FlowTable where
  state : List (Cell QuotaSrc)
  stateLive : ℕ

/-- The table after `flowd_tp_quota_clear`, and after a resync. -/
def FlowTable.clear : FlowTable where
  state := List.replicate FLOWD_TP_TABLE_SLOTS .empty
  stateLive := 0

/-- `flowd_tp_quota_lookup` with `insert` set: the cell and the entry of the sample's flow. -/
def quotaLookup (t : FlowTable) (key : QuotaSrc) : Option (FlowTable × ℕ × QuotaSrc) :=
  match locate QuotaSrc.flow quotaStart t.state key.flow with
  | .found i =>
    match t.state[i]? with
    | some (.live s) => some (t, i, s)
    | _ => none
  | .missing none => none
  | .missing (some i) =>
    if t.stateLive ≥ FLOWD_TP_MAX_STATE then none
    else some ({ state := t.state.set i (.live key), stateLive := t.stateLive + 1 }, i, key)

/-! ### One event -/

/-- What a counter does to the baseline of its direction, and the bytes it adds. -/
def advance (base counter : Option ℕ) : Option ℕ × ℕ :=
  match counter with
  | none => (base, 0)
  | some c =>
    match base with
    | some b => if c ≥ b then (some b, c - b) else (some c, 0)
    | none => (some c, 0)

/-- What the event path did: the event is not one of a counted flow, the table has no room, or the
    entry was brought up to date and the deltas handed to the accounts. -/
inductive EventResult where
  | unparsed
  | notForward
  | noEntry
  | charged (src : QuotaSrc) (up down : ℕ)
deriving DecidableEq

/-- An event with what the daemon knows when it comes. -/
structure Event where
  ct : Conntrack
  destroyed : Bool
  locals : List LocalAddr
  nowMs : ℕ

/-- The entry of the sample's flow is brought up to date. -/
def chargeEntry (t : FlowTable) (i : ℕ) (old sample : QuotaSrc) (destroyed : Bool) :
    FlowTable × EventResult :=
  let up := advance old.upBytes sample.upBytes
  let down := advance old.downBytes sample.downBytes
  let entry := { old with upBytes := up.1, downBytes := down.1, lastSeenMs := sample.lastSeenMs }
  let t' :=
    if destroyed then { state := t.state.set i .tomb, stateLive := t.stateLive - 1 }
    else { t with state := t.state.set i (.live entry) }
  (t', .charged entry up.2 down.2)

/-- `flowd_tp_quota_process_event`. -/
def quotaProcessEvent (t : FlowTable) (e : Event) : FlowTable × EventResult :=
  match quotaEventToSrc e.ct e.nowMs with
  | none => (t, .unparsed)
  | some sample =>
    if quotaDstIsInternet e.locals sample.flow.family sample.flow.dstAddr then
      match quotaLookup t sample with
      | none => (t, .noEntry)
      | some (t', i, old) => chargeEntry t' i old sample e.destroyed
    else (t, .notForward)

/-! ### The table keeps the entries apart -/

/-- Every entry is found from its hash on, and the count of live entries is theirs. -/
structure FlowTable.Ok (t : FlowTable) : Prop where
  reachable : Reachable QuotaSrc.flow quotaStart t.state
  live : t.stateLive = used t.state

/-- The entry of a flow. -/
def FlowTable.entry (t : FlowTable) (f : Flow) : Option QuotaSrc :=
  find QuotaSrc.flow quotaStart t.state f

theorem FlowTable.clear_ok : FlowTable.clear.Ok where
  reachable := by
    intro i s h
    cases (List.mem_replicate.mp (List.mem_of_getElem? h)).2
  live := by
    show 0 = used (List.replicate FLOWD_TP_TABLE_SLOTS (Cell.empty (σ := QuotaSrc)))
    unfold used Slots.used
    rw [List.countP_replicate]
    rfl

/-- A lookup that has room ends at an entry of the flow: the one stored, or the sample. -/
theorem quotaLookup_spec {t t' : FlowTable} (ht : t.Ok) {key old : QuotaSrc} {i : ℕ}
    (h : quotaLookup t key = some (t', i, old)) :
    t'.Ok ∧ t'.state[i]? = some (.live old) ∧ old.flow = key.flow ∧
      old = (t.entry key.flow).getD key ∧
      ∀ f, f ≠ key.flow → t'.entry f = t.entry f := by
  unfold quotaLookup at h
  cases hloc : locate QuotaSrc.flow quotaStart t.state key.flow with
  | found j =>
    obtain ⟨s, hcell, hs, hfind⟩ := locate_found hloc
    rw [hloc] at h
    dsimp only at h
    rw [hcell] at h
    obtain ⟨rfl, rfl, rfl⟩ : t = t' ∧ j = i ∧ s = old := by simpa using h
    refine ⟨ht, hcell, hs, ?_, fun f _ => rfl⟩
    unfold FlowTable.entry
    rw [hfind, getD_some]
  | missing free =>
    rw [hloc] at h
    cases free with
    | none => cases h
    | some j =>
      dsimp only at h
      split at h
      case isTrue => cases h
      case isFalse =>
        obtain ⟨rfl, rfl, rfl⟩ :
            { state := t.state.set j (.live key), stateLive := t.stateLive + 1 } = t' ∧
              j = i ∧ key = old := by simpa using h
        obtain ⟨hfree, hr⟩ := ht.reachable.insert hloc
        have hlen : j < t.state.length := by
          rcases hfree with hfree | hfree <;> exact (List.getElem?_eq_some_iff.mp hfree).1
        refine ⟨⟨hr, ?_⟩, List.getElem?_set_self hlen, rfl, ?_, ?_⟩
        · rcases hfree with hfree | hfree
          all_goals
            have hused := used_set (.live key) hfree
            have hlive := ht.live
            simp only [Cell.key, isSome_some, isSome_none, Bool.toNat_true,
              Bool.toNat_false] at hused
            dsimp only
            omega
        · unfold FlowTable.entry
          rw [find_missing hloc, getD_none]
        · intro f hf
          unfold FlowTable.entry
          rw [find_insert ht.reachable hloc, if_neg hf]

/-- What an event leaves of its own entry and of the others. -/
theorem chargeEntry_spec {t : FlowTable} (ht : t.Ok) {i : ℕ} {old : QuotaSrc}
    (hi : t.state[i]? = some (.live old)) (sample : QuotaSrc) (destroyed : Bool) :
    (chargeEntry t i old sample destroyed).1.Ok ∧
      ∀ f, (chargeEntry t i old sample destroyed).1.entry f = if f = old.flow then
          if destroyed then none
          else some { old with
            upBytes := (advance old.upBytes sample.upBytes).1
            downBytes := (advance old.downBytes sample.downBytes).1
            lastSeenMs := sample.lastSeenMs }
        else t.entry f := by
  have hlive := ht.live
  unfold chargeEntry
  dsimp only
  generalize hentry : QuotaSrc.mk old.flow (advance old.upBytes sample.upBytes).1
    (advance old.downBytes sample.downBytes).1 sample.lastSeenMs = entry
  have hkey : entry.flow = old.flow := by rw [← hentry]
  cases destroyed with
  | true =>
    refine ⟨⟨ht.reachable.bury i, ?_⟩, fun f => find_bury ht.reachable hi f⟩
    have hused := used_set .tomb hi
    simp only [Cell.key, isSome_some, isSome_none, Bool.toNat_true, Bool.toNat_false] at hused
    show t.stateLive - 1 = used (t.state.set i .tomb)
    omega
  | false =>
    refine ⟨⟨ht.reachable.update hi hkey, ?_⟩, fun f => find_update ht.reachable hi hkey f⟩
    have hused := used_set (.live entry) hi
    simp only [Cell.key, isSome_some, Bool.toNat_true] at hused
    show t.stateLive = used (t.state.set i (.live entry))
    omega

end DreamingOS.Quota
