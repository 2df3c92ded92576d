import DreamingOS.Quota.Flows
import DreamingOS.Lib.Inet

namespace DreamingOS.Quota

open Probing

/-!
# Terminal quotas — the write-behind table

The table of pending aggregates of `flowd_terminal_quota_runtime.c`: charges are folded into it and
written to the store later.

* `quotaMatch` — the aggregate that an account folds a charge of a flow into;
* `quotaAccountLine`, `pendingFlushSlot`, `pendingFlushAll` — the three operations;
* `pendingFlushSlot_cases` — all a flush of a slot can do.

A slot that is written out becomes an empty cell: the walks of other keys may have gone over it.
-/

/-! ### Accounts -/

/-- `struct flowd_tp_quota_target`; the prefix as the octets its text stands for. -/
structure QuotaTarget where
  (family prefixLen : ℕ)
  network : List UInt8

/-- `struct flowd_tp_quota_account`. -/
structure QuotaAccount where
  id : List UInt8
  (quotaMode status : String)
  targets : List QuotaTarget

def TP_STATUS_ACTIVE : String := "active"
def TP_STATUS_BLOCKED_QUOTA : String := "blocked_quota"
def TP_QUOTA_SHARED : String := "shared"

/-- The leading bits of an address; the others are zero. -/
def maskAddr : ℕ → List UInt8 → List UInt8
  | _, [] => []
  | plen, b :: bs =>
    if 8 ≤ plen then b :: maskAddr (plen - 8) bs
    else (b &&& UInt8.ofNat (0xff <<< (8 - plen))) :: maskAddr 0 bs

/-- `flowd_tp_prefix_match`. -/
def prefixMatch (t : QuotaTarget) (addr : List UInt8) : Bool :=
  t.prefixLen ≤ (if t.family = AF_INET6 then 128 else 32) &&
    maskAddr t.prefixLen addr == maskAddr t.prefixLen t.network

/-- What a pending aggregate is for: a policy and a client, or the policy alone. -/
structure PendingKey where
  policyId : List UInt8
  family : ℕ
  clientIp : List UInt8
deriving DecidableEq

/-- The aggregate that `flowd_tp_quota_account_line` folds a charge into. -/
def quotaMatch (acct : QuotaAccount) (src : Flow) : Option PendingKey :=
  if acct.status ≠ TP_STATUS_ACTIVE ∧ acct.status ≠ TP_STATUS_BLOCKED_QUOTA then none
  else if acct.targets.any fun t => t.family == src.family && prefixMatch t src.srcAddr then
    if acct.quotaMode = TP_QUOTA_SHARED then
      some { policyId := acct.id, family := 0, clientIp := [] }
    else if src.family = AF_INET6 then
      some { policyId := acct.id, family := 6, clientIp := Inet.ntop6 src.srcAddr }
    else some { policyId := acct.id, family := 4, clientIp := Inet.ntop4 src.srcAddr }
  else none

/-! ### The table -/

def FLOWD_TP_PENDING_SLOTS : ℕ := 1024
def FLOWD_TP_CHECKPOINT_BYTES : ℕ := 4 * 1024 * 1024

/-- `struct flowd_tp_quota_pending`. -/
structure QuotaPending where
  key : PendingKey
  (upBytes downBytes : ℕ)

/-- `flowd_tp_pending_hash`, and the slot it stands for. -/
def pendingHash (k : PendingKey) : ℕ :=
  fnvBytes (fnv (fnvBytes 2166136261 k.policyId) k.family) k.clientIp

def pendingStart (k : PendingKey) : ℕ := pendingHash k % FLOWD_TP_PENDING_SLOTS

structure PendingTable where
  pending : List (Cell QuotaPending)
  (pendingLive pendingBytes pendingDropped : ℕ)

def PendingTable.clear : PendingTable where
  pending := List.replicate FLOWD_TP_PENDING_SLOTS .empty
  pendingLive := 0
  pendingBytes := 0
  pendingDropped := 0

/-- Addition of two unsigned 64-bit numbers. -/
def add64 (a b : ℕ) : ℕ := (a + b) % 2 ^ 64

/-- `flowd_tp_pending_slot` with `insert` set: the slot of the key, a new one being empty. -/
def pendingSlot (t : PendingTable) (k : PendingKey) : Option (PendingTable × ℕ × QuotaPending) :=
  match locate QuotaPending.key pendingStart t.pending k with
  | .found i =>
    match t.pending[i]? with
    | some (.live s) => some (t, i, s)
    | _ => none
  | .missing none => none
  | .missing (some i) =>
    let s : QuotaPending := { key := k, upBytes := 0, downBytes := 0 }
    some ({ t with pending := t.pending.set i (.live s), pendingLive := t.pendingLive + 1 }, i, s)

/-! ### Flushes -/

/-- What the store does with a write: it is made, the call fails and nothing is written, the call
    succeeds without a write because the policy has no quota any more, or the usage row is written
    and the call fails afterwards. -/
inductive StoreAnswer where
  | written
  | failed
  | skipped
  | writtenFailed

/-- A negative delta is refused by the store before it looks at the policy. -/
def storeAnswer (s : QuotaPending) (answer : StoreAnswer) : StoreAnswer :=
  if 2 ^ 63 ≤ s.upBytes ∨ 2 ^ 63 ≤ s.downBytes then .failed else answer

/-- What a flush of a slot did. -/
inductive FlushResult where
  | idle
  | retired
  | written (s : QuotaPending)
  | skipped (s : QuotaPending)
  | failed
  | writtenFailed (s : QuotaPending)

/-- The slot is freed. -/
def PendingTable.retire (t : PendingTable) (i : ℕ) (s : QuotaPending) : PendingTable :=
  let bytes := add64 s.upBytes s.downBytes
  { t with
    pending := t.pending.set i .empty
    pendingLive := t.pendingLive - 1
    pendingBytes := if t.pendingBytes ≥ bytes then t.pendingBytes - bytes else 0 }

/-- `flowd_tp_pending_flush_slot`. -/
def pendingFlushSlot (t : PendingTable) (i : ℕ) (answer : StoreAnswer) :
    PendingTable × FlushResult :=
  match t.pending[i]? with
  | some (.live s) =>
    if s.upBytes = 0 ∧ s.downBytes = 0 then (t.retire i s, .retired)
    else
      match storeAnswer s answer with
      | .written => (t.retire i s, .written s)
      | .skipped => (t.retire i s, .skipped s)
      | .failed => (t, .failed)
      | .writtenFailed => (t, .writtenFailed s)
  | _ => (t, .idle)

/-- The flushes of `flowd_tp_pending_flush_all`, from slot `i` on. -/
def pendingFlushFrom (answers : ℕ → StoreAnswer) :
    ℕ → ℕ → PendingTable → PendingTable × List FlushResult
  | _, 0, t => (t, [])
  | i, n + 1, t =>
    let r := pendingFlushSlot t i (answers i)
    let rest := pendingFlushFrom answers (i + 1) n r.1
    (rest.1, r.2 :: rest.2)

def pendingFlushAll (t : PendingTable) (answers : ℕ → StoreAnswer) :
    PendingTable × List FlushResult :=
  pendingFlushFrom answers 0 FLOWD_TP_PENDING_SLOTS t

/-! ### Charges -/

/-- A charge of an aggregate: no slot is left for it, or it is folded in and perhaps flushed. -/
inductive ChargeResult where
  | ignored
  | dropped
  | folded (flush : FlushResult)

/-- The slot with a charge. -/
def QuotaPending.fold (s : QuotaPending) (up down : ℕ) : QuotaPending :=
  { s with upBytes := add64 s.upBytes up, downBytes := add64 s.downBytes down }

/-- The table with a charge in the slot. -/
def PendingTable.fold (t : PendingTable) (i : ℕ) (s : QuotaPending) (up down : ℕ) : PendingTable :=
  { t with
    pending := t.pending.set i (.live (s.fold up down))
    pendingBytes := add64 t.pendingBytes (add64 up down) }

/-- The charge is folded into the slot, which is flushed when it has reached the checkpoint. -/
def foldCharge (t : PendingTable) (i : ℕ) (s : QuotaPending) (up down : ℕ) (answer : StoreAnswer) :
    PendingTable × FlushResult :=
  if add64 (s.fold up down).upBytes (s.fold up down).downBytes ≥ FLOWD_TP_CHECKPOINT_BYTES then
    pendingFlushSlot (t.fold i s up down) i answer
  else (t.fold i s up down, .idle)

/-- `flowd_tp_quota_account_line`. -/
def quotaAccountLine (t : PendingTable) (acct : QuotaAccount) (src : Flow) (up down : ℕ)
    (answer : StoreAnswer) : PendingTable × ChargeResult :=
  if up = 0 ∧ down = 0 then (t, .ignored)
  else
    match quotaMatch acct src with
    | none => (t, .ignored)
    | some k =>
      match pendingSlot t k with
      | none => ({ t with pendingDropped := t.pendingDropped + 1 }, .dropped)
      | some (t', i, s) =>
        let r := foldCharge t' i s up down answer
        (r.1, .folded r.2)

/-! ### What is pending -/

/-- The bytes of a direction. -/
def QuotaPending.bytes (s : QuotaPending) : ℕ := s.upBytes + s.downBytes

/-- The bytes that all slots of a key hold. -/
def PendingTable.held (t : PendingTable) (amount : QuotaPending → ℕ) (k : PendingKey) : ℕ :=
  total (fun s => if s.key = k then amount s else 0) t.pending

/-- The counters of the table are those of its slots. -/
structure PendingTable.Counted (t : PendingTable) : Prop where
  live : t.pendingLive = used t.pending
  bytes : t.pendingBytes = total QuotaPending.bytes t.pending
  small : t.pendingBytes < 2 ^ 64

theorem PendingTable.clear_counted : PendingTable.clear.Counted where
  live := by
    show 0 = used (List.replicate FLOWD_TP_PENDING_SLOTS (Cell.empty (σ := QuotaPending)))
    unfold used Slots.used
    rw [List.countP_replicate]
    rfl
  bytes := by
    symm
    apply total_eq_zero
    intro s hs
    cases (List.mem_replicate.mp hs).2
  small := by decide

theorem add64_eq {a b : ℕ} (h : a + b < 2 ^ 64) : add64 a b = a + b := Nat.mod_eq_of_lt h

/-- Freeing a slot takes its bytes out of the table and leaves the others. -/
theorem PendingTable.retire_spec {t : PendingTable} (ht : t.Counted) {i : ℕ} {s : QuotaPending}
    (hi : t.pending[i]? = some (.live s)) :
    (t.retire i s).Counted ∧ (t.retire i s).pendingDropped = t.pendingDropped ∧
      ∀ amount k, (t.retire i s).held amount k + (if s.key = k then amount s else 0) =
        t.held amount k := by
  have hle : s.bytes ≤ t.pendingBytes := ht.bytes ▸ amount_le_total hi
  have hsmall := ht.small
  have hadd : add64 s.upBytes s.downBytes = s.bytes := add64_eq (Nat.lt_of_le_of_lt hle hsmall)
  have hused := used_set .empty hi
  have htotal := total_set QuotaPending.bytes .empty hi
  have hlive := ht.live
  have hbytes := ht.bytes
  simp only [Cell.key, Option.isSome_some, Option.isSome_none, Bool.toNat_true,
    Bool.toNat_false] at hused
  simp only [Cell.amount] at htotal
  unfold PendingTable.retire
  rw [hadd]
  dsimp only
  rw [if_pos hle]
  refine ⟨⟨?_, ?_, ?_⟩, rfl, ?_⟩
  · dsimp only
    omega
  · dsimp only
    omega
  · dsimp only
    omega
  · intro amount k
    exact total_set (fun s => if s.key = k then amount s else 0) .empty hi

/-- All a flush of a slot can do. -/
theorem pendingFlushSlot_cases (t : PendingTable) (i : ℕ) {answer : StoreAnswer}
    (hanswer : answer = .written ∨ answer = .failed) :
    (∃ s, t.pending[i]? = some (.live s) ∧ (pendingFlushSlot t i answer).1 = t.retire i s ∧
      ((pendingFlushSlot t i answer).2 = .written s ∨
        (s.upBytes = 0 ∧ s.downBytes = 0 ∧ (pendingFlushSlot t i answer).2 = .retired))) ∨
    ((pendingFlushSlot t i answer).1 = t ∧ ((pendingFlushSlot t i answer).2 = .failed ∨
      ((pendingFlushSlot t i answer).2 = .idle ∧ ∀ s, t.pending[i]? ≠ some (.live s)))) := by
  unfold pendingFlushSlot
  split
  case h_1 s hi =>
    by_cases hzero : s.upBytes = 0 ∧ s.downBytes = 0
    · rw [if_pos hzero]
      exact .inl ⟨s, hi, rfl, .inr ⟨hzero.1, hzero.2, rfl⟩⟩
    rw [if_neg hzero]
    have hstore : storeAnswer s answer = .written ∨ storeAnswer s answer = .failed := by
      unfold storeAnswer
      split
      · exact .inr rfl
      · exact hanswer
    rcases hstore with hstore | hstore
    · rw [hstore]
      exact .inl ⟨s, hi, rfl, .inl rfl⟩
    · rw [hstore]
      exact .inr ⟨rfl, .inl rfl⟩
  case h_2 hidle => exact .inr ⟨rfl, .inr ⟨rfl, hidle⟩⟩

end DreamingOS.Quota
