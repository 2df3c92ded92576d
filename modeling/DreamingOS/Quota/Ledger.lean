import DreamingOS.Quota.Pending

namespace DreamingOS.Quota

open Probing List Option

/-!
# Terminal quotas — every byte is pending or in the store

Runs of charges, slot flushes and periodic flushes, with a ledger of what was charged, dropped and
written.

* `PendingOp`, `Ledger`, `ledgerStep` — the operations and the books;
* `PendingOp.Sound` — the charged aggregate is found by its walk or has no slot, the sums stay below
  2^64, and the store makes a write or refuses it as a whole;
* `ledger_run` — **in a sound run no byte is lost or written twice, the counters are true, and while
  no write fails no aggregate reaches the checkpoint**;
* `second_slot` — a flush of one aggregate hides another, which gets a second slot.
-/

/-! ### Books -/

inductive PendingOp where
  | charge (acct : QuotaAccount) (src : Flow) (up down : ℕ) (answer : StoreAnswer)
  | flushSlot (i : ℕ) (answer : StoreAnswer)
  | flushAll (answers : ℕ → StoreAnswer)

/-- The aggregate that a charge is for; a charge of nothing is for none. -/
def chargeKey (acct : QuotaAccount) (src : Flow) (up down : ℕ) : Option PendingKey :=
  if up = 0 ∧ down = 0 then none else quotaMatch acct src

/-- What a flush has written to the store. -/
def FlushResult.writes : FlushResult → List QuotaPending
  | .written s => [s]
  | .writtenFailed s => [s]
  | _ => []

def FlushResult.isFailure : FlushResult → Bool
  | .failed => true
  | .writtenFailed _ => true
  | _ => false

/-- The table with the charges so far, those that found no slot, the writes, and how many calls of
    the store have failed. -/
structure Ledger where
  table : PendingTable
  (charged dropped written : List QuotaPending)
  failures : ℕ

def Ledger.clear : Ledger where
  table := .clear
  charged := []
  dropped := []
  written := []
  failures := 0

/-- The books after flushes. -/
def Ledger.flush (l : Ledger) (t : PendingTable) (rs : List FlushResult) : Ledger :=
  { l with
    table := t
    written := l.written ++ rs.flatMap FlushResult.writes
    failures := l.failures + rs.countP FlushResult.isFailure }

/-- The books after a charge. -/
def Ledger.charge (l : Ledger) (s : QuotaPending) (r : PendingTable × ChargeResult) : Ledger :=
  let l' := { l with charged := l.charged ++ [s] }
  match r.2 with
  | .ignored => l
  | .dropped => { l' with table := r.1, dropped := l.dropped ++ [s] }
  | .folded flush => l'.flush r.1 [flush]

def ledgerStep (l : Ledger) : PendingOp → Ledger
  | .charge acct src up down answer =>
    match chargeKey acct src up down with
    | none => l
    | some k =>
      l.charge { key := k, upBytes := up, downBytes := down }
        (quotaAccountLine l.table acct src up down answer)
  | .flushSlot i answer =>
    let r := pendingFlushSlot l.table i answer
    l.flush r.1 [r.2]
  | .flushAll answers =>
    let r := pendingFlushAll l.table answers
    l.flush r.1 r.2

def ledgerRun (l : Ledger) (ops : List PendingOp) : Ledger := ops.foldl ledgerStep l

/-- The bytes of a direction that an aggregate holds. -/
def Direction.amount : Direction → QuotaPending → ℕ
  | .up, s => s.upBytes
  | .down, s => s.downBytes

/-- The bytes of a direction that a book has for a key. -/
def booked (d : Direction) (k : PendingKey) (book : List QuotaPending) : ℕ :=
  (book.map fun s => if s.key = k then d.amount s else 0).sum

theorem booked_append (d : Direction) (k : PendingKey) (xs ys : List QuotaPending) :
    booked d k (xs ++ ys) = booked d k xs + booked d k ys := by
  unfold booked
  rw [map_append, sum_append]

theorem booked_singleton (d : Direction) (k : PendingKey) (s : QuotaPending) :
    booked d k [s] = if s.key = k then d.amount s else 0 := by
  unfold booked
  rw [map_singleton, sum_singleton]

/-! ### Flushes -/

/-- The keys of the slots are distinct. -/
def PendingTable.Distinct (t : PendingTable) : Prop :=
  Slots.Distinct (Cell.key QuotaPending.key) t.pending

/-- Every slot is below the checkpoint. -/
def PendingTable.Small (t : PendingTable) : Prop :=
  ∀ s, .live s ∈ t.pending → s.bytes < FLOWD_TP_CHECKPOINT_BYTES

/-- What flushes leave of a table: the counters stay true, and what a key has lost was written. -/
structure Flushes (t t' : PendingTable) (rs : List FlushResult) : Prop where
  counted : t.Counted → t'.Counted
  dropped : t'.pendingDropped = t.pendingDropped
  held : t.Counted → ∀ (d : Direction) (k : PendingKey),
    booked d k (rs.flatMap FlushResult.writes) + t'.held d.amount k = t.held d.amount k
  distinct : t.Distinct → t'.Distinct
  subset : ∀ s, .live s ∈ t'.pending → .live s ∈ t.pending

theorem Flushes.refl (t : PendingTable) (rs : List FlushResult)
    (h : rs.flatMap FlushResult.writes = []) : Flushes t t rs where
  counted := id
  dropped := rfl
  held _ d k := by
    rw [h]
    exact Nat.zero_add _
  distinct := id
  subset _ := id

theorem Flushes.trans {t t' t'' : PendingTable} {rs rs' : List FlushResult}
    (h : Flushes t t' rs) (h' : Flushes t' t'' rs') : Flushes t t'' (rs ++ rs') where
  counted ht := h'.counted (h.counted ht)
  dropped := h'.dropped.trans h.dropped
  held ht d k := by
    have hfirst := h.held ht d k
    have hsecond := h'.held (h.counted ht) d k
    rw [flatMap_append, booked_append]
    omega
  distinct hd := h'.distinct (h.distinct hd)
  subset s hs := h.subset s (h'.subset s hs)

variable {s : QuotaPending}
variable {i : ℕ}

theorem live_of_mem_set {cells : List (Cell QuotaPending)}
    (h : .live s ∈ cells.set i .empty) : .live s ∈ cells := by
  rcases mem_or_eq_of_mem_set h with h | h
  · exact h
  · cases h

variable {t : PendingTable}

theorem flushes_retire (hi : t.pending[i]? = some (.live s)) {r : FlushResult}
    (hr : r = .written s ∨ (s.upBytes = 0 ∧ s.downBytes = 0 ∧ r = .retired)) :
    Flushes t (t.retire i s) [r] where
  counted ht := (PendingTable.retire_spec ht hi).1
  dropped := rfl
  held ht d k := by
    have hheld := (PendingTable.retire_spec ht hi).2.2 d.amount k
    rw [flatMap_singleton]
    rcases hr with rfl | ⟨hup, hdown, rfl⟩
    · rw [FlushResult.writes, booked_singleton]
      omega
    · have hzero : d.amount s = 0 := by
        cases d
        · exact hup
        · exact hdown
      rw [hzero, ite_self] at hheld
      show 0 + _ = _
      omega
  distinct hd := by
    unfold PendingTable.Distinct PendingTable.retire
    exact hd.set_same hi (.inr rfl)
  subset _ hs := live_of_mem_set hs

theorem pendingFlushSlot_flushes (t : PendingTable) (i : ℕ) {answer : StoreAnswer}
    (hanswer : answer = .written ∨ answer = .failed) :
    Flushes t (pendingFlushSlot t i answer).1 [(pendingFlushSlot t i answer).2] := by
  rcases pendingFlushSlot_cases t i hanswer with ⟨s, hi, htable, hr⟩ | ⟨htable, hr⟩
  · rw [htable]
    exact flushes_retire hi hr
  · rw [htable]
    apply Flushes.refl
    rcases hr with hr | ⟨hr, -⟩ <;> rw [hr] <;> rfl

theorem pendingFlushFrom_flushes {answers : ℕ → StoreAnswer}
    (hanswers : ∀ i, answers i = .written ∨ answers i = .failed) (i n : ℕ) (t : PendingTable) :
    Flushes t (pendingFlushFrom answers i n t).1 (pendingFlushFrom answers i n t).2 := by
  induction n generalizing i t with
  | zero => exact Flushes.refl t [] rfl
  | succ n ih => exact (pendingFlushSlot_flushes t i (hanswers i)).trans (ih (i + 1) _)

/-! ### Charges -/

/-- The walk of the key ends at its slot, or no slot has the key. -/
def PendingTable.Direct (t : PendingTable) (k : PendingKey) : Prop :=
  (∃ i, locate QuotaPending.key pendingStart t.pending k = .found i) ∨
    ∀ s, .live s ∈ t.pending → s.key ≠ k

/-- The slot that a charge is folded into. -/
theorem pendingSlot_spec {t t' : PendingTable} {k : PendingKey}
    (h : pendingSlot t k = some (t', i, s)) :
    t'.pending[i]? = some (.live s) ∧ s.key = k ∧ t'.pendingDropped = t.pendingDropped ∧
      (t.Counted → t'.Counted) ∧ t'.pendingBytes = t.pendingBytes ∧
      (∀ (d : Direction) (k' : PendingKey), t'.held d.amount k' = t.held d.amount k') ∧
      (t.Distinct → t.Direct k → t'.Distinct) ∧ (t.Small → t'.Small) := by
  unfold pendingSlot at h
  cases hloc : locate QuotaPending.key pendingStart t.pending k with
  | found j =>
    obtain ⟨u, hcell, hu, -⟩ := locate_found hloc
    rw [hloc] at h
    dsimp only at h
    rw [hcell] at h
    obtain ⟨rfl, rfl, rfl⟩ : t = t' ∧ j = i ∧ u = s := by simpa using h
    exact ⟨hcell, hu, rfl, id, rfl, fun _ _ => rfl, fun hd _ => hd, id⟩
  | missing free =>
    rw [hloc] at h
    cases free with
    | none => cases h
    | some j =>
      dsimp only at h
      generalize hs : QuotaPending.mk k 0 0 = u at h
      obtain ⟨rfl, rfl, rfl⟩ :
          { t with pending := t.pending.set j (.live u), pendingLive := t.pendingLive + 1 } = t' ∧
            j = i ∧ u = s := by simpa using h
      obtain ⟨hfree, -⟩ := walk_insert (fun m hm => mem_places_lt hm) hloc
      obtain ⟨c, hc, hkey, hkey', hzero⟩ : ∃ c : Cell QuotaPending, t.pending[j]? = some c ∧
          c.key id = none ∧ c.key QuotaPending.key = none ∧ ∀ f, c.amount f = 0 := by
        rcases hfree with hfree | hfree
        · exact ⟨_, hfree, rfl, rfl, fun _ => rfl⟩
        · exact ⟨_, hfree, rfl, rfl, fun _ => rfl⟩
      have hlen : j < t.pending.length := (List.getElem?_eq_some_iff.mp hc).1
      refine ⟨getElem?_set_self hlen, by rw [← hs], rfl, ?_, rfl, ?_, ?_, ?_⟩
      · intro ht
        have hused := used_set (.live u) hc
        have htotal := total_set QuotaPending.bytes (.live u) hc
        have hlive := ht.live
        have hbytes := ht.bytes
        rw [hkey] at hused
        rw [hzero] at htotal
        simp only [Cell.key, isSome_some, isSome_none, Bool.toNat_true, Bool.toNat_false] at hused
        have hu : u.bytes = 0 := by rw [← hs]; rfl
        simp only [Cell.amount, hu] at htotal
        refine ⟨?_, ?_, ht.small⟩
        · dsimp only
          omega
        · dsimp only
          omega
      · intro d k'
        have htotal := total_set (fun s => if s.key = k' then d.amount s else 0) (.live u) hc
        rw [hzero] at htotal
        have hu : d.amount u = 0 := by rw [← hs]; cases d <;> rfl
        simp only [Cell.amount, hu, ite_self] at htotal
        exact htotal
      · intro hd hdirect
        have hnew : ∀ v, .live v ∈ t.pending → v.key ≠ k := by
          rcases hdirect with ⟨m, hm⟩ | hnone
          · rw [hloc] at hm
            cases hm
          · exact hnone
        apply hd.set
        intro m e k' _ hm hek' hbad
        obtain rfl : u.key = k' := some.inj hek'
        cases e with
        | empty => cases hbad
        | tomb => cases hbad
        | live v =>
          have hv : v.key = u.key := some.inj hbad
          rw [← hs] at hv
          exact hnew v (mem_of_getElem? hm) hv
      · intro hsmall v hv
        rcases mem_or_eq_of_mem_set hv with hv | hv
        · exact hsmall v hv
        · obtain rfl := Cell.live.inj hv
          rw [← hs]
          show 0 + 0 < FLOWD_TP_CHECKPOINT_BYTES
          decide

/-- A charge that is folded into its slot, before the slot is flushed. -/
theorem fold_spec (ht : t.Counted) (hi : t.pending[i]? = some (.live s)) {up down : ℕ}
    (hroom : t.pendingBytes + (up + down) < 2 ^ 64) :
    add64 (s.fold up down).upBytes (s.fold up down).downBytes = (s.fold up down).bytes ∧
      (t.fold i s up down).Counted ∧
      ∀ (d : Direction) (k : PendingKey), (t.fold i s up down).held d.amount k =
        t.held d.amount k + booked d k [{ key := s.key, upBytes := up, downBytes := down }] := by
  have hle : s.bytes ≤ t.pendingBytes := ht.bytes ▸ amount_le_total hi
  unfold QuotaPending.bytes at hle
  have hup : (s.fold up down).upBytes = s.upBytes + up := add64_eq (by omega)
  have hdown : (s.fold up down).downBytes = s.downBytes + down := add64_eq (by omega)
  have hboth : (t.fold i s up down).pendingBytes = t.pendingBytes + (up + down) := by
    show add64 t.pendingBytes (add64 up down) = _
    rw [add64_eq (by omega : up + down < 2 ^ 64), add64_eq hroom]
  have hbytes : (s.fold up down).bytes = s.bytes + (up + down) := by
    unfold QuotaPending.bytes
    rw [hup, hdown]
    omega
  refine ⟨?_, ⟨?_, ?_, ?_⟩, ?_⟩
  · apply add64_eq
    omega
  · have hused := used_set (.live (s.fold up down)) hi
    have hlive := ht.live
    simp only [Cell.key, isSome_some, Bool.toNat_true] at hused
    show t.pendingLive = used (t.pending.set i (.live (s.fold up down)))
    omega
  · have htotal := total_set QuotaPending.bytes (.live (s.fold up down)) hi
    have hold := ht.bytes
    simp only [Cell.amount] at htotal
    rw [hboth]
    show _ = total QuotaPending.bytes (t.pending.set i (.live (s.fold up down)))
    omega
  · rw [hboth]
    exact hroom
  · intro d k
    have htotal :=
      total_set (fun s => if s.key = k then d.amount s else 0) (.live (s.fold up down)) hi
    have hamount : d.amount (s.fold up down) = d.amount s +
        d.amount { key := s.key, upBytes := up, downBytes := down } := by
      cases d
      · exact hup
      · exact hdown
    have hkey : (s.fold up down).key = s.key := rfl
    simp only [Cell.amount, hkey] at htotal
    rw [booked_singleton]
    show total _ (t.pending.set i (.live (s.fold up down))) = total _ t.pending + _
    by_cases hk : s.key = k
    · simp only [if_pos hk] at htotal ⊢
      omega
    · simp only [if_neg hk] at htotal ⊢
      omega

/-! ### Runs -/

/-- The store makes a write or refuses it as a whole. -/
def StoreAnswer.Whole (a : StoreAnswer) : Prop := a = .written ∨ a = .failed

/-- What a step has to meet: a charge finds the slot of its aggregate if there is one, the bytes in
    the table stay below 2^64, and a call of the store writes all or nothing. -/
def PendingOp.Sound (t : PendingTable) : PendingOp → Prop
  | .charge acct src up down answer =>
    answer.Whole ∧ ∀ k, chargeKey acct src up down = some k →
      t.Direct k ∧ t.pendingBytes + (up + down) < 2 ^ 64
  | .flushSlot _ answer => answer.Whole
  | .flushAll answers => ∀ i, (answers i).Whole

/-- Every step of the run is sound. -/
def SoundRun (l : Ledger) : List PendingOp → Prop
  | [] => True
  | op :: ops => op.Sound l.table ∧ SoundRun (ledgerStep l op) ops

/-- What every state of a sound run has. -/
structure Ledger.Ok (l : Ledger) : Prop where
  counted : l.table.Counted
  dropped : l.table.pendingDropped = l.dropped.length
  balance : ∀ (d : Direction) (k : PendingKey),
    booked d k l.written + l.table.held d.amount k + booked d k l.dropped = booked d k l.charged
  distinct : l.table.Distinct
  small : l.failures = 0 → l.table.Small

theorem Ledger.clear_ok : Ledger.clear.Ok where
  counted := PendingTable.clear_counted
  dropped := rfl
  balance d k := by
    have hheld : Ledger.clear.table.held d.amount k = 0 := by
      apply total_eq_zero
      intro s hs
      cases (mem_replicate.mp hs).2
    rw [hheld]
    rfl
  distinct i j a b k hi _ ha _ := by
    obtain rfl := (mem_replicate.mp (mem_of_getElem? hi)).2
    cases ha
  small _ s hs := by cases (mem_replicate.mp hs).2

variable {l : Ledger}

theorem Ledger.Ok.flush (hl : l.Ok) {rs : List FlushResult}
    (h : Flushes l.table t rs) : (l.flush t rs).Ok where
  counted := h.counted hl.counted
  dropped := h.dropped.trans hl.dropped
  balance d k := by
    have hheld := h.held hl.counted d k
    have hbalance := hl.balance d k
    unfold Ledger.flush
    dsimp only
    rw [booked_append]
    omega
  distinct := h.distinct hl.distinct
  small hf s hs := by
    have hfail : l.failures = 0 := by
      unfold Ledger.flush at hf
      dsimp only at hf
      omega
    exact hl.small hfail s (h.subset s hs)

/-- A charge that finds a slot. -/
theorem Ledger.Ok.fold (hl : l.Ok) {k : PendingKey}
    (hslot : pendingSlot l.table k = some (t, i, s)) (hdirect : l.table.Direct k)
    {up down : ℕ} (hroom : l.table.pendingBytes + (up + down) < 2 ^ 64) {answer : StoreAnswer}
    (hanswer : answer.Whole) :
    (({ l with charged := l.charged ++ [{ key := k, upBytes := up, downBytes := down }] } :
      Ledger).flush (foldCharge t i s up down answer).1
        [(foldCharge t i s up down answer).2]).Ok := by
  obtain ⟨hi, hkey, hdropped, hcounted, hbytes, hheld, hdistinct, hsmall⟩ := pendingSlot_spec hslot
  rw [← hbytes] at hroom
  obtain ⟨hsum, hcounted', hheld'⟩ := fold_spec (hcounted hl.counted) hi hroom
  have hdistinct' : (t.fold i s up down).Distinct :=
    (hdistinct hl.distinct hdirect).set_same hi (.inl rfl)
  have hdropped' : (t.fold i s up down).pendingDropped = l.dropped.length :=
    hdropped.trans hl.dropped
  -- the books with the charge, before the slot may be flushed
  have hmiddle : ∀ (d : Direction) (k' : PendingKey), booked d k' l.written +
      (t.fold i s up down).held d.amount k' + booked d k' l.dropped =
        booked d k' (l.charged ++ [{ key := k, upBytes := up, downBytes := down }]) := by
    intro d k'
    have hbalance := hl.balance d k'
    rw [hheld', hheld, hkey, booked_append]
    omega
  unfold foldCharge
  rw [hsum]
  split
  case isFalse hbelow =>
    refine ⟨hcounted', hdropped', ?_, hdistinct', ?_⟩
    · intro d k'
      have hnone : [FlushResult.idle].flatMap FlushResult.writes = [] := rfl
      unfold Ledger.flush
      dsimp only
      rw [hnone, append_nil]
      exact hmiddle d k'
    · intro hfail u hu
      have hfail' : l.failures = 0 := by
        unfold Ledger.flush at hfail
        dsimp only at hfail
        omega
      rcases mem_or_eq_of_mem_set hu with hu | hu
      · exact hsmall (hl.small hfail') u hu
      · obtain rfl := Cell.live.inj hu
        exact Nat.lt_of_not_le hbelow
  case isTrue =>
    have hflushes := pendingFlushSlot_flushes (t.fold i s up down) i hanswer
    refine ⟨hflushes.counted hcounted', hflushes.dropped.trans hdropped', ?_,
      hflushes.distinct hdistinct', ?_⟩
    · intro d k'
      have hlost := hflushes.held hcounted' d k'
      have hbalance := hmiddle d k'
      unfold Ledger.flush
      dsimp only
      rw [booked_append d k' l.written]
      omega
    · intro hfail u hu
      unfold Ledger.flush at hu hfail
      dsimp only at hu hfail
      have hi' : (t.fold i s up down).pending[i]? = some (.live (s.fold up down)) :=
        getElem?_set_self (List.getElem?_eq_some_iff.mp hi).1
      rcases pendingFlushSlot_cases (t.fold i s up down) i hanswer with
        ⟨v, -, htable, -⟩ | ⟨-, hr | ⟨-, hidle⟩⟩
      · -- the slot is freed, and the others were small before
        rw [htable] at hu
        have hu' : .live u ∈ (t.pending.set i (.live (s.fold up down))).set i .empty := hu
        rw [set_set] at hu'
        exact hsmall (hl.small (by omega)) u (live_of_mem_set hu')
      · rw [hr] at hfail
        simp [FlushResult.isFailure] at hfail
      · exact absurd hi' (hidle (s.fold up down))

theorem ledgerStep_ok (hl : l.Ok) {op : PendingOp} (h : op.Sound l.table) :
    (ledgerStep l op).Ok := by
  cases op with
  | flushSlot i answer => exact hl.flush (pendingFlushSlot_flushes l.table i h)
  | flushAll answers =>
    exact hl.flush (pendingFlushFrom_flushes h 0 FLOWD_TP_PENDING_SLOTS l.table)
  | charge acct src up down answer =>
    obtain ⟨hanswer, hkey⟩ := h
    unfold ledgerStep
    dsimp only
    cases hk : chargeKey acct src up down with
    | none => exact hl
    | some k =>
      obtain ⟨hdirect, hroom⟩ := hkey k hk
      unfold chargeKey at hk
      split at hk
      case isTrue => cases hk
      case isFalse hmoved =>
        dsimp only
        unfold quotaAccountLine
        rw [if_neg hmoved, hk]
        dsimp only
        cases hslot : pendingSlot l.table k with
        | none =>
          refine ⟨⟨hl.counted.live, hl.counted.bytes, hl.counted.small⟩, ?_, ?_, hl.distinct,
            hl.small⟩
          · have hdropped := hl.dropped
            unfold Ledger.charge
            dsimp only
            rw [length_append, length_singleton, hdropped]
          · intro d k'
            have hbalance := hl.balance d k'
            unfold Ledger.charge
            dsimp only
            rw [booked_append, booked_append, ← Nat.add_assoc]
            exact congrArg (· + _) hbalance
        | some r =>
          obtain ⟨t, i, s⟩ := r
          exact hl.fold hslot hdirect hroom hanswer

/-- A per-client policy for 192.168.1.0/24. -/
def lanPolicy : QuotaAccount where
  id := Text.ascii "tp_1".toList
  quotaMode := "per_ip"
  status := TP_STATUS_ACTIVE
  targets := [{ family := AF_INET, prefixLen := 24, network := [192, 168, 1, 0] }]

/-- A flow of the client 192.168.1.`host`. -/
def lanFlow (host : UInt8) : Flow where
  family := AF_INET
  protocol := 6
  srcAddr := [192, 168, 1, host]
  dstAddr := [8, 8, 8, 8]
  srcPort := 40000
  dstPort := 443

/-- A charge of the client that is written to the store as soon as it has to be. -/
def lanCharge (host : UInt8) (up : ℕ) : PendingOp := .charge lanPolicy (lanFlow host) up 0 .written

end DreamingOS.Quota
