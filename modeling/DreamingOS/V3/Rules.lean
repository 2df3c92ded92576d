import DreamingOS.V3.Index

namespace DreamingOS.V3

/-!
# v3 chain rules — the staging transaction

The state of `jmx_v3_rules.c` and the operations on it, each one section under `v3_update_lock`.

* `KState` — the staging transaction, the active set, and whether the module runs;
* `checkOwnerLocked` — expiry, then the tests of owner, generation and failure;
* `txBegin` / `txAdd` / `txCommit` / `txAbort` / `txFail` — the operations of the netlink handler;
* `expireWork` — the delayed work; `getSnapshot` — the status snapshot.

`jiffies` is read once or twice in each section; `Clock` has the readings.  Freed memory and the
rescheduling of the delayed work have no part in the state: a tick may come at any time.
-/

/-! ### State -/

/-- `struct jmx_v3_transaction`, of a transaction whose `set` is not NULL. -/
structure Transaction where
  (ownerPortid generation : ℕ)
  failedReason : ℕ := 0
  failedDetail : ℕ := 0
  deadline : BitVec 64
  set : RuleSet
  failed : Bool := false
  deriving DecidableEq

/-- `v3_tx` (`none` while its `set` is NULL), `v3_active` and `v3_running`. -/
structure KState where
  tx : Option Transaction := none
  active : Option RuleSet := none
  running : Bool := true

/-- `jmx_v3_rules_init`. -/
def rulesInit : KState := {}

/-- The tick rate, and the readings of `jiffies` by the owner check, by the renewal of the deadline
    and by `jmx_v3_tx_fail`. -/
structure Clock where
  hz : ℕ := 100
  (check renew fail : BitVec 64)
  deriving DecidableEq

/-- `JMX_V3_TX_TIMEOUT`. -/
def txTimeout (hz : ℕ) : BitVec 64 := BitVec.ofNat 64 (30 * hz)

/-- `time_after_eq`. -/
def timeAfterEq (a b : BitVec 64) : Bool := 0 ≤ (a - b).toInt

/-- What an operation returns: its error, and the reason and detail it sets. -/
structure Answer where
  rc : Option Errno
  (reason detail : ℕ)

def Failure.answer (f : Failure) : Answer := ⟨some f.rc, f.reason, f.detail⟩

/-! ### Ownership and failure -/

/-- `expire_staging_locked`. -/
def expireStagingLocked (now : BitVec 64) (st : KState) : KState :=
  match st.tx with
  | some tx => if timeAfterEq now tx.deadline then { st with tx := none } else st
  | none => st

/-- `v3_expire_work_fn`. -/
def expireWork (now : BitVec 64) (st : KState) : KState :=
  if st.running then expireStagingLocked now st else st

/-- The tests of `check_owner_locked` on what is staged. -/
def checkOwner (tx : Option Transaction) (ownerPortid generation : ℕ) (allowFailed : Bool) :
    Except Failure Transaction :=
  match tx with
  | none => .error ⟨.ENOENT, JMX_V3_REASON_BAD_GENERATION, generation⟩
  | some tx =>
    if tx.ownerPortid ≠ ownerPortid then .error ⟨.EPERM, JMX_V3_REASON_NOT_OWNER, ownerPortid⟩
    else if tx.generation ≠ generation ∨ tx.set.generation ≠ generation then
      .error ⟨.EINVAL, JMX_V3_REASON_BAD_GENERATION, generation⟩
    else if tx.failed ∧ !allowFailed then .error ⟨.ECANCELED, tx.failedReason, tx.failedDetail⟩
    else .ok tx

/-- `check_owner_locked`: the state after a possible expiry, and the transaction found. -/
def checkOwnerLocked (now : BitVec 64) (ownerPortid generation : ℕ) (allowFailed : Bool)
    (st : KState) : KState × Except Failure Transaction :=
  if !st.running then (st, .error ⟨.ESHUTDOWN, JMX_V3_REASON_BAD_GENERATION, generation⟩)
  else
    (expireStagingLocked now st,
      checkOwner (expireStagingLocked now st).tx ownerPortid generation allowFailed)

/-- `fail_transaction_locked` on a transaction. -/
def Transaction.markFailed (tx : Transaction) (reason detail : ℕ) : Transaction :=
  if tx.failed then tx
  else
    { tx with
      failed := true
      failedReason := if reason = 0 then JMX_V3_REASON_BAD_RECORD else reason
      failedDetail := detail }

/-- `jmx_v3_tx_fail`. -/
def txFail (clock : Clock) (ownerPortid generation reason detail : ℕ) (st : KState) : KState :=
  match checkOwnerLocked clock.fail ownerPortid generation true st with
  | (st, .error _) => st
  | (st, .ok tx) => { st with tx := some (tx.markFailed reason detail) }

/-! ### Begin -/

/-- The parameters `jmx_v3_tx_begin` refuses. -/
def beginBad (b : NlBegin) (flags : UInt32) : Prop :=
  let mode := (flags &&& JMX_V3_TX_MODE_MASK).toNat
  let caps := UInt32.ofNat b.requiredCapabilities
  flags &&& ~~~JMX_V3_TX_KNOWN_FLAGS ≠ 0 ∨ JMX_V3_MODE_ACTIVE < mode ∨
    JMX_V3_MAX_RULES < b.expectedRules ∨ JMX_V3_MAX_STEPS < b.expectedSteps ∨
    JMX_V3_MAX_PORTS < b.expectedPorts ∨
    (b.expectedRules = 0 ∧ (b.expectedSteps ≠ 0 ∨ b.expectedPorts ≠ 0 ∨ caps ≠ 0 ∨
      mode ≠ JMX_V3_MODE_OFF)) ∨
    (b.expectedRules ≠ 0 ∧ (b.expectedSteps = 0 ∨ mode = JMX_V3_MODE_OFF)) ∨
    caps &&& ~~~JMX_V3_CAP_PHASE1_MASK ≠ 0

instance (b : NlBegin) (flags : UInt32) : Decidable (beginBad b flags) :=
  inferInstanceAs (Decidable (_ ∨ _))

/-- The empty set a BEGIN declares. -/
def declaredSet (generation : ℕ) (b : NlBegin) (flags : UInt32) : RuleSet where
  generation := generation
  mode := (flags &&& JMX_V3_TX_MODE_MASK).toNat
  ruleCapacity := b.expectedRules
  stepCapacity := b.expectedSteps
  portCapacity := b.expectedPorts
  declaredCaps := UInt32.ofNat b.requiredCapabilities
  catalogDigest := b.catalogDigest

/-- `jmx_v3_tx_begin`; `alloc` tells whether the set and its arrays could be allocated. -/
def txBegin (alloc : Bool) (clock : Clock) (ownerPortid generation : ℕ) (b : NlBegin)
    (flags : UInt32) (st : KState) : KState × Answer :=
  if ownerPortid = 0 ∨ generation = 0 then (st, ⟨some .EINVAL, JMX_V3_REASON_BAD_RECORD, 0⟩)
  else if bytesZero b.catalogDigest then (st, ⟨some .EINVAL, JMX_V3_REASON_BAD_RECORD, 0⟩)
  else if beginBad b flags then
    let unknown := UInt32.ofNat b.requiredCapabilities &&& ~~~JMX_V3_CAP_PHASE1_MASK
    (st, ⟨some .EINVAL, if unknown ≠ 0 then JMX_V3_REASON_CAPABILITY else JMX_V3_REASON_BAD_RECORD,
      unknown.toNat⟩)
  else if !alloc then (st, ⟨some .ENOMEM, JMX_V3_REASON_NO_MEMORY, 0⟩)
  else if !st.running then (st, ⟨some .ESHUTDOWN, JMX_V3_REASON_BAD_GENERATION, generation⟩)
  else
    let st := expireStagingLocked clock.check st
    match st.tx with
    | some tx => (st, ⟨some .EBUSY, JMX_V3_REASON_BUSY, tx.ownerPortid⟩)
    | none =>
      if ∃ active ∈ st.active, active.generation = generation then
        (st, ⟨some .EALREADY, JMX_V3_REASON_BAD_GENERATION, generation⟩)
      else
        ({ st with
            tx := some {
              ownerPortid := ownerPortid
              generation := generation
              deadline := clock.renew + txTimeout clock.hz
              set := declaredSet generation b flags } },
          ⟨none, JMX_V3_REASON_NONE, 0⟩)

/-! ### Batches -/

/-- The room left in a list, as the source's unsigned subtraction has it. -/
def roomLeft (capacity count : ℕ) : ℕ := (capacity + 4294967296 - count) % 4294967296

/-- `jmx_v3_tx_add_rules`, `jmx_v3_tx_add_steps` and `jmx_v3_tx_add_ports`, by the kind of batch. -/
def txAdd {ρ κ : Type} (k : BatchKind ρ κ) (clock : Clock) (ownerPortid generation : ℕ)
    (wires : List ρ) (st : KState) : KState × Answer :=
  match checkOwnerLocked clock.check ownerPortid generation false st with
  | (st, .error f) => (st, f.answer)
  | (st, .ok tx) =>
    let startCount := (k.records tx.set).length
    if roomLeft (k.capacity tx.set) startCount < wires.length then
      ({ st with tx := some (tx.markFailed JMX_V3_REASON_COUNT_MISMATCH wires.length) },
        ⟨some .E2BIG, JMX_V3_REASON_COUNT_MISMATCH, wires.length⟩)
    else
      match k.appendAll tx.set wires with
      | (set, some f) =>
        ({ st with
            tx := some ({ tx with set := k.rollback set startCount }.markFailed f.reason f.detail) },
          f.answer)
      | (set, none) =>
        ({ st with
            tx := some { tx with set := set, deadline := clock.renew + txTimeout clock.hz } },
          ⟨none, JMX_V3_REASON_NONE, (k.records set).length⟩)

/-- `jmx_v3_tx_add_rules`. -/
def txAddRules (clock : Clock) (ownerPortid generation : ℕ) (wires : List NlRule) :
    KState → KState × Answer :=
  txAdd ruleBatch clock ownerPortid generation wires

/-- `jmx_v3_tx_add_steps`. -/
def txAddSteps (clock : Clock) (ownerPortid generation : ℕ) (wires : List NlStep) :
    KState → KState × Answer :=
  txAdd stepBatch clock ownerPortid generation wires

/-- `jmx_v3_tx_add_ports`. -/
def txAddPorts (clock : Clock) (ownerPortid generation : ℕ) (wires : List NlPort) :
    KState → KState × Answer :=
  txAdd portBatch clock ownerPortid generation wires

/-! ### Commit, abort, snapshot -/

/-- `jmx_v3_tx_commit`. -/
def txCommit (alloc : CommitAlloc) (clock : Clock) (ownerPortid generation : ℕ) (st : KState) :
    KState × Answer :=
  match checkOwnerLocked clock.check ownerPortid generation false st with
  | (st, .error f) => (st, f.answer)
  | (st, .ok tx) =>
    match validateAndIndexSet alloc tx.set with
    | (set, some f) =>
      ({ st with tx := some ({ tx with set := set }.markFailed f.reason f.detail) }, f.answer)
    | (set, none) =>
      ({ st with tx := none, active := some set }, ⟨none, JMX_V3_REASON_NONE, set.rules.length⟩)

/-- `jmx_v3_tx_abort`. -/
def txAbort (clock : Clock) (ownerPortid generation : ℕ) (st : KState) : KState × Answer :=
  match checkOwnerLocked clock.check ownerPortid generation true st with
  | (st, .error f) => (st, f.answer)
  | (st, .ok _) => ({ st with tx := none }, ⟨none, JMX_V3_REASON_NONE, 0⟩)

/-- `struct jmx_v3_snapshot`. -/
structure Snapshot where
  capabilities : UInt32
  (activeGeneration activeRules activeSteps activePorts activeMode : ℕ)
  activeCatalogDigest : List UInt8
  (stagingGeneration stagingState : ℕ)

/-- `jmx_v3_get_snapshot`. -/
def getSnapshot (st : KState) : Snapshot where
  capabilities := JMX_V3_CAP_PHASE1_MASK
  activeGeneration := (st.active.map fun set => set.generation).getD 0
  activeRules := (st.active.map fun set => set.rules.length).getD 0
  activeSteps := (st.active.map fun set => set.steps.length).getD 0
  activePorts := (st.active.map fun set => set.ports.length).getD 0
  activeMode := (st.active.map fun set => set.mode).getD 0
  activeCatalogDigest :=
    (st.active.map fun set => set.catalogDigest).getD (List.replicate JMX_V3_CATALOG_DIGEST_LEN 0)
  stagingGeneration := (st.tx.map fun tx => tx.generation).getD 0
  stagingState :=
    match st.tx with
    | some tx => if tx.failed then JMX_V3_STAGING_FAILED else JMX_V3_STAGING_LOADING
    | none => JMX_V3_STAGING_NONE

/-! ### What an operation can do -/

/-- Expiry empties the staging transaction or leaves the state alone. -/
theorem expireStagingLocked_cases (now : BitVec 64) (st : KState) :
    (∃ tx, st.tx = some tx ∧ timeAfterEq now tx.deadline ∧
      expireStagingLocked now st = { st with tx := none }) ∨
    ((∀ tx ∈ st.tx, timeAfterEq now tx.deadline = false) ∧ expireStagingLocked now st = st) := by
  unfold expireStagingLocked
  split
  · next tx htx =>
    by_cases hdue : timeAfterEq now tx.deadline
    · rw [if_pos hdue]
      exact .inl ⟨tx, htx, hdue, rfl⟩
    · rw [if_neg hdue, htx]
      exact .inr ⟨by simpa using hdue, rfl⟩
  · next htx =>
    rw [htx]
    exact .inr ⟨by simp, rfl⟩

@[simp] theorem expireStagingLocked_active (now : BitVec 64) (st : KState) :
    (expireStagingLocked now st).active = st.active := by
  rcases expireStagingLocked_cases now st with ⟨_, _, _, h⟩ | ⟨_, h⟩ <;> rw [h]

@[simp] theorem expireStagingLocked_running (now : BitVec 64) (st : KState) :
    (expireStagingLocked now st).running = st.running := by
  rcases expireStagingLocked_cases now st with ⟨_, _, _, h⟩ | ⟨_, h⟩ <;> rw [h]

/-- What the tests let through. -/
theorem checkOwner_eq_ok {tx : Option Transaction} {ownerPortid generation : ℕ}
    {allowFailed : Bool} {tx' : Transaction}
    (h : checkOwner tx ownerPortid generation allowFailed = .ok tx') :
    tx = some tx' ∧ tx'.ownerPortid = ownerPortid ∧ tx'.generation = generation ∧
      tx'.set.generation = generation ∧ (allowFailed = false → tx'.failed = false) := by
  unfold checkOwner at h
  split at h
  · cases h
  next tx₀ =>
  split at h
  · cases h
  next howner =>
  split at h
  · cases h
  next hgen =>
  split at h
  · cases h
  next hfail =>
  cases h
  simp only [not_or, not_not] at hgen
  refine ⟨rfl, not_not.mp howner, hgen.1, hgen.2, fun hallow => ?_⟩
  simpa [hallow] using hfail

/-- The owner check: an expiry at most, and on success the transaction of the caller. -/
theorem checkOwnerLocked_cases (now : BitVec 64) (ownerPortid generation : ℕ)
    (allowFailed : Bool) (st : KState) :
    (∃ st' f, checkOwnerLocked now ownerPortid generation allowFailed st = (st', .error f) ∧
      (st' = st ∨ st' = expireStagingLocked now st)) ∨
    (∃ tx, checkOwnerLocked now ownerPortid generation allowFailed st = (st, .ok tx) ∧
      st.tx = some tx ∧ timeAfterEq now tx.deadline = false ∧ tx.ownerPortid = ownerPortid ∧
      tx.generation = generation ∧ tx.set.generation = generation ∧
      (allowFailed = false → tx.failed = false)) := by
  unfold checkOwnerLocked
  by_cases hrun : st.running
  · rw [if_neg (by simp [hrun])]
    cases hcheck : checkOwner (expireStagingLocked now st).tx ownerPortid generation allowFailed with
    | error f => exact .inl ⟨_, f, rfl, .inr rfl⟩
    | ok tx =>
      obtain ⟨htx, h1, h2, h3, h4⟩ := checkOwner_eq_ok hcheck
      rcases expireStagingLocked_cases now st with ⟨_, _, _, h⟩ | ⟨hlive, h⟩
      · rw [h] at htx
        cases htx
      · rw [h] at htx
        refine .inr ⟨tx, by rw [h], htx, hlive tx htx, h1, h2, h3, h4⟩
  · rw [if_pos (by simp [hrun])]
    exact .inl ⟨st, _, rfl, .inl rfl⟩

/-- An operation that found no transaction of the caller: an error, and an expiry at most. -/
def Refused (now : BitVec 64) (st st' : KState) (ans : Answer) : Prop :=
  ans.rc ≠ none ∧ (st' = st ∨ st' = expireStagingLocked now st)

/-- The transaction an operation of this caller works on. -/
structure Owns (now : BitVec 64) (ownerPortid generation : ℕ) (st : KState) (tx : Transaction) :
    Prop where
  staged : st.tx = some tx
  live : timeAfterEq now tx.deadline = false
  owner : tx.ownerPortid = ownerPortid
  txGeneration : tx.generation = generation
  setGeneration : tx.set.generation = generation

variable {st' : KState} {ans : Answer}

/-- **Adding a batch.**  It is refused, or it fails the caller's transaction without touching the
    staged records, or it stores exactly its records behind them. -/
theorem txAdd_cases {ρ κ : Type} {k : BatchKind ρ κ} (hk : k.Lawful) (clock : Clock)
    (ownerPortid generation : ℕ) (wires : List ρ) (st : KState)
    (h : txAdd k clock ownerPortid generation wires st = (st', ans)) :
    Refused clock.check st st' ans ∨
    ∃ tx, Owns clock.check ownerPortid generation st tx ∧ tx.failed = false ∧ ((ans.rc ≠ none ∧
          ∃ reason detail, st' = { st with tx := some (tx.markFailed reason detail) }) ∨
        (ans.rc = none ∧ wires.length ≤ roomLeft (k.capacity tx.set) (k.records tx.set).length ∧
          k.appendAll tx.set wires
            = (k.store tx.set (k.records tx.set ++ wires.map k.ofWire), none) ∧
          st' = { st with
            tx := some { tx with
              set := k.store tx.set (k.records tx.set ++ wires.map k.ofWire)
              deadline := clock.renew + txTimeout clock.hz } })) := by
  unfold txAdd at h
  rcases checkOwnerLocked_cases clock.check ownerPortid generation false st with
    ⟨st₁, f, hcheck, hst⟩ | ⟨tx, hcheck, htx, hlive, hown, hgen, hset, hfail⟩
  · rw [hcheck] at h
    cases h
    exact .inl ⟨by simp [Failure.answer], hst⟩
  · rw [hcheck] at h
    refine .inr ⟨tx, ⟨htx, hlive, hown, hgen, hset⟩, hfail rfl, ?_⟩
    simp only at h
    split at h
    · cases h
      exact .inl ⟨by simp, _, _, rfl⟩
    rename_i hroom
    cases happ : k.appendAll tx.set wires with
    | mk set fo =>
      cases fo with
      | some f =>
        simp only [happ, BatchKind.rollback_appendAll hk happ] at h
        cases h
        exact .inl ⟨by simp [Failure.answer], _, _, rfl⟩
      | none =>
        simp only [happ] at h
        cases h
        have hstore := BatchKind.appendAll_eq_store hk happ
        subst hstore
        exact .inr ⟨rfl, not_lt.mp hroom, rfl, rfl⟩

/-- **Begin.**  It is refused, or an empty transaction of the caller is staged where none was. -/
theorem txBegin_cases (alloc : Bool) (clock : Clock) (ownerPortid generation : ℕ) (b : NlBegin)
    (flags : UInt32) (st : KState)
    (h : txBegin alloc clock ownerPortid generation b flags st = (st', ans)) :
    Refused clock.check st st' ans ∨
    (ans.rc = none ∧ ¬ beginBad b flags ∧ (expireStagingLocked clock.check st).tx = none ∧
      (∀ active ∈ st.active, active.generation ≠ generation) ∧
      st' = { expireStagingLocked clock.check st with
        tx := some {
          ownerPortid := ownerPortid
          generation := generation
          deadline := clock.renew + txTimeout clock.hz
          set := declaredSet generation b flags } }) := by
  unfold txBegin at h
  split at h
  · cases h; exact .inl ⟨by simp, .inl rfl⟩
  split at h
  · cases h; exact .inl ⟨by simp, .inl rfl⟩
  split at h
  · cases h; exact .inl ⟨by simp, .inl rfl⟩
  next hbad =>
  split at h
  · cases h; exact .inl ⟨by simp, .inl rfl⟩
  split at h
  · cases h; exact .inl ⟨by simp, .inl rfl⟩
  simp only at h
  split at h
  · cases h; exact .inl ⟨by simp, .inr rfl⟩
  next htx =>
  split at h
  · cases h; exact .inl ⟨by simp, .inr rfl⟩
  next hactive =>
  cases h
  rw [expireStagingLocked_active] at hactive
  exact .inr ⟨rfl, hbad, htx, fun active ha hgen => hactive ⟨active, ha, hgen⟩, rfl⟩

/-- **Commit.**  It is refused, or the validation fails the caller's transaction, or the validated
    set becomes the active one and nothing is staged. -/
theorem txCommit_cases (alloc : CommitAlloc) (clock : Clock) (ownerPortid generation : ℕ)
    (st : KState)
    (h : txCommit alloc clock ownerPortid generation st = (st', ans)) :
    Refused clock.check st st' ans ∨
    ∃ tx, Owns clock.check ownerPortid generation st tx ∧ tx.failed = false ∧
      ((ans.rc ≠ none ∧ ∃ set reason detail,
          st' = { st with tx := some ({ tx with set := set }.markFailed reason detail) }) ∨
        (ans.rc = none ∧ ∃ set, validateAndIndexSet alloc tx.set = (set, none) ∧
          st' = { st with tx := none, active := some set })) := by
  unfold txCommit at h
  rcases checkOwnerLocked_cases clock.check ownerPortid generation false st with
    ⟨st₁, f, hcheck, hst⟩ | ⟨tx, hcheck, htx, hlive, hown, hgen, hset, hfail⟩
  · rw [hcheck] at h
    cases h
    exact .inl ⟨by simp [Failure.answer], hst⟩
  · rw [hcheck] at h
    refine .inr ⟨tx, ⟨htx, hlive, hown, hgen, hset⟩, hfail rfl, ?_⟩
    cases hval : validateAndIndexSet alloc tx.set with
    | mk set fo =>
      cases fo with
      | some f =>
        simp only [hval] at h
        cases h
        exact .inl ⟨by simp [Failure.answer], set, _, _, rfl⟩
      | none =>
        simp only [hval] at h
        cases h
        exact .inr ⟨rfl, set, rfl, rfl⟩

/-- **Abort.**  It is refused, or the caller's transaction is dropped. -/
theorem txAbort_cases (clock : Clock) (ownerPortid generation : ℕ) (st : KState)
    (h : txAbort clock ownerPortid generation st = (st', ans)) :
    Refused clock.check st st' ans ∨
    ∃ tx, Owns clock.check ownerPortid generation st tx ∧ ans.rc = none ∧
      st' = { st with tx := none } := by
  unfold txAbort at h
  rcases checkOwnerLocked_cases clock.check ownerPortid generation true st with
    ⟨st₁, f, hcheck, hst⟩ | ⟨tx, hcheck, htx, hlive, hown, hgen, hset, _⟩
  · rw [hcheck] at h
    cases h
    exact .inl ⟨by simp [Failure.answer], hst⟩
  · rw [hcheck] at h
    cases h
    exact .inr ⟨tx, ⟨htx, hlive, hown, hgen, hset⟩, rfl, rfl⟩

/-- **Marking.**  `jmx_v3_tx_fail` expires at most, or marks the caller's transaction. -/
theorem txFail_cases (clock : Clock) (ownerPortid generation reason detail : ℕ) (st : KState) :
    (txFail clock ownerPortid generation reason detail st = st ∨
      txFail clock ownerPortid generation reason detail st
        = expireStagingLocked clock.fail st) ∨
    ∃ tx, Owns clock.fail ownerPortid generation st tx ∧
      txFail clock ownerPortid generation reason detail st
        = { st with tx := some (tx.markFailed reason detail) } := by
  unfold txFail
  rcases checkOwnerLocked_cases clock.fail ownerPortid generation true st with
    ⟨st₁, f, hcheck, hst⟩ | ⟨tx, hcheck, htx, hlive, hown, hgen, hset, _⟩
  · rw [hcheck]
    exact .inl hst
  · rw [hcheck]
    exact .inr ⟨tx, ⟨htx, hlive, hown, hgen, hset⟩, rfl⟩

@[simp] theorem markFailed_failed (tx : Transaction) (reason detail : ℕ) :
    (tx.markFailed reason detail).failed = true := by
  unfold Transaction.markFailed
  split <;> simp_all

@[simp] theorem markFailed_set (tx : Transaction) (reason detail : ℕ) :
    (tx.markFailed reason detail).set = tx.set := by
  unfold Transaction.markFailed
  split <;> rfl

@[simp] theorem markFailed_ownerPortid (tx : Transaction) (reason detail : ℕ) :
    (tx.markFailed reason detail).ownerPortid = tx.ownerPortid := by
  unfold Transaction.markFailed
  split <;> rfl

@[simp] theorem markFailed_generation (tx : Transaction) (reason detail : ℕ) :
    (tx.markFailed reason detail).generation = tx.generation := by
  unfold Transaction.markFailed
  split <;> rfl

@[simp] theorem markFailed_deadline (tx : Transaction) (reason detail : ℕ) :
    (tx.markFailed reason detail).deadline = tx.deadline := by
  unfold Transaction.markFailed
  split <;> rfl

end DreamingOS.V3
