import DreamingOS.SafeOps.Tasks
import Mathlib.Data.List.Induction
import Mathlib.Tactic.NormNum

namespace DreamingOS.SafeOps

open List

/-!
# Safe operations — the revision sequence

`safeops_revision_begin` of `revision_sequence.h`, and the creation of a task by its caller in the
same transaction.

* `Conn` — a connection with its open transaction, and `Answer` — what SQLite answers to a statement;
* `revisionBegin` — replay, exclusion and reservation, with every exit;
* `step`, `run` — creations among the other statements on tasks.
-/

/-! ### Database and transactions -/

/-- The tasks, the row of `config_apply_revision_sequence`, and the largest id that was given. -/
structure Db where
  tasks : Tasks
  nextRevision : Option ℤ
  lastId : ℤ
  id_le : ∀ t ∈ tasks.rows, t.id ≤ lastId

/-- No tasks, and the sequence at its beginning. -/
def Db.fresh : Db where
  tasks := Table.empty
  nextRevision := some 1
  lastId := 0
  id_le := by
    intro t ht
    cases ht

/-- What a statement answers: it is done, it fails, or it fails and the transaction is rolled back,
    as for want of memory or after an I/O error. -/
inductive Answer where
  | done
  | error
  | abort
  deriving DecidableEq

/-- A connection: what is committed, and the open transaction. -/
structure Conn where
  committed : Db
  tx : Option Db

/-- What a statement sees. -/
def Conn.view (c : Conn) : Db := c.tx.getD c.committed

/-- What a statement leaves; without a transaction it is committed at once. -/
def Conn.set (c : Conn) (db : Db) : Conn :=
  match c.tx with
  | some _ => { c with tx := some db }
  | none => { c with committed := db }

def Conn.rollback (c : Conn) : Conn := { c with tx := none }

/-- A statement that only reads. -/
def Conn.after (c : Conn) (a : Answer) : Conn := if a = .abort then c.rollback else c

/-- `COMMIT`. -/
def Conn.commit (c : Conn) (a : Answer) : Conn × Bool :=
  match c.tx, a with
  | some db, .done => (⟨db, none⟩, true)
  | _, a => (c.after a, false)

/-! ### The begin of a creation -/

/-- The largest number of a column. -/
def INT64_MAX : ℤ := 9223372036854775807

/-- `sqlite3_column_int`: the low 32 bits, with sign. -/
def columnInt (n : ℤ) : ℤ := n.bmod 4294967296

/-- The largest id among the tasks a condition selects. -/
def newest (tasks : Tasks) (p : Task → Bool) : Option ℤ := ((tasks.rows.filter p).map Task.id).max?

def Task.hasKey (key : String) (t : Task) : Bool := t.idempotencyKey = some key

def Task.active (t : Task) : Bool := t.state = PENDING ∨ t.state = ROLLING_BACK

/-- A search for an id: zero when there is no row, and also when the step fails. -/
def searchId (c : Conn) (a : Answer) (p : Task → Bool) : ℤ :=
  if a = .done then ((newest c.view.tasks p).map columnInt).getD 0 else 0

/-- What SQLite answers to the statements of `safeops_revision_begin`, in their order. -/
structure BeginAnswers where
  begin : Bool := true
  existingPrepare : Bool := true
  existingStep : Answer := .done
  activePrepare : Bool := true
  activeStep : Answer := .done
  sequencePrepare : Bool := true
  sequenceStep : Answer := .done
  increment : Answer := .done

inductive BeginResult where
  | error
  | ready (revision : ℤ)
  | replay (existingId : ℤ)
  | active (activeId : ℤ)

/-- The reservation of a revision. A number that is too large becomes a real one, which is read back
    as the largest. -/
def reserve (c : Conn) (a : BeginAnswers) : Conn × BeginResult :=
  if ¬ a.sequencePrepare then (c.rollback, .error)
  else if a.sequenceStep ≠ .done then (c.rollback, .error)
  else
    match c.view.nextRevision with
    | none => (c.rollback, .error)
    | some revision =>
      if revision ≤ 0 then (c.rollback, .error)
      else if a.increment ≠ .done then (c.rollback, .error)
      else
        (c.set { c.view with nextRevision := some (min (revision + 1) INT64_MAX) }, .ready revision)

/-- The search for an active task. -/
def exclude (c : Conn) (a : BeginAnswers) : Conn × BeginResult :=
  if ¬ a.activePrepare then (c.rollback, .error)
  else
    let activeId := searchId c a.activeStep Task.active
    let c := c.after a.activeStep
    if 0 < activeId then (c.rollback, .active activeId) else reserve c a

/-- `safeops_revision_begin`. -/
def revisionBegin (db : Db) (key : String) (a : BeginAnswers) : Conn × BeginResult :=
  if ¬ a.begin then (⟨db, none⟩, .error)
  else
    let c : Conn := ⟨db, some db⟩
    if key = "" then exclude c a
    else if ¬ a.existingPrepare then (c.rollback, .error)
    else
      let existingId := searchId c a.existingStep (Task.hasKey key)
      let c := c.after a.existingStep
      if 0 < existingId then (c.rollback, .replay existingId) else exclude c a

/-! ### The creation of a task -/

/-- The row a caller inserts. -/
def newTask (id : ℤ) (key : String) (revision : ℤ) : Task where
  id := id
  state := PENDING
  configRevision := some revision
  idempotencyKey := some key

/-- The insertion of a row, under the next id. -/
def Db.insert (db : Db) (key : String) (revision : ℤ) : Db where
  tasks := db.tasks.insert (newTask (db.lastId + 1) key revision) (by
    intro hmem
    obtain ⟨t, ht, hid⟩ := List.mem_map.mp hmem
    have hle := db.id_le t ht
    have hid' : t.id = db.lastId + 1 := hid
    omega)
  nextRevision := db.nextRevision
  lastId := db.lastId + 1
  id_le := by
    intro t ht
    rcases mem_append.mp ht with ht | ht
    · have hle := db.id_le t ht
      omega
    · rw [mem_singleton.mp ht]
      exact Int.le_refl _

/-- What SQLite answers to the statements of a creation. `proceed` tells whether all else the caller
    does before it commits goes well. -/
structure CreateAnswers where
  start : BeginAnswers := {}
  insert : Answer := .done
  proceed : Bool := true
  commit : Answer := .done

inductive CreateResult where
  | error
  | created (id revision : ℤ)
  | replay (existingId : ℤ)
  | active (activeId : ℤ)

/-- A creation: the task is inserted in the transaction that is left open, and committed with it. A
    failure rolls back. -/
def createTask (db : Db) (key : String) (a : CreateAnswers) : Db × CreateResult :=
  match revisionBegin db key a.start with
  | (c, .error) => (c.committed, .error)
  | (c, .replay existingId) => (c.committed, .replay existingId)
  | (c, .active activeId) => (c.committed, .active activeId)
  | (c, .ready revision) =>
    if a.insert ≠ .done ∨ INT64_MAX ≤ c.view.lastId then
      ((c.after a.insert).rollback.committed, .error)
    else
      let c := c.set (c.view.insert key revision)
      if ¬ a.proceed then (c.rollback.committed, .error)
      else
        match c.commit a.commit with
        | (c', true) => (c'.committed, .created c.view.lastId revision)
        | (c', false) => (c'.rollback.committed, .error)

/-! ### Runs -/

/-- Creations, the two calls of the rollback lease, and the statements that end a task otherwise. -/
inductive Event where
  | create (key : String) (a : CreateAnswers)
  | claim (sqlite : Bool) (c : Claim)
  | finish (sqlite : Bool) (f : Finish)
  | settle (id : ℤ) (state : String) (h : state ≠ PENDING ∧ state ≠ ROLLING_BACK)

/-- An update of tasks keeps their ids. -/
theorem id_le_update (db : Db) (p : Task → Bool) (f : Task → Task) (hf : ∀ t, (f t).id = t.id) :
    ∀ t ∈ (db.tasks.update p f hf).rows, t.id ≤ db.lastId := by
  intro t ht
  obtain ⟨t', ht', rfl⟩ := List.mem_map.mp ht
  have hid : (if p t' then f t' else t').id = t'.id := by
    split
    · exact hf t'
    · rfl
  rw [hid]
  exact db.id_le t' ht'

def Db.update (db : Db) (p : Task → Bool) (f : Task → Task) (hf : ∀ t, (f t).id = t.id) : Db where
  tasks := db.tasks.update p f hf
  nextRevision := db.nextRevision
  lastId := db.lastId
  id_le := id_le_update db p f hf

theorem id_le_claim (db : Db) (sqlite : Bool) (c : Claim) :
    ∀ t ∈ (rollbackClaim sqlite db.tasks c).1.rows, t.id ≤ db.lastId := by
  unfold rollbackClaim
  split
  · exact db.id_le
  split
  · exact db.id_le
  · exact id_le_update db _ c.set fun _ => rfl

theorem id_le_finish (db : Db) (sqlite : Bool) (f : Finish) :
    ∀ t ∈ (rollbackFinish sqlite db.tasks f).1.rows, t.id ≤ db.lastId := by
  unfold rollbackFinish
  split
  · exact db.id_le
  split
  · exact db.id_le
  · exact id_le_update db _ f.set fun _ => rfl

def step (db : Db) : Event → Db
  | .create key a => (createTask db key a).1
  | .claim sqlite c =>
    ⟨(rollbackClaim sqlite db.tasks c).1, db.nextRevision, db.lastId, id_le_claim db sqlite c⟩
  | .finish sqlite f =>
    ⟨(rollbackFinish sqlite db.tasks f).1, db.nextRevision, db.lastId, id_le_finish db sqlite f⟩
  | .settle id state _ =>
    db.update (fun t => t.id = id) (fun t => { t with state := state }) fun _ => rfl

def run (es : List Event) : Db := es.foldl step Db.fresh

/-! ### What is to hold -/

/-- Revisions increase in the order of creation, at most one task is active, and at most one has a
    given key. -/
structure Sequenced (db : Db) : Prop where
  revisions : db.tasks.rows.Pairwise fun t t' =>
    ∃ r r', t.configRevision = some r ∧ t'.configRevision = some r' ∧ r < r'
  active : db.tasks.rows.countP Task.active ≤ 1
  keys : ∀ key, key ≠ "" → db.tasks.rows.countP (Task.hasKey key) ≤ 1

/-- A creation with the key of a task creates nothing, and yields this task unless a statement
    fails. -/
def Replays (db : Db) (e : Event) : Prop :=
  ∀ key a t, e = .create key a → key ≠ "" → t ∈ db.tasks.rows → t.idempotencyKey = some key →
    (createTask db key a).1 = db ∧
      ((createTask db key a).2 = .error ∨ (createTask db key a).2 = .replay t.id)

/-- Neither search for a task fails in its step. -/
def Event.Answered : Event → Prop
  | .create _ a => a.start.existingStep = .done ∧ a.start.activeStep = .done
  | _ => True

/-! ### Searching -/

variable {p : Task → Bool} {tasks : Tasks}

theorem newest_eq_some {id : ℤ} (h : newest tasks p = some id) :
    ∃ t ∈ tasks.rows, p t = true ∧ t.id = id := by
  obtain ⟨t, ht, hid⟩ := List.mem_map.mp (max?_mem h)
  obtain ⟨hrow, hp⟩ := mem_filter.mp ht
  exact ⟨t, hrow, hp, hid⟩

theorem newest_eq_none (h : newest tasks p = none) : ∀ t ∈ tasks.rows, p t = false := by
  intro t ht
  have hnil : (tasks.rows.filter p).map Task.id = [] := max?_eq_none_iff.mp h
  by_contra hp
  have hmem : t.id ∈ (tasks.rows.filter p).map Task.id :=
    List.mem_map_of_mem (mem_filter.mpr ⟨ht, by simpa using hp⟩)
  rw [hnil] at hmem
  cases hmem

theorem eq_of_countP_le_one {α : Type} {p : α → Bool} {l : List α} (h : l.countP p ≤ 1) {x y : α}
    (hx : x ∈ l) (hpx : p x = true) (hy : y ∈ l) (hpy : p y = true) : x = y := by
  rw [countP_eq_length_filter] at h
  have hx' : x ∈ l.filter p := mem_filter.mpr ⟨hx, hpx⟩
  have hy' : y ∈ l.filter p := mem_filter.mpr ⟨hy, hpy⟩
  cases hl : l.filter p with
  | nil =>
    rw [hl] at hx'
    cases hx'
  | cons z zs =>
    rw [hl] at h hx' hy'
    have hzs : zs = [] := by
      apply length_eq_zero_iff.mp
      rw [length_cons] at h
      omega
    rw [hzs, mem_singleton] at hx' hy'
    rw [hx', hy']

/-- The ids are numbers that a column of 32 bits can hold. -/
def SmallIds (db : Db) : Prop := ∀ t ∈ db.tasks.rows, 0 < t.id ∧ t.id < 2147483648

theorem columnInt_of_small {n : ℤ} (h : 0 < n ∧ n < 2147483648) : columnInt n = n := by
  unfold columnInt
  apply Int.bmod_eq_of_le
  · omega
  · omega

variable {db : Db}

/-- A search that is answered finds a task, or there is none. -/
theorem searchId_cases (hsmall : SmallIds db) {c : Conn} (hc : c.view = db) (p : Task → Bool) :
    (∃ t ∈ db.tasks.rows, p t = true ∧ searchId c .done p = t.id ∧ 0 < t.id) ∨
    (searchId c .done p = 0 ∧ ∀ t ∈ db.tasks.rows, p t = false) := by
  unfold searchId
  rw [if_pos rfl, hc]
  cases hnewest : newest db.tasks p with
  | none => exact .inr ⟨rfl, newest_eq_none hnewest⟩
  | some id =>
    obtain ⟨t, ht, hp, rfl⟩ := newest_eq_some hnewest
    refine .inl ⟨t, ht, hp, ?_, (hsmall t ht).1⟩
    rw [Option.map_some, Option.getD_some, columnInt_of_small (hsmall t ht)]

/-! ### What a creation can do -/

/-- A database with the next revision reserved and a task inserted. -/
def Db.created (db : Db) (key : String) (revision : ℤ) : Db :=
  Db.insert { db with nextRevision := some (min (revision + 1) INT64_MAX) } key revision

/-- An exit of `safeops_revision_begin` that leaves the database as it is. -/
def Refused (db : Db) (out : Conn × BeginResult) : Prop :=
  out.1.committed = db ∧ ∀ r, out.2 ≠ .ready r

variable {a : BeginAnswers}

/-- The exits of `exclude`, when its search is answered. -/
theorem exclude_cases (hsmall : SmallIds db) (ha : a.activeStep = .done) :
    Refused db (exclude ⟨db, some db⟩ a) ∨
    ∃ r, db.nextRevision = some r ∧ 0 < r ∧ (∀ t ∈ db.tasks.rows, t.active = false) ∧
      exclude ⟨db, some db⟩ a =
        (⟨db, some { db with nextRevision := some (min (r + 1) INT64_MAX) }⟩, .ready r) := by
  have herror : ∀ c : Conn, c.committed = db → Refused db (c.rollback, .error) :=
    fun c hc => ⟨hc, fun r h => by cases h⟩
  unfold exclude
  split
  · exact .inl (herror _ rfl)
  rw [ha]
  have hafter : (⟨db, some db⟩ : Conn).after .done = ⟨db, some db⟩ := rfl
  simp only [hafter]
  rcases searchId_cases hsmall (c := ⟨db, some db⟩) rfl Task.active with
    ⟨t, -, -, hsearch, hpos⟩ | ⟨hsearch, hnone⟩
  · rw [hsearch, if_pos hpos]
    exact .inl ⟨rfl, fun r h => by cases h⟩
  · rw [hsearch, if_neg (by omega)]
    unfold reserve
    split
    · exact .inl (herror _ rfl)
    split
    · exact .inl (herror _ rfl)
    split
    · exact .inl (herror _ rfl)
    rename_i revision hrevision
    split
    · exact .inl (herror _ rfl)
    split
    · exact .inl (herror _ rfl)
    · exact .inr ⟨revision, hrevision, by omega, hnone, rfl⟩

/-- **The exits of the begin**, when both searches are answered: a refusal, or a reservation, with no
    active task and no task of the key. -/
theorem revisionBegin_cases (hsmall : SmallIds db) (key : String)
    (hexisting : a.existingStep = .done) (hactive : a.activeStep = .done) :
    Refused db (revisionBegin db key a) ∨
    ∃ r, db.nextRevision = some r ∧ 0 < r ∧ (∀ t ∈ db.tasks.rows, t.active = false) ∧
      (key ≠ "" → ∀ t ∈ db.tasks.rows, t.hasKey key = false) ∧
      revisionBegin db key a =
        (⟨db, some { db with nextRevision := some (min (r + 1) INT64_MAX) }⟩, .ready r) := by
  unfold revisionBegin
  split
  · exact .inl ⟨rfl, fun r h => by cases h⟩
  by_cases hkey : key = ""
  · rw [if_pos hkey]
    rcases exclude_cases hsmall hactive with hrefused | ⟨r, hr, hpos, hnone, heq⟩
    · exact .inl hrefused
    · exact .inr ⟨r, hr, hpos, hnone, fun h => absurd hkey h, heq⟩
  · rw [if_neg hkey]
    split
    · exact .inl ⟨rfl, fun r h => by cases h⟩
    rw [hexisting]
    have hafter : (⟨db, some db⟩ : Conn).after .done = ⟨db, some db⟩ := rfl
    simp only [hafter]
    rcases searchId_cases hsmall (c := ⟨db, some db⟩) rfl (Task.hasKey key) with
      ⟨t, -, -, hsearch, hpos⟩ | ⟨hsearch, hnokey⟩
    · rw [hsearch, if_pos hpos]
      exact .inl ⟨rfl, fun r h => by cases h⟩
    · rw [hsearch, if_neg (by omega)]
      rcases exclude_cases hsmall hactive with hrefused | ⟨r, hr, hpos, hnone, heq⟩
      · exact .inl hrefused
      · exact .inr ⟨r, hr, hpos, hnone, fun _ => hnokey, heq⟩

variable {t : Task} {key : String}

/-- The begin finds the task of a key. -/
theorem revisionBegin_replay (hsmall : SmallIds db) (hkey : key ≠ "")
    (hone : db.tasks.rows.countP (Task.hasKey key) ≤ 1) (ht : t ∈ db.tasks.rows)
    (htkey : t.idempotencyKey = some key) (hexisting : a.existingStep = .done) :
    (revisionBegin db key a).1.committed = db ∧
      ((revisionBegin db key a).2 = .error ∨ (revisionBegin db key a).2 = .replay t.id) := by
  have hhas : t.hasKey key = true := by simpa [Task.hasKey] using htkey
  unfold revisionBegin
  split
  · exact ⟨rfl, .inl rfl⟩
  split
  · exact ⟨rfl, .inl rfl⟩
  rw [hexisting]
  rcases searchId_cases hsmall (c := ⟨db, some db⟩) rfl (Task.hasKey key) with
    ⟨t', ht', hhas', hsearch, hpos⟩ | ⟨-, hnokey⟩
  · -- it is the only one with this key
    have hsame : t' = t := eq_of_countP_le_one hone ht' hhas' ht hhas
    simp only [hsearch, if_pos hpos]
    exact ⟨rfl, .inr (by rw [hsame])⟩
  · rw [hnokey t ht] at hhas
    cases hhas

/-- **A creation** leaves the database as it is, or inserts a task with the next revision when no task
    is active and none has the key. -/
theorem createTask_cases (hsmall : SmallIds db) (key : String) {a : CreateAnswers}
    (hexisting : a.start.existingStep = .done) (hactive : a.start.activeStep = .done) :
    (createTask db key a).1 = db ∨
    ∃ r, db.nextRevision = some r ∧ 0 < r ∧ (∀ t ∈ db.tasks.rows, t.active = false) ∧
      (key ≠ "" → ∀ t ∈ db.tasks.rows, t.hasKey key = false) ∧
      (createTask db key a).1 = db.created key r := by
  unfold createTask
  rcases revisionBegin_cases hsmall key hexisting hactive with
    ⟨hcommitted, hready⟩ | ⟨r, hr, hpos, hnone, hnokey, heq⟩
  · revert hcommitted hready
    generalize revisionBegin db key a.start = out
    obtain ⟨c, result⟩ := out
    intro hcommitted hready
    cases result with
    | error => exact .inl hcommitted
    | replay id => exact .inl hcommitted
    | active id => exact .inl hcommitted
    | ready r => exact absurd rfl (hready r)
  · rw [heq]
    simp only []
    split
    · refine .inl ?_
      cases a.insert <;> rfl
    split
    · exact .inl rfl
    cases hcommit : a.commit with
    | done => exact .inr ⟨r, hr, hpos, hnone, hnokey, rfl⟩
    | error => exact .inl rfl
    | abort => exact .inl rfl

/-! ### The invariant -/

/-- The state behind at most `n` creations. -/
structure Inv (n : ℕ) (db : Db) : Prop where
  sequenced : Sequenced db
  ids : ∀ t ∈ db.tasks.rows, 0 < t.id
  last : 0 ≤ db.lastId ∧ db.lastId ≤ n
  next : ∃ r, db.nextRevision = some r ∧ 0 < r ∧ r ≤ n + 1 ∧
    ∀ t ∈ db.tasks.rows, ∃ r', t.configRevision = some r' ∧ r' < r

theorem Inv.mono {n m : ℕ} (h : Inv n db) (hle : n ≤ m) : Inv m db := by
  obtain ⟨r, hr, hpos, hlt, hall⟩ := h.next
  exact ⟨h.sequenced, h.ids, ⟨h.last.1, by have := h.last.2; omega⟩, r, hr, hpos, by omega, hall⟩

variable {n : ℕ}

theorem Inv.smallIds (h : Inv n db) (hn : n < 2147483648) : SmallIds db := by
  intro t ht
  have hle := db.id_le t ht
  have hlast := h.last.2
  exact ⟨h.ids t ht, by omega⟩

/-- An update that gives no task another revision or key and activates none. -/
theorem Inv.update (h : Inv n db) {f : Task → Task}
    (hid : ∀ t, (f t).id = t.id) (hrevision : ∀ t, (f t).configRevision = t.configRevision)
    (hkey : ∀ t, (f t).idempotencyKey = t.idempotencyKey)
    (hactive : ∀ t, p t = true → (f t).active = true → t.active = true) :
    Inv n (db.update p f hid) := by
  obtain ⟨r, hr, hpos, hlt, hall⟩ := h.next
  have hid' : ∀ t, (if p t then f t else t).id = t.id := by
    intro t
    split
    · exact hid t
    · rfl
  have hrevision' : ∀ t, (if p t then f t else t).configRevision = t.configRevision := by
    intro t
    split
    · exact hrevision t
    · rfl
  have hkey' : ∀ key t, (if p t then f t else t).hasKey key = t.hasKey key := by
    intro key t
    split
    · rw [Task.hasKey, Task.hasKey, hkey t]
    · rfl
  have hactive' : ∀ t, (if p t then f t else t).active = true → t.active = true := by
    intro t
    split
    · next hp => exact hactive t hp
    · exact id
  refine ⟨⟨?_, ?_, ?_⟩, ?_, h.last, r, hr, hpos, hlt, ?_⟩
  · show (db.tasks.rows.map _).Pairwise _
    rw [pairwise_map]
    apply h.sequenced.revisions.imp
    intro t t' hlt
    rw [hrevision', hrevision']
    exact hlt
  · show (db.tasks.rows.map _).countP _ ≤ 1
    rw [countP_map]
    refine Nat.le_trans (countP_mono_left fun t _ ht => ?_) h.sequenced.active
    exact hactive' t ht
  · intro key hne
    show (db.tasks.rows.map _).countP _ ≤ 1
    rw [countP_map]
    refine Nat.le_trans (countP_mono_left fun t _ ht => ?_) (h.sequenced.keys key hne)
    rw [← hkey' key t]
    exact ht
  · intro t ht
    obtain ⟨t', ht', rfl⟩ := List.mem_map.mp ht
    rw [hid']
    exact h.ids t' ht'
  · intro t ht
    obtain ⟨t', ht', rfl⟩ := List.mem_map.mp ht
    rw [hrevision']
    exact hall t' ht'

/-- A creation that succeeds. -/
theorem Inv.created (h : Inv n db) (hn : n < 2147483648) {r : ℤ}
    (hr : db.nextRevision = some r) (hnone : ∀ t ∈ db.tasks.rows, t.active = false)
    (hnokey : key ≠ "" → ∀ t ∈ db.tasks.rows, t.hasKey key = false) :
    Inv (n + 1) (db.created key r) := by
  obtain ⟨r', hr', hpos, hlt, hall⟩ := h.next
  cases hr.symm.trans hr'
  have hrows : (db.created key r).tasks.rows = db.tasks.rows ++ [newTask (db.lastId + 1) key r] :=
    rfl
  have hmax : min (r + 1) INT64_MAX = r + 1 := by
    unfold INT64_MAX
    omega
  have hlast := h.last
  refine ⟨⟨?_, ?_, ?_⟩, ?_, ?_, r + 1, ?_, by omega, by omega, ?_⟩
  · rw [hrows, pairwise_append]
    refine ⟨h.sequenced.revisions, pairwise_singleton _ _, ?_⟩
    intro t ht t' ht'
    obtain ⟨r₀, hr₀, hlt₀⟩ := hall t ht
    rw [mem_singleton.mp ht']
    exact ⟨r₀, r, hr₀, rfl, hlt₀⟩
  · have hzero : db.tasks.rows.countP Task.active = 0 := by
      rw [countP_eq_zero]
      intro t ht
      simp [hnone t ht]
    rw [hrows, countP_append, hzero, Nat.zero_add]
    exact countP_le_length
  · intro key' hne
    rw [hrows, countP_append]
    by_cases hsame : key' = key
    · have hzero : db.tasks.rows.countP (Task.hasKey key') = 0 := by
        rw [countP_eq_zero]
        intro t ht
        rw [hsame, hnokey (hsame ▸ hne) t ht]
        exact Bool.false_ne_true
      rw [hzero, Nat.zero_add]
      exact countP_le_length
    · -- the new task has another key
      have hother : (newTask (db.lastId + 1) key r).hasKey key' = false := by
        simp [Task.hasKey, newTask, Ne.symm hsame]
      rw [countP_singleton, hother]
      exact h.sequenced.keys key' hne
  · intro t ht
    rw [hrows] at ht
    rcases mem_append.mp ht with ht | ht
    · exact h.ids t ht
    · rw [mem_singleton.mp ht]
      show 0 < db.lastId + 1
      omega
  · show 0 ≤ db.lastId + 1 ∧ db.lastId + 1 ≤ ((n + 1 : ℕ) : ℤ)
    omega
  · show some (min (r + 1) INT64_MAX) = some (r + 1)
    rw [hmax]
  · intro t ht
    rw [hrows] at ht
    rcases mem_append.mp ht with ht | ht
    · obtain ⟨r₀, hr₀, hlt₀⟩ := hall t ht
      exact ⟨r₀, hr₀, by omega⟩
    · rw [mem_singleton.mp ht]
      exact ⟨r, rfl, by omega⟩

/-- The invariant is about the rows, the sequence and the last id. -/
theorem Inv.congr {db db' : Db} (h : Inv n db) (htasks : db'.tasks = db.tasks)
    (hnext : db'.nextRevision = db.nextRevision) (hlast : db'.lastId = db.lastId) : Inv n db' := by
  refine ⟨⟨?_, ?_, ?_⟩, ?_, ?_, ?_⟩
  · rw [htasks]
    exact h.sequenced.revisions
  · rw [htasks]
    exact h.sequenced.active
  · rw [htasks]
    exact h.sequenced.keys
  · rw [htasks]
    exact h.ids
  · rw [hlast]
    exact h.last
  · rw [hnext, htasks]
    exact h.next

theorem Claim.active_of_selects {c : Claim} (h : c.selects t = true) : t.active = true := by
  unfold Claim.selects at h
  rw [decide_eq_true_iff] at h
  obtain ⟨-, -, hp | ⟨hr, -⟩⟩ := h
  · simp [Task.active, hp]
  · simp [Task.active, hr]

theorem Finish.active_of_selects {f : Finish} (h : f.selects t = true) : t.active = true := by
  unfold Finish.selects at h
  rw [decide_eq_true_iff] at h
  simp [Task.active, h.1]

/-- **The step lemma.** -/
theorem Inv.step (h : Inv n db) (hn : n < 2147483648) {e : Event}
    (he : e.Answered) : Inv (n + 1) (step db e) := by
  have hmono := h.mono (Nat.le_succ n)
  cases e with
  | create key a =>
    show Inv (n + 1) (createTask db key a).1
    rcases createTask_cases (h.smallIds hn) key he.1 he.2 with hsame | ⟨r, hr, -, hnone, hnokey, hnew⟩
    · rw [hsame]
      exact hmono
    · rw [hnew]
      exact h.created hn hr hnone hnokey
  | claim sqlite c =>
    have htasks : (rollbackClaim sqlite db.tasks c).1 = db.tasks ∨
        (rollbackClaim sqlite db.tasks c).1 =
          (db.update (fun t => t.id = c.taskId ∧ c.selects t) c.set fun _ => rfl).tasks := by
      unfold rollbackClaim
      split
      · exact .inl rfl
      split
      · exact .inl rfl
      · exact .inr rfl
    rcases htasks with hsame | hupdate
    · exact hmono.congr hsame rfl rfl
    have hupdated : Inv (n + 1)
        (db.update (fun t => t.id = c.taskId ∧ c.selects t) c.set fun _ => rfl) := by
      apply hmono.update (f := c.set) (fun _ => rfl) (fun _ => rfl) (fun _ => rfl)
      intro t hp _
      have hsel : t.id = c.taskId ∧ c.selects t = true := by simpa using hp
      exact Claim.active_of_selects hsel.2
    exact hupdated.congr hupdate rfl rfl
  | finish sqlite f =>
    have htasks : (rollbackFinish sqlite db.tasks f).1 = db.tasks ∨
        (rollbackFinish sqlite db.tasks f).1 =
          (db.update (fun t => t.id = f.taskId ∧ f.selects t) f.set fun _ => rfl).tasks := by
      unfold rollbackFinish
      split
      · exact .inl rfl
      split
      · exact .inl rfl
      · exact .inr rfl
    rcases htasks with hsame | hupdate
    · exact hmono.congr hsame rfl rfl
    have hupdated : Inv (n + 1)
        (db.update (fun t => t.id = f.taskId ∧ f.selects t) f.set fun _ => rfl) := by
      apply hmono.update (f := f.set) (fun _ => rfl) (fun _ => rfl) (fun _ => rfl)
      intro t hp _
      have hsel : t.id = f.taskId ∧ f.selects t = true := by simpa using hp
      exact Finish.active_of_selects hsel.2
    exact hupdated.congr hupdate rfl rfl
  | settle id state hstate =>
    apply hmono.update (f := fun t => { t with state := state }) (fun _ => rfl) (fun _ => rfl)
      (fun _ => rfl)
    intro t _ hactive
    have hcases : state = PENDING ∨ state = ROLLING_BACK := by simpa [Task.active] using hactive
    rcases hcases with hp | hr
    · exact absurd hp hstate.1
    · exact absurd hr hstate.2

theorem inv_fresh : Inv 0 Db.fresh := by
  refine ⟨⟨List.Pairwise.nil, Nat.zero_le _, fun _ _ => Nat.zero_le _⟩, ?_, ?_, 1, rfl, ?_, ?_, ?_⟩
  · intro t ht
    cases ht
  · exact ⟨Int.le_refl 0, Int.le_refl 0⟩
  · decide
  · decide
  · intro t ht
    cases ht

/-- **The run lemma.** -/
theorem inv_run (es : List Event) (hlen : es.length ≤ 2147483648) (hes : ∀ e ∈ es, e.Answered) :
    Inv es.length (run es) := by
  induction es using List.reverseRecOn with
  | nil => exact inv_fresh
  | append_singleton es e ih =>
    rw [length_append, length_singleton] at hlen ⊢
    rw [run, foldl_append]
    have hfront := ih (by omega) fun e' he' => hes e' (mem_append_left _ he')
    exact hfront.step (by omega) (hes e (by simp))

def confirmFirst : Event := .settle 1 "confirmed" (by decide)

/-- The second creation has the key of the first task. -/
def replayed : List Event := [.create "k" {}, confirmFirst, .create "k" {}]

/-- The search for the key fails in the second creation. -/
def unanswered : List Event :=
  [.create "k" {}, confirmFirst, .create "k" { start := { existingStep := .error } }]

end DreamingOS.SafeOps
