import DreamingOS.Lib.Table
import Mathlib.Data.List.MinMax
import Mathlib.Data.List.Sort
import Mathlib.Algebra.Order.Group.Int

namespace DreamingOS.Metrics

/-!
# Metrics — the byte counters of the WANs

The counters of `jmx_metrics_store.c`, their checkpoints, and what they take up after a restart.

* `Counter`, `Checkpoint`, `Snapshot`, `State` — what is in memory, in the table and in the file;
* `counterFor` — the slot of a WAN, taken where it has none;
* `usageOne`, `usageQuery` — `jmx_metrics_usage_query`, without its ratio and its texts;
* `init`, `close` — a process begins, and ends in order.

Slots are taken in order, and none is given back while the process runs, so that the array is a list.
The statements of SQLite succeed here; the file of the snapshot may fail.
-/

/-- The order of the integers that computes. -/
local instance intOrder : Preorder ℤ := Int.instLinearOrder.toPreorder

/-- The text of an identifier. -/
abbrev WanId := List UInt8

def WAN_CAP : ℕ := 32
def HOUR_SEC : ℤ := 3600
def RETENTION_SEC : ℤ := 31 * 86400
def SNAPSHOT_INTERVAL_SEC : ℤ := 30
def HOT_RETENTION_SEC : ℤ := 900
def COLLECTION_GAP_SEC : ℤ := 300

/-! ### Data -/

/-- `struct counter_state`, of a slot that is active. -/
structure Counter where
  online : Bool := false
  wanId : WanId
  rawRx : UInt64 := 0
  rawTx : UInt64 := 0
  totalRx : UInt64 := 0
  totalTx : UInt64 := 0
  resetCount : ℕ := 0
  firstTs : ℤ := 0
  lastTs : ℤ := 0
  checkpointHour : ℤ := 0
  generation : ℤ := 0

/-- A slot that has just been taken; an identifier has room for 31 bytes. -/
def Counter.blank (id : WanId) : Counter where
  wanId := id.take 31

/-- A row of `counter_checkpoint`. -/
structure Checkpoint where
  bucketTs : ℤ
  wanId : WanId
  (rawRx rawTx totalRx totalTx : UInt64)
  resetCount : ℕ
  counterReset : Bool
  generation : ℤ

/-- The primary key. -/
def Checkpoint.key (r : Checkpoint) : ℤ × WanId := (r.bucketTs, r.wanId)

/-- The counters of a file. -/
structure Snapshot where
  (savedAt generation : ℤ)
  counters : List Counter

structure State where
  counters : List Counter := []
  checkpoints : Table Checkpoint.key := Table.empty
  generation : ℤ := 0
  lastWall : ℤ := 0
  lastSnapshot : ℤ := 0
  snapshot : Option Snapshot := none

/-! ### Slots -/

/-- `counter_for`: the slot of the WAN, or a new one. -/
def counterFor (counters : List Counter) (id : WanId) : Option (ℕ × List Counter) :=
  match counters.findIdx? fun c => c.wanId = id with
  | some i => some (i, counters)
  | none =>
    if counters.length < WAN_CAP then some (counters.length, counters ++ [Counter.blank id]) else none

/-- `metrics_observe_clock`, which does not touch the counters. -/
def observeClock (s : State) (now : ℤ) : State :=
  { s with
    generation :=
      if s.lastWall ≠ 0 ∧ (now < s.lastWall ∨ now - s.lastWall > COLLECTION_GAP_SEC) then now
      else s.generation
    lastWall := now }

/-- Whether the file is written: it is old enough, and nothing fails. -/
def State.saves (s : State) (now : ℤ) (written : Bool) : Bool :=
  ¬ now - s.lastSnapshot < SNAPSHOT_INTERVAL_SEC ∧ written

/-- `metrics_snapshot`; `written` tells whether the file can be. -/
def metricsSnapshot (s : State) (now : ℤ) (written : Bool) : State :=
  if s.saves now written then
    { s with
      snapshot := some ⟨now, s.generation, s.counters.filter fun c => 0 < c.firstTs⟩
      lastSnapshot := now }
  else s

/-! ### Observations -/

/-- The last checkpoint of a WAN. -/
def lastCheckpoint (rows : List Checkpoint) (id : WanId) : Option Checkpoint :=
  (rows.filter fun r => r.wanId = id).argmax Checkpoint.bucketTs

/-- The start of an hour; division truncates. -/
def hourOf (ts : ℤ) : ℤ := ts.tdiv HOUR_SEC * HOUR_SEC

/-- A counter that is new to the process goes on from its last checkpoint. -/
def Counter.seed (c : Counter) (rows : List Checkpoint) (id : WanId) : Counter :=
  if c.firstTs ≠ 0 then c
  else
    match lastCheckpoint rows id with
    | none => c
    | some r =>
      { c with
        rawRx := r.rawRx
        rawTx := r.rawTx
        totalRx := r.totalRx
        totalTx := r.totalTx
        resetCount := r.resetCount
        checkpointHour := hourOf r.bucketTs
        generation := r.generation
        firstTs := r.bucketTs }

/-- A counter has started again. -/
def Counter.restarted (c : Counter) (rx tx : UInt64) : Bool :=
  c.firstTs ≠ 0 ∧ (rx < c.rawRx ∨ tx < c.rawTx)

/-- What is added to a total. -/
def increase (raw bytes : UInt64) : UInt64 := if raw ≤ bytes then bytes - raw else bytes

/-- What an observation makes of the counter, in front of its checkpoint. -/
def Counter.count (c : Counter) (rx tx : UInt64) (now : ℤ) : Counter :=
  if c.firstTs = 0 then
    { c with
      firstTs := now, generation := now, totalRx := rx, totalTx := tx
      rawRx := rx, rawTx := tx, lastTs := now, online := true }
  else
    { c with
      totalRx := c.totalRx + increase c.rawRx rx
      totalTx := c.totalTx + increase c.rawTx tx
      resetCount := if c.restarted rx tx then c.resetCount + 1 else c.resetCount
      generation := if c.restarted rx tx then now else c.generation
      rawRx := rx, rawTx := tx, lastTs := now, online := true }

/-- The row that `write_checkpoint` writes. -/
def Counter.checkpoint (c : Counter) (ts generation : ℤ) (reset : Bool) : Checkpoint where
  bucketTs := ts
  wanId := c.wanId
  rawRx := c.rawRx
  rawTx := c.rawTx
  totalRx := c.totalRx
  totalTx := c.totalTx
  resetCount := c.resetCount
  counterReset := reset
  generation := if c.generation ≠ 0 then c.generation else generation

/-- The new values of a row that exists already. -/
def Checkpoint.overwrite (new r : Checkpoint) : Checkpoint :=
  { new with bucketTs := r.bucketTs, wanId := r.wanId }

theorem Checkpoint.overwrite_key (new r : Checkpoint) : (new.overwrite r).key = r.key := rfl

/-- `write_checkpoint`. -/
def writeCheckpoint (rows : Table Checkpoint.key) (new : Checkpoint) : Table Checkpoint.key :=
  rows.upsert new new.overwrite new.overwrite_key

/-- Whether an observation writes a checkpoint, and as a reset. -/
def Counter.due (c : Counter) (hour : ℤ) (reset : Bool) : Option Bool :=
  if c.checkpointHour = 0 then some false
  else if c.checkpointHour ≠ hour then some reset
  else if reset then some true
  else none

/-- A counter that is online, with the checkpoint that is due. -/
def Counter.observe (c : Counter) (rows : List Checkpoint) (id : WanId) (rx tx : UInt64) (now : ℤ) :
    Counter × Option Bool :=
  let seeded := c.seed rows id
  let counted := seeded.count rx tx now
  (counted, counted.due (hourOf now) (seeded.restarted rx tx))

/-- `jmx_metrics_counter_observe`. -/
def observe (s : State) (id : WanId) (rx tx : UInt64) (online : Bool) (now : ℤ) (written : Bool) :
    State :=
  if id = [] then s
  else
    let s := observeClock s now
    match counterFor s.counters id with
    | none => s
    | some (i, counters) =>
      match counters[i]? with
      | none => s
      | some c =>
        if !online then
          let c := { c with online := false, lastTs := now }
          metricsSnapshot { s with counters := counters.set i c } now written
        else
          match c.observe s.checkpoints.rows id rx tx now with
          | (counted, none) =>
            metricsSnapshot { s with counters := counters.set i counted } now written
          | (counted, some flag) =>
            metricsSnapshot
              { s with
                checkpoints := writeCheckpoint s.checkpoints (counted.checkpoint now s.generation flag)
                counters := counters.set i { counted with checkpointHour := hourOf now } }
              now written

/-! ### Queries -/

/-- A total as SQLite and the query have it. -/
def signed (x : UInt64) : ℤ := x.toInt64.toInt

/-- The row that a period begins with: that of its first second, or else the first one in it. -/
def periodStart (rows : Table Checkpoint.key) (id : WanId) (start stop : ℤ) : Option Checkpoint :=
  (rows.find (start, id)).or
    ((rows.rows.filter fun r => r.wanId = id ∧ start ≤ r.bucketTs ∧ r.bucketTs ≤ stop).argmin
      Checkpoint.bucketTs)

/-- The totals at the end of a period: those of the counter, if it has not been seen since, or those
    of the last row. -/
def periodEnd (s : State) (id : WanId) (stop : ℤ) : ℤ × ℤ × ℕ :=
  let row := match (s.checkpoints.rows.filter fun r => r.wanId = id ∧ r.bucketTs ≤ stop).argmax
      Checkpoint.bucketTs with
    | none => (0, 0, 0)
    | some r => (signed r.totalRx, signed r.totalTx, r.resetCount)
  match s.counters.find? fun c => c.wanId = id with
  | none => row
  | some c =>
    if 0 < c.lastTs ∧ c.lastTs ≤ stop then (signed c.totalRx, signed c.totalTx, c.resetCount) else row

/-- What a query adds up. -/
structure Usage where
  downBytes : ℤ := 0
  upBytes : ℤ := 0
  sampleCount : ℕ := 0
  counterReset : Bool := false
  coverageStart : ℤ := 0

/-- A WAN that is asked for has a slot, or takes one. -/
def takeSlot (s : State) (id : WanId) : State :=
  match counterFor s.counters id with
  | none => s
  | some (_, counters) => { s with counters := counters }

/-- The usage of a WAN over a period, added to that of others. -/
def addUsage (s : State) (id : WanId) (start stop : ℤ) (out : Usage) : Option Usage :=
  match periodStart s.checkpoints id start stop with
  | none => none
  | some b =>
    let (erx, etx, ereset) := periodEnd s id stop
    if b.bucketTs = 0 ∨ etx < signed b.totalTx ∨ erx < signed b.totalRx then none
    else
      some
        { downBytes := out.downBytes + (erx - signed b.totalRx)
          upBytes := out.upBytes + (etx - signed b.totalTx)
          sampleCount := out.sampleCount + 2
          counterReset := out.counterReset || ereset > b.resetCount
          coverageStart :=
            if out.coverageStart = 0 ∨ b.bucketTs > out.coverageStart then b.bucketTs
            else out.coverageStart }

/-- `usage_one`. -/
def usageOne (s : State) (id : WanId) (start stop : ℤ) (out : Usage) : State × Option Usage :=
  (takeSlot s id, addUsage (takeSlot s id) id start stop out)

def GLOBAL : WanId := [0x67, 0x6c, 0x6f, 0x62, 0x61, 0x6c]
def ALL_WANS : WanId := [0x61, 0x6c, 0x6c, 0x5f, 0x77, 0x61, 0x6e, 0x73]
def STAR : WanId := [0x2a]

/-- The WANs that have a checkpoint near a period. -/
def periodWans (rows : List Checkpoint) (start stop : ℤ) : List WanId :=
  ((rows.filter fun r => start - HOUR_SEC ≤ r.bucketTs ∧ r.bucketTs ≤ stop ∧
    r.wanId ≠ GLOBAL).map Checkpoint.wanId).dedup.mergeSort

/-- The usage of several WANs, of those that have one. -/
def usageAll (start stop : ℤ) : List WanId → State → Option Usage → State × Option Usage
  | [], s, out => (s, out)
  | id :: ids, s, out =>
    match usageOne s id start stop (out.getD {}) with
    | (s, none) => usageAll start stop ids s out
    | (s, some out) => usageAll start stop ids s (some out)

/-- `jmx_metrics_usage_query`. -/
def usageQuery (s : State) (id : WanId) (start stop : ℤ) : State × Option Usage :=
  if start ≤ 0 ∨ stop ≤ start then (s, none)
  else if id ∉ [[], GLOBAL, ALL_WANS, STAR] then usageOne s id start stop {}
  else usageAll start stop (periodWans s.checkpoints.rows start stop) s none

/-! ### Processes -/

def isSpace (b : UInt8) : Bool := b = 0x20 ∨ (0x09 ≤ b ∧ b ≤ 0x0d)

/-- An identifier as it is read back from its line: without the space around it.  One with space in
    it, or with an end of line, is not read. -/
def readId (id : WanId) : Option WanId :=
  let core := ((id.dropWhile isSpace).reverse.dropWhile isSpace).reverse
  if 0x0a ∈ id ∨ 0x0d ∈ id ∨ core = [] ∨ core.any isSpace then none else some core

/-- A line of a counter is well formed. -/
def Counter.restorable (c : Counter) (savedAt : ℤ) : Bool :=
  c.wanId ≠ GLOBAL ∧ 0 < c.firstTs ∧ c.firstTs ≤ savedAt ∧ c.firstTs ≤ c.lastTs ∧
    c.lastTs ≤ savedAt ∧ 0 ≤ c.checkpointHour ∧ 0 < c.generation

/-- The counters of a file, `none` where one of its lines is malformed. -/
def restoreCounters (savedAt : ℤ) : List Counter → List Counter → Option (List Counter)
  | [], counters => some counters
  | c :: rest, counters => do
    let id ← readId c.wanId
    let c := { c with wanId := id }
    if !c.restorable savedAt then none
    else
      let (i, counters) ← counterFor counters id
      if counters[i]?.any fun slot => 0 < slot.firstTs then none
      else restoreCounters savedAt rest (counters.set i c)

/-- `metrics_restore_snapshot`: what is taken up from a file that is fresh and well formed. -/
def takenUp (snapshot : Option Snapshot) (now : ℤ) : Option (Snapshot × List Counter) := do
  let file ← snapshot
  if file.generation ≤ 0 ∨ file.savedAt ≤ 0 ∨ file.savedAt < now - HOT_RETENTION_SEC ∨
      file.savedAt > now then none
  else (restoreCounters file.savedAt file.counters []).map (file, ·)

/-- `jmx_metrics_store_init`. -/
def init (rows : Table Checkpoint.key) (snapshot : Option Snapshot) (now : ℤ) : State :=
  let fresh : State := { checkpoints := rows, snapshot := snapshot, generation := now }
  match takenUp snapshot now with
  | none => fresh
  | some (file, counters) =>
    { fresh with
      counters := counters
      generation := file.generation
      lastWall := file.savedAt
      lastSnapshot := file.savedAt }

/-- `jmx_metrics_store_close`: old rows are deleted, and the counters saved. -/
def close (s : State) (now : ℤ) (written : Bool) : State :=
  metricsSnapshot
    { s with
      checkpoints := s.checkpoints.delete fun r => r.bucketTs < now - RETENTION_SEC
      lastSnapshot := 0 }
    now written

end DreamingOS.Metrics
