import DreamingOS.Metrics.Counter

namespace DreamingOS.Metrics

/-!
# Metrics — samples, minutes and five minutes

How `jmx_metrics_store.c` accumulates samples, stores the closed minutes, rolls them up, and takes
over the rows of an older database.

* `Extremes`, `MinuteAcc`, `Bucket`, `Legacy`, `Store` — what is in memory and in the tables;
* `Flush`, `Upkeep` — which statements SQLite carries out;
* `flushClosedMinutes`, `rollUp`, `migrateLegacyBatch`, `maintenance` — the transactions;
* `recordSample` — `jmx_metrics_record_sample`.

The sums and the averages, which are floating point, and the latencies are left out.  A transaction
that fails is rolled back.
-/

def MINUTE_SEC : ℤ := 60
def FIVE_MINUTE_SEC : ℤ := 300
def DAY_SEC : ℤ := 86400
def MIGRATE_BATCH_ROWS : ℕ := 1000

/-- The bucket of a time; division truncates. -/
def bucketOf (resolution ts : ℤ) : ℤ := ts.tdiv resolution * resolution

/-! ### Data -/

/-- The extremes of the two rates. -/
structure Extremes where
  upMin : ℤ := 0
  upMax : ℤ := 0
  downMin : ℤ := 0
  downMax : ℤ := 0

def Extremes.single (up down : ℤ) : Extremes := ⟨up, up, down, down⟩

/-- `MIN` and `MAX` of both. -/
def Extremes.join (e e' : Extremes) : Extremes :=
  ⟨min e.upMin e'.upMin, max e.upMax e'.upMax, min e.downMin e'.downMin, max e.downMax e'.downMax⟩

/-- `struct minute_acc`, of a slot that is active. -/
structure MinuteAcc where
  bucketTs : ℤ
  wanId : WanId
  samples : ℕ := 0
  firstTs : ℤ := 0
  lastTs : ℤ := 0
  rates : Extremes := {}
  connMax : ℤ := 0

/-- Where the values of a bucket are from. -/
inductive Source where
  | nativeCounterRate | legacyRateEstimate | minuteRollup
  deriving DecidableEq

/-- A row of `metric_bucket`. -/
structure Bucket where
  bucketTs : ℤ
  wanId : WanId
  resolution : ℤ
  rates : Extremes
  connectionsMax : ℤ
  sampleCount : ℕ
  (validDuration generation : ℤ)
  estimated : Bool
  source : Source

/-- The primary key. -/
abbrev BucketKey := ℤ × WanId × ℤ

def Bucket.key (r : Bucket) : BucketKey := (r.bucketTs, r.wanId, r.resolution)

/-- A row of `dashboard_activity_sample`, in the older database. -/
structure Legacy where
  (rowid ts : ℤ)
  wanId : WanId
  (upRate downRate connections : ℤ)

structure Store where
  minutes : List (Option MinuteAcc) := List.replicate WAN_CAP none
  buckets : Table Bucket.key := Table.empty
  cursor : Option ℤ := none
  generation : ℤ := 0
  lastWall : ℤ := 0
  lastMaintenanceMinute : ℤ := 0

/-! ### Faults -/

/-- What SQLite does in a flush: whether the transaction begins, which write is the first to fail,
    and whether the `COMMIT` succeeds. -/
structure Flush where
  begins : Bool := true
  failsAt : Option ℕ := none
  commits : Bool := true

/-- What SQLite does in the upkeep: whether the rollup is committed; and of the migration, whether
    the cursor is read, the rows are selected, the transaction begins, where the rows end early,
    which write is the first to fail, whether the new cursor is prepared and written, and whether the
    `COMMIT` succeeds. -/
structure Upkeep where
  rolls : Bool := true
  reads : Bool := true
  selects : Bool := true
  begins : Bool := true
  endsAt : Option ℕ := none
  failsAt : Option ℕ := none
  prepares : Bool := true
  steps : Bool := true
  commits : Bool := true

/-! ### Minutes -/

/-- `metrics_observe_clock`: a gap, or a clock that goes back, drops the minutes. -/
def clock (s : Store) (now : ℤ) : Store :=
  if s.lastWall = 0 then { s with lastWall := now }
  else if now < s.lastWall ∨ now - s.lastWall > COLLECTION_GAP_SEC then
    { s with minutes := s.minutes.map fun _ => none, generation := now, lastWall := now }
  else { s with lastWall := now }

/-- `minute_for`: the slot of the WAN, or the first one that is free. -/
def minuteFor (minutes : List (Option MinuteAcc)) (id : WanId) (bucket : ℤ) :
    Option (ℕ × MinuteAcc) :=
  match minutes.findIdx? fun slot => slot.any fun a => a.wanId = id with
  | some i => (minutes[i]?.join).map (i, ·)
  | none =>
    (minutes.findIdx? Option.isNone).map fun i => (i, { bucketTs := bucket, wanId := id.take 31 })

/-- A sample is added to a minute. -/
def MinuteAcc.add (a : MinuteAcc) (now up down connections : ℤ) : MinuteAcc :=
  if a.samples = 0 then
    { a with
      firstTs := now, lastTs := now, samples := 1, rates := Extremes.single up down
      connMax := connections }
  else
    { a with
      lastTs := now
      samples := a.samples + 1
      rates := a.rates.join (Extremes.single up down)
      connMax := max a.connMax connections }

/-- How long a minute was observed. -/
def MinuteAcc.duration (a : MinuteAcc) : ℤ :=
  min (if a.lastTs > a.firstTs then a.lastTs - a.firstTs + 2 else 2) MINUTE_SEC

/-- The row that `write_minute` writes. -/
def MinuteAcc.bucket (a : MinuteAcc) (generation : ℤ) : Bucket where
  bucketTs := a.bucketTs
  wanId := a.wanId
  resolution := MINUTE_SEC
  rates := a.rates
  connectionsMax := a.connMax
  sampleCount := a.samples
  validDuration := a.duration
  generation := generation
  estimated := false
  source := .nativeCounterRate

/-- `DO UPDATE SET … = excluded.…`, of all the columns outside the key. -/
def Bucket.replace (new r : Bucket) : Bucket :=
  { new with bucketTs := r.bucketTs, wanId := r.wanId, resolution := r.resolution }

theorem Bucket.replace_key (new r : Bucket) : (new.replace r).key = r.key := rfl

/-- The loop of `flush_closed_minutes`: slots are cleared one by one, up to the first write that
    fails. -/
def flushLoop (current generation : ℤ) (failsAt : Option ℕ) :
    List (Option MinuteAcc) → ℕ → Table Bucket.key → List (Option MinuteAcc) × Option (Table Bucket.key)
  | [], _, t => ([], some t)
  | none :: rest, n, t =>
    let (rest, t) := flushLoop current generation failsAt rest n t
    (none :: rest, t)
  | some a :: rest, n, t =>
    if a.bucketTs ≥ current then
      let (rest, t) := flushLoop current generation failsAt rest n t
      (some a :: rest, t)
    else if a.samples = 0 then
      let (rest, t) := flushLoop current generation failsAt rest n t
      (none :: rest, t)
    else if failsAt = some n then (some a :: rest, none)
    else
      let new := a.bucket generation
      let (rest, t) := flushLoop current generation failsAt rest (n + 1)
        (t.upsert new new.replace new.replace_key)
      (none :: rest, t)

/-- `flush_closed_minutes`; a rollback does not bring the slots back. -/
def flushClosedMinutes (s : Store) (current : ℤ) (f : Flush) : Store :=
  if !f.begins then s
  else
    match flushLoop current s.generation f.failsAt s.minutes 0 s.buckets with
    | (minutes, none) => { s with minutes := minutes }
    | (minutes, some buckets) =>
      { s with minutes := minutes, buckets := if f.commits then buckets else s.buckets }

/-! ### Upkeep -/

/-- The minutes that a rollup takes. -/
def Bucket.due (cutoff : ℤ) (r : Bucket) : Bool := r.resolution = MINUTE_SEC ∧ r.bucketTs < cutoff

/-- `GROUP BY (bucket_ts/300)*300,wan_id`. -/
def Bucket.group (r : Bucket) : ℤ × WanId := (bucketOf FIVE_MINUTE_SEC r.bucketTs, r.wanId)

/-- The columns of a group of minutes. -/
def groupRow (g : ℤ × WanId) (first : Bucket) (rest : List Bucket) : Bucket where
  bucketTs := g.1
  wanId := g.2
  resolution := FIVE_MINUTE_SEC
  rates := rest.foldl (fun e r => e.join r.rates) first.rates
  connectionsMax := rest.foldl (fun m r => max m r.connectionsMax) first.connectionsMax
  sampleCount := rest.foldl (fun n r => n + r.sampleCount) first.sampleCount
  validDuration := rest.foldl (fun d r => d + r.validDuration) first.validDuration
  generation := rest.foldl (fun g r => max g r.generation) first.generation
  estimated := rest.foldl (fun e r => e || r.estimated) first.estimated
  source := .minuteRollup

/-- The rows of the groups. -/
def groupRows (due : List Bucket) : List Bucket :=
  (due.map Bucket.group).dedup.filterMap fun g =>
    match due.filter fun r => r.group = g with
    | [] => none
    | first :: rest => some (groupRow g first rest)

/-- The end of the minutes that are rolled up. -/
def rollupCutoff (now : ℤ) : ℤ := bucketOf FIVE_MINUTE_SEC (now - DAY_SEC)

/-- Several rows, each put in or in the place of the one that has its key. -/
def upsertAll (t : Table Bucket.key) (rows : List Bucket) : Table Bucket.key :=
  rows.foldl (fun t new => t.upsert new new.replace new.replace_key) t

/-- The script of `jmx_metrics_store_maintenance`: the minutes are rolled up and deleted, and with
    them the five minutes that are too old. -/
def rollUp (s : Store) (now : ℤ) : Store :=
  let cutoff := rollupCutoff now
  let t := upsertAll s.buckets (groupRows (s.buckets.rows.filter (Bucket.due cutoff)))
  let t := t.delete (Bucket.due cutoff)
  { s with
    buckets := t.delete fun r => r.resolution = FIVE_MINUTE_SEC ∧ r.bucketTs < now - RETENTION_SEC }

/-- The minute of a row of the older database. -/
def Legacy.bucket (r : Legacy) : Bucket where
  bucketTs := bucketOf MINUTE_SEC r.ts
  wanId := r.wanId
  resolution := MINUTE_SEC
  rates := Extremes.single r.upRate r.downRate
  connectionsMax := r.connections
  sampleCount := 1
  validDuration := 10
  generation := 0
  estimated := true
  source := .legacyRateEstimate

/-- A row of the older database is added to a minute that has only such rows. -/
def Legacy.merge (new : Legacy) (r : Bucket) : Bucket :=
  if r.source = .legacyRateEstimate then
    { r with
      rates := r.rates.join (Extremes.single new.upRate new.downRate)
      connectionsMax := max r.connectionsMax new.connections
      sampleCount := r.sampleCount + 1
      validDuration := min 60 (r.validDuration + 10)
      estimated := true }
  else r

theorem Legacy.merge_key (new : Legacy) (r : Bucket) : (new.merge r).key = r.key := by
  unfold Legacy.merge
  split <;> rfl

/-- `ORDER BY rowid`. -/
def Legacy.before (r r' : Legacy) : Prop := r.rowid ≤ r'.rowid

instance : DecidableRel Legacy.before := fun r r' => inferInstanceAs (Decidable (r.rowid ≤ r'.rowid))

instance : Std.Total Legacy.before := ⟨fun r r' => Int.le_total r.rowid r'.rowid⟩

instance : IsTrans Legacy Legacy.before := ⟨fun _ _ _ => Int.le_trans⟩

/-- The rows of a batch, in the order of their identifiers. -/
def batch (legacy : Table Legacy.rowid) (cursor : ℤ) : List Legacy :=
  ((legacy.rows.filter fun r => r.rowid > cursor ∧ r.wanId ≠ GLOBAL).insertionSort
    Legacy.before).take MIGRATE_BATCH_ROWS

/-- The loop of `migrate_legacy_batch`, `none` where a write fails. -/
def migrateLoop (failsAt : Option ℕ) : List Legacy → ℕ → Table Bucket.key → Option (Table Bucket.key)
  | [], _, t => some t
  | r :: rest, n, t =>
    if failsAt = some n then none
    else migrateLoop failsAt rest (n + 1) (t.upsert r.bucket r.merge r.merge_key)

/-- The cursor that is read. -/
def Store.cursorOf (s : Store) (f : Upkeep) : ℤ := if f.reads then s.cursor.getD 0 else 0

/-- The rows of a batch that are read. -/
def Store.rowsOf (s : Store) (legacy : Table Legacy.rowid) (f : Upkeep) : List Legacy :=
  match f.endsAt with
  | none => batch legacy (s.cursorOf f)
  | some n => (batch legacy (s.cursorOf f)).take n

/-- `migrate_legacy_batch`; where the new cursor cannot be prepared, the rows are committed without
    it. -/
def migrateLegacyBatch (s : Store) (legacy : Table Legacy.rowid) (f : Upkeep) : Store :=
  if !f.selects ∨ !f.begins then s
  else
    let rows := s.rowsOf legacy f
    match migrateLoop f.failsAt rows 0 s.buckets with
    | none => s
    | some buckets =>
      if !f.commits ∨ (f.prepares ∧ !f.steps) then s
      else if !f.prepares then { s with buckets := buckets }
      else
        let cursor := (rows.map Legacy.rowid).getLast?.getD (s.cursorOf f)
        { s with buckets := buckets, cursor := some cursor }

/-- `jmx_metrics_store_maintenance`. -/
def maintenance (s : Store) (now : ℤ) (legacy : Table Legacy.rowid) (f : Upkeep) : Store :=
  if !f.rolls then s else migrateLegacyBatch (rollUp s now) legacy f

/-! ### Samples -/

/-- A new minute: the closed ones are flushed, and the upkeep is done, but for the first time. -/
def newMinute (s : Store) (now : ℤ) (f : Flush) (legacy : Table Legacy.rowid) (g : Upkeep) : Store :=
  let minute := bucketOf MINUTE_SEC now
  if s.lastMaintenanceMinute = minute then s
  else
    let s := flushClosedMinutes s minute f
    let s := if 0 < s.lastMaintenanceMinute then maintenance s now legacy g else s
    { s with lastMaintenanceMinute := minute }

/-- The sample is added to the minute of its WAN, which begins anew where it is an older one. -/
def addSample (s : Store) (now : ℤ) (id : WanId) (up down connections : ℤ) : Store :=
  let minute := bucketOf MINUTE_SEC now
  match minuteFor s.minutes id minute with
  | none => s
  | some (i, a) =>
    let a := if a.bucketTs ≠ minute then { bucketTs := minute, wanId := id.take 31 } else a
    { s with minutes := s.minutes.set i (some (a.add now up down connections)) }

/-- `jmx_metrics_record_sample`. -/
def recordSample (s : Store) (now : ℤ) (id : WanId) (up down connections : ℤ) (f : Flush)
    (legacy : Table Legacy.rowid) (g : Upkeep) : Store :=
  if id = [] ∨ id = GLOBAL then s
  else
    addSample (newMinute (clock s now) now f legacy g) now id (max up 0) (max down 0) connections

end DreamingOS.Metrics
