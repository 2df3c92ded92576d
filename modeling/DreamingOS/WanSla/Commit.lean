import DreamingOS.Lib.Table
import DreamingOS.WanSla.Plan

namespace DreamingOS.WanSlaTx

/-!
# WAN SLA configuration — the conditional commit

`flowd_wan_sla_commit`: one SQLite transaction that answers a known receipt, or checks the plan
again, writes it, reads it back and files a receipt.

* `Row`, `Receipt`, `Db` — the two tables, each with its primary key;
* `Env` — what a call finds outside these tables, and which SQLite steps fail in it;
* `preview` — the checks of a request and its canonical plan;
* `writePlan`, `readbackMatches` — the write, and the comparison behind it;
* `commit` — the answer and the tables after it; a transaction that fails leaves them as they were.
-/

variable {D : Type}

/-! ### The tables -/

/-- A row of `flowd_wan_health`. -/
structure Row where
  id : String
  fields : PlanFields
  (targetsJson profileJson : List UInt8)
  (revision createdAt updatedAt : ℤ)

/-- A row of `flowd_wan_sla_commit_receipt`. -/
structure Receipt where
  id : String
  expectedRevision : ℤ
  digest : String
  (planJson responseJson : List UInt8)
  createdAt : ℤ

def Receipt.key (r : Receipt) : String × ℤ × String := (r.id, r.expectedRevision, r.digest)

abbrev Rows := Table Row.id

structure Db where
  rows : Rows
  receipts : Table Receipt.key

/-- The SQLite steps of a commit that can fail. -/
inductive Fault where
  | schema
  | begin
  | receiptPrepare
  | receiptQuery
  | previewSchema
  | loadExisting
  | capacityQuery
  | write
  | loadReadback
  | insertReceipt
  | commit

/-- What a call finds outside the two tables. -/
structure Env (D : Type) where
  now : ℤ
  /-- The id that `flowd_make_id` makes. -/
  newId : String
  /-- `sla_wan_exists`. -/
  wanExists : String → Bool
  /-- `flowd_wan_sla_shadow_ready`. -/
  shadowReady : Bool
  /-- `flowd_wan_sla_dry_probe_matches`. -/
  dryProbeMatches : Json D → Bool
  fails : Fault → Bool

/-- `sla_error`. -/
structure SlaError where
  (code message : String)
  status : ℕ

/-- The revision that is stored for an id, 0 where it has no row. -/
def storedRevision (rows : Rows) (id : String) : ℤ :=
  match rows.find id with
  | some row => row.revision
  | none => 0

/-! ### Reading a rule -/

/-- The members of a row that `wan_sla_config_load` reads without parsing them. -/
def Row.members (r : Row) (targets : List (Json D)) : List (String × Json D) :=
  [("id", .str r.id), ("name", .str r.fields.name), ("enabled", .bool r.fields.enabled),
    ("wan", .str r.fields.wan), ("method", .str r.fields.method), ("targets", .arr targets),
    ("interval_s", .int r.fields.intervalS), ("timeout_ms", .int r.fields.timeoutMs),
    ("loss_threshold_pct", .int r.fields.lossThresholdPct),
    ("latency_threshold_ms", .int r.fields.latencyThresholdMs),
    ("fail_count", .int r.fields.failCount), ("recover_count", .int r.fields.recoverCount),
    ("remark", .str r.fields.remark), ("revision", .int r.revision),
    ("created_at", .int r.createdAt), ("updated_at", .int r.updatedAt)]

/-- `wan_sla_config_load` of a row. -/
def load (c : JsonC D) (r : Row) : Option (Json D) := do
  let targets ← (c.parse r.targetsJson).bind Json.items
  let stored ← c.parse r.profileJson
  guard stored.isObject
  let profile ← profileNormalize c (some stored) none targets.length
  return .obj (Json.setAll (r.members targets) profile.members)

/-- `sla_load`. -/
def slaLoad (c : JsonC D) (fails : Bool) (rows : Rows) (id : String) : Option (Json D) :=
  if fails then none else (rows.find id).bind (load c)

/-! ### The preview -/

/-- What `flowd_wan_sla_preview` answers. -/
structure Preview (D : Type) where
  (ready dryProbeRequired : Bool)
  (operation resourceId : String)
  expectedRevision : ℤ
  planDigest : String
  plan : Plan D

/-- Whether a plan asks for an enabled rule. -/
def Plan.enabled (c : JsonC D) (plan : Plan D) : Bool := jsonBool c plan.json "enabled" false

/-- The part of the preview behind the checks of the revision. -/
def previewPlan (c : JsonC D) (env : Env D) (body : Json D) (operation id : String)
    (expectedRevision : ℤ) (existing : Option (Json D)) : Except SlaError (Preview D) :=
  match slaPlan c env.wanExists body operation existing expectedRevision with
  | none => .error ⟨"invalid_request", "WAN SLA fields are invalid", 400⟩
  | some plan =>
    if plan.enabled c &&
        (!env.shadowReady || jsonStr plan.json "action_mode" "observe" ≠ "observe") then
      .error ⟨"runtime_unavailable", "enabled WAN SLA currently requires the observe sampler", 409⟩
    else
      let ready := !plan.enabled c || env.dryProbeMatches plan.json
      let dryProbeRequired := plan.enabled c
      let resourceId := id
      let planDigest := slaDigest c operation expectedRevision plan.json
      .ok { ready, dryProbeRequired, operation, resourceId, expectedRevision, planDigest, plan }

/-- The revision of the rule that is there. -/
def actualRevision (existing : Json D) : ℤ := (int64Required existing "revision").getD 0

/-- The part of the preview behind the checks of the id. -/
def previewExisting (c : JsonC D) (env : Env D) (body : Json D) (operation id : String)
    (expectedRevision : ℤ) (existing : Option (Json D)) : Except SlaError (Preview D) :=
  if (existing.isNone && expectedRevision ≠ 0) ||
      existing.any fun rule => actualRevision rule ≠ expectedRevision then
    .error ⟨"revision_conflict", "WAN SLA revision changed", 409⟩
  else if operation = "delete" ∧ existing.isNone then
    .error ⟨"not_found", "WAN SLA does not exist", 404⟩
  else previewPlan c env body operation id expectedRevision existing

/-- The request and its id; a create without an id gets a new one. -/
def nameRequest (env : Env D) (body : Json D) (operation : String) (expectedRevision : ℤ) :
    Json D × String :=
  if jsonStr body "id" "" = "" ∧ operation = "upsert" ∧ expectedRevision = 0 then
    (body.add "id" (.str env.newId), env.newId)
  else (body, jsonStr body "id" "")

/-- `flowd_wan_sla_preview`. -/
def preview (c : JsonC D) (env : Env D) (rows : Rows) (body : Json D) :
    Except SlaError (Preview D) :=
  let operation := jsonStr body "operation" "upsert"
  if env.fails .previewSchema then
    .error ⟨"source_unavailable", "config database unavailable", 503⟩
  else if operation ≠ "upsert" ∧ operation ≠ "delete" then
    .error ⟨"invalid_operation", "operation must be upsert or delete", 400⟩
  else
    match int64Required body "expected_revision" with
    | none => .error ⟨"expected_revision_required", "expected_revision is required", 422⟩
    | some expectedRevision =>
      if expectedRevision < 0 ∨ expectedRevision = 2 ^ 63 - 1 then
        .error ⟨"expected_revision_required", "expected_revision is required", 422⟩
      else
        let named := nameRequest env body operation expectedRevision
        if !idOk named.2 then .error ⟨"invalid_id", "WAN SLA id is invalid", 400⟩
        else previewExisting c env named.1 operation named.2 expectedRevision
          (slaLoad c (env.fails .loadExisting) rows named.2)

/-! ### The write -/

/-- The rows with an id at a revision. -/
def atRevision (id : String) (revision : ℤ) (r : Row) : Bool := r.id = id ∧ r.revision = revision

/-- The `UPDATE` of the fields, which also disables the rule. -/
def Row.rewrite (r : Row) (u : Upsert D) (targetsJson : List UInt8) (now : ℤ) : Row :=
  { r with
    fields := { u.fields with enabled := false }
    targetsJson := targetsJson
    revision := r.revision + 1
    updatedAt := now }

theorem Row.rewrite_id (u : Upsert D) (targetsJson : List UInt8) (now : ℤ) (r : Row) :
    (r.rewrite u targetsJson now).id = r.id := rfl

/-- The row that the `INSERT` makes. -/
def Row.create (u : Upsert D) (targetsJson : List UInt8) (now : ℤ) : Row where
  id := u.id
  fields := { u.fields with enabled := false }
  targetsJson := targetsJson
  profileJson := utf8 "{}"
  revision := 1
  createdAt := now
  updatedAt := now

/-- The second `UPDATE`: the profile, and whether the rule is enabled. -/
def Row.setProfile (r : Row) (enabled : Bool) (profileJson : List UInt8) : Row :=
  { r with
    fields := { r.fields with enabled := enabled }
    profileJson := profileJson }

theorem Row.setProfile_id (enabled : Bool) (profileJson : List UInt8) (r : Row) :
    (r.setProfile enabled profileJson).id = r.id := rfl

/-- The fields of an upsert: a new row at revision 0, else the row at the expected revision. -/
def writeFields (c : JsonC D) (now : ℤ) (rows : Rows) (u : Upsert D) (expectedRevision : ℤ) :
    Option Rows :=
  let targetsJson := c.print (.arr u.targets)
  if expectedRevision = 0 then
    if h : (Row.create u targetsJson now).id ∉ rows.rows.map Row.id then
      some (rows.insert (Row.create u targetsJson now) h)
    else none
  else if rows.count (atRevision u.id expectedRevision) = 1 then
    some (rows.update (atRevision u.id expectedRevision) (·.rewrite u targetsJson now)
      (Row.rewrite_id u targetsJson now))
  else none

/-- The profile of an upsert. -/
def writeProfile (c : JsonC D) (rows : Rows) (u : Upsert D) : Option Rows :=
  match profileNormalize c (some u.json) none u.targets.length with
  | none => none
  | some profile =>
    if rows.count (fun r => r.id = u.id) = 1 then
      some (rows.update (fun r => r.id = u.id)
        (·.setProfile u.fields.enabled (c.print (.obj profile.members)))
        (Row.setProfile_id u.fields.enabled (c.print (.obj profile.members))))
    else none

/-- `sla_write_plan`; `none` is its `-1`. -/
def writePlan (c : JsonC D) (now : ℤ) (rows : Rows) (plan : Plan D) (expectedRevision : ℤ) :
    Option Rows :=
  match plan with
  | .delete id =>
    if rows.count (atRevision id expectedRevision) = 1 then
      some (rows.delete (atRevision id expectedRevision))
    else none
  | .upsert u => (writeFields c now rows u expectedRevision).bind fun rows => writeProfile c rows u

/-- The targets and the profile of `sla_readback_matches`. -/
def profileMatches (c : JsonC D) (plan readback : Json D) : Bool :=
  match plan.get "targets", readback.get "targets" with
  | some (.arr planTargets), some (.arr readTargets) =>
    c.equal (.arr planTargets) (.arr readTargets) &&
      match profileNormalize c (some plan) none planTargets.length,
        profileNormalize c (some readback) none readTargets.length with
      | some a, some b => c.equal (.obj a.members) (.obj b.members)
      | _, _ => false
  | _, _ => false

/-- `sla_readback_matches`. -/
def readbackMatches (c : JsonC D) (plan : Json D) (readback : Option (Json D))
    (expectedRevision : ℤ) : Bool :=
  match readback with
  | none => false
  | some readback =>
    jsonBool c readback "enabled" true == jsonBool c plan "enabled" false &&
      (["id", "name", "wan", "method", "remark"].all fun key =>
        jsonStr plan key "" == jsonStr readback key "") &&
      (["interval_s", "timeout_ms", "loss_threshold_pct", "latency_threshold_ms", "fail_count",
        "recover_count"].all fun key => jsonInt c plan key (-1) == jsonInt c readback key (-2)) &&
      profileMatches c plan readback &&
      int64Required readback "revision" =
        some (if expectedRevision = 0 then 1 else expectedRevision + 1)

/-! ### The commit -/

/-- The answer to a commit: an error, the recorded response, or the response of a commit that has
    just taken effect. -/
inductive Answer (D : Type) where
  | error (e : SlaError)
  | replayed (out : Json D)
  | committed (out : Json D)

/-- What a commit reads from its body before it opens the transaction. -/
structure Request (D : Type) where
  provided : String
  expectedRevision : ℤ
  (submitted body : Json D)
  (operation id : String)

/-- Whether a member of the body contradicts the plan. -/
def contradicts (body : Json D) (key value : String) : Bool :=
  jsonStr body key "" ≠ "" && jsonStr body key "" ≠ value

/-- The checks in front of the transaction. -/
def readRequest (c : JsonC D) (body : Json D) : Except SlaError (Request D) :=
  if jsonStr body "plan_digest" "" = "" then
    .error ⟨"plan_digest_required", "plan_digest is required", 422⟩
  else
    match int64Required body "expected_revision" with
    | none => .error ⟨"expected_revision_required", "expected_revision is required", 422⟩
    | some expectedRevision =>
      match body.get "plan" with
      | some (.obj ms) =>
        match c.parse (c.print (.obj ms)) with
        | some (.obj copy) =>
          let request := (Json.obj copy).add "expected_revision" (.int expectedRevision)
          let operation := jsonStr request "operation" "upsert"
          let id := jsonStr request "id" ""
          if contradicts body "id" id || contradicts body "operation" operation then
            .error ⟨"plan_conflict", "path or operation differs from canonical plan", 422⟩
          else .ok ⟨jsonStr body "plan_digest" "", expectedRevision, .obj ms, request, operation, id⟩
        | _ => .error ⟨"invalid_plan", "canonical preview plan is invalid", 400⟩
      | _ => .error ⟨"plan_required", "the canonical preview plan is required", 422⟩

/-- `sla_capabilities`. -/
def capabilities (env : Env D) : Json D :=
  .obj [("list", .bool true), ("create", .bool true), ("update", .bool true),
    ("delete", .bool true), ("preview", .bool true), ("conditional_write", .bool true),
    ("expected_revision_required", .bool true), ("plan_digest_required", .bool true),
    ("runtime_evaluation", .bool false), ("runtime_apply", .bool false),
    ("runtime_reason", .str "wan_sla_shadow_validation_pending"),
    ("shadow_sampler", .bool env.shadowReady), ("automatic_actions", .bool false)]

/-- The response of a commit that takes effect. -/
def response (env : Env D) (request : Request D) (readback : Option (Json D)) : Json D :=
  .obj ([("ok", .bool true), ("contract_version", .str "wan-sla.v2"), ("ts", .int env.now),
    ("operation", .str request.operation), ("resource_id", .str request.id),
    ("applied", .bool true), ("runtime_applied", .bool false),
    ("runtime_reason", .str "observe_mode"), ("plan_digest", .str request.provided)]
    ++ (readback.map fun r => ("readback", r)).toList
    ++ [("capabilities", capabilities env), ("replayed", .bool false)])

/-- The answer from a receipt. -/
def replay (c : JsonC D) (receipt : Receipt) (submitted : Json D) : Answer D :=
  if (c.parse receipt.planJson).any fun prior => c.equal prior submitted then
    match c.parse receipt.responseJson with
    | some out => .replayed (out.add "replayed" (.bool true))
    | none => .error ⟨"source_unavailable", "commit receipt is invalid", 503⟩
  else .error ⟨"plan_conflict", "submitted plan does not match receipt", 422⟩

/-- The checks of a plan that enables its rule. -/
def refusal (c : JsonC D) (env : Env D) (rows : Rows) (id : String) (plan : Plan D) :
    Option SlaError :=
  if plan.enabled c then
    if !env.dryProbeMatches plan.json then
      some ⟨"dry_probe_required", "run test on this canonical plan before enabling", 409⟩
    else if env.fails .capacityQuery ||
        rows.count (fun r => r.fields.enabled && r.id ≠ id) ≥ 32 then
      some ⟨"sampler_capacity", "at most 32 enabled SLA rules are supported", 409⟩
    else none
  else none

/-- The receipt of a commit. -/
def Receipt.of (c : JsonC D) (env : Env D) (request : Request D) (plan : Plan D) (out : Json D) :
    Receipt where
  id := request.id
  expectedRevision := request.expectedRevision
  digest := request.provided
  planJson := c.print plan.json
  responseJson := c.print out
  createdAt := env.now

/-- The receipt, and the end of the transaction. -/
def finish (c : JsonC D) (env : Env D) (db : Db) (rows : Rows) (request : Request D)
    (plan : Plan D) (out : Json D) : Answer D × Db :=
  if h : (Receipt.of c env request plan out).key ∈ db.receipts.rows.map Receipt.key ∨
      env.fails .insertReceipt ∨ env.fails .commit then
    (.error ⟨"commit_failed", "WAN SLA commit was rolled back", 500⟩, db)
  else (.committed out,
    ⟨rows, db.receipts.insert (Receipt.of c env request plan out) (not_or.mp h).1⟩)

/-- The comparison behind the write, and the response. -/
def readBack (c : JsonC D) (env : Env D) (db : Db) (rows : Rows) (request : Request D)
    (plan : Plan D) : Answer D × Db :=
  let readback := slaLoad c (env.fails .loadReadback) rows request.id
  if request.operation ≠ "delete" then
    if readbackMatches c plan.json readback request.expectedRevision then
      finish c env db rows request plan (response env request readback)
    else (.error ⟨"readback_mismatch",
      "WAN SLA write was rolled back after readback mismatch", 500⟩, db)
  else if readback.isSome then
    (.error ⟨"readback_mismatch",
      "WAN SLA delete was rolled back after readback mismatch", 500⟩, db)
  else finish c env db rows request plan (response env request none)

/-- A commit whose key has no receipt. -/
def apply (c : JsonC D) (env : Env D) (db : Db) (request : Request D) : Answer D × Db :=
  match preview c env db.rows request.body with
  | .error e => (.error e, db)
  | .ok p =>
    if request.provided ≠ p.planDigest then
      (.error ⟨"plan_conflict", "submitted plan does not match preview", 422⟩, db)
    else
      match refusal c env db.rows request.id p.plan with
      | some e => (.error e, db)
      | none =>
        match writePlan c env.now db.rows p.plan request.expectedRevision with
        | some rows =>
          if env.fails .write then
            (.error ⟨"revision_conflict", "WAN SLA write conflicted and was rolled back", 409⟩, db)
          else readBack c env db rows request p.plan
        | none =>
          (.error ⟨"revision_conflict", "WAN SLA write conflicted and was rolled back", 409⟩, db)

/-- The transaction of a commit. -/
def transact (c : JsonC D) (env : Env D) (db : Db) (request : Request D) : Answer D × Db :=
  if env.fails .schema then
    (.error ⟨"source_unavailable", "config database unavailable", 503⟩, db)
  else if env.fails .begin then
    (.error ⟨"transaction_busy", "WAN SLA transaction could not start", 409⟩, db)
  else if env.fails .receiptPrepare then
    (.error ⟨"source_unavailable", "commit receipt unavailable", 503⟩, db)
  else if env.fails .receiptQuery then
    (.error ⟨"source_unavailable", "commit receipt query failed", 503⟩, db)
  else
    match db.receipts.find (request.id, request.expectedRevision, request.provided) with
    | some receipt => (replay c receipt request.submitted, db)
    | none => apply c env db request

/-- `flowd_wan_sla_commit`. -/
def commit (c : JsonC D) (env : Env D) (db : Db) (body : Json D) : Answer D × Db :=
  match readRequest c body with
  | .error e => (.error e, db)
  | .ok request => transact c env db request

end DreamingOS.WanSlaTx
