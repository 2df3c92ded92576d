import DreamingOS.Lib.Json
import DreamingOS.WanSla.Evaluate

namespace DreamingOS.WanSlaTx

open WanSla (Member integer maxTargets maxRounds)

/-!
# WAN SLA configuration — the canonical plan

`sla_plan` turns a request into the plan that is written: every field has a value, from the
request, the existing rule or a default, and `wan_sla_profile_normalize` adds the profile.

* `jsonStr`, `jsonInt`, `jsonBool` — a member of a request, or a default;
* `profileNormalize` — the members of the profile, `none` where one is out of its range;
* `slaDigest` — the digest that a client returns with the plan.
-/

variable {D : Type}

/-! ### Reading a request -/

/-- `flowd_json_str`. -/
def jsonStr (o : Json D) (key dflt : String) : String :=
  match o.get key with
  | some (.str s) => cstr s
  | _ => dflt

/-- `flowd_json_int`. -/
def jsonInt (c : JsonC D) (o : Json D) (key : String) (dflt : ℤ) : ℤ :=
  match o.get key with
  | some v => c.getInt v
  | none => dflt

/-- `flowd_json_bool`. -/
def jsonBool (c : JsonC D) (o : Json D) (key : String) (dflt : Bool) : Bool :=
  match o.get key with
  | some v => c.getBool v
  | none => dflt

/-- `sla_json_int64_required`. -/
def int64Required (o : Json D) (key : String) : Option ℤ :=
  match o.get key with
  | some (.int n) => some n
  | _ => none

/-- `flowd_text_ok`. -/
def textOk (s : String) (maxLen : ℕ) : Bool :=
  s.utf8ByteSize ≤ maxLen &&
    s.toList.all fun ch => 0x20 ≤ ch.toNat || ch == '\t' || ch == '\n' || ch == '\r'

/-- `flowd_id_ok`, which is `flowd_token_ok` with its bound. -/
def idOk (s : String) : Bool :=
  s ≠ "" && s.utf8ByteSize ≤ 95 &&
    s.toList.all fun ch => ch.isAlphanum || ch ∈ ['_', '-', '.', ':', '/']

/-! ### The profile -/

/-- `get` on an object that may be missing. -/
def getOf (o : Option (Json D)) (key : String) : Option (Json D) := o.bind (·.get key)

def memberOf (o : Option (Json D)) (key : String) : Member :=
  match getOf o key with
  | none => .absent
  | some (.int n) => .int n
  | some _ => .other

/-- A member of the request, else of the existing rule, else its default. -/
def intField (body existing : Option (Json D)) (key : String) (dflt min max : ℤ) : Option ℤ := do
  integer (memberOf body key) (← integer (memberOf existing key) dflt min max) min max

/-- A text member that has to be one of a few. -/
def wordField (body existing : Option (Json D)) (key dflt : String) (words : List String) :
    Option String :=
  match (getOf body key).or (getOf existing key) with
  | none => some dflt
  | some (.str s) => if cstr s ∈ words then some (cstr s) else none
  | some _ => none

/-- A dimension from the request, the existing rule or its default; only a number will do. -/
def rawDimension (c : JsonC D) (src prev : Option (Json D)) (key : String) (dflt : ℤ) : Option D :=
  match (getOf src key).or (getOf prev key) with
  | none => some (c.ofInt dflt)
  | some v => c.number v

/-- One dimension of a threshold: positive, finite and at most its maximum. -/
def dimension (c : JsonC D) (src prev : Option (Json D)) (key : String) (dflt max : ℤ) : Option D :=
  (rawDimension c src prev key dflt).filter fun n =>
    c.isFinite n && !c.le n (c.ofInt 0) && !c.lt (c.ofInt max) n

/-- The three dimensions of a threshold. -/
structure Dimensions (D : Type) where
  (lossPct latencyP95Ms jitterMs : D)

def Dimensions.json (t : Dimensions D) : Json D :=
  .obj [("loss_pct", .double t.lossPct), ("latency_p95_ms", .double t.latencyP95Ms),
    ("jitter_ms", .double t.jitterMs)]

/-- `threshold`. -/
def threshold (c : JsonC D) (source fallback : Option (Json D)) (name : String)
    (loss latency jitter : ℤ) : Option (Dimensions D) := do
  let src := getOf source name
  guard (!src.any fun v => !v.isObject)
  let prev := getOf fallback name
  return ⟨← dimension c src prev "loss_pct" loss 100,
    ← dimension c src prev "latency_p95_ms" latency 600000,
    ← dimension c src prev "jitter_ms" jitter 600000⟩

/-- The loop over `expected_status`: every code at most once. -/
def statusCodes : List ℤ → List (Json D) → Option (List ℤ)
  | seen, [] => some seen
  | seen, .int n :: codes =>
    if n < 100 ∨ n > 599 ∨ n ∈ seen then none else statusCodes (n :: seen) codes
  | _, _ :: _ => none

/-- The first `k` status codes. -/
def codeRange (k : ℕ) : List ℤ := (List.range k).map fun i : ℕ => (i : ℤ) + 100

/-- The codes that were seen, in ascending order. -/
def ascending (seen : List ℤ) : List ℤ := (codeRange 500).filter (· ∈ seen)

/-- `expected_status`. -/
def expectedStatus (body existing : Option (Json D)) : Option (List ℤ) :=
  match (getOf body "expected_status").or (getOf existing "expected_status") with
  | none => some []
  | some (.arr codes) =>
    if codes.length > 16 then none else (statusCodes [] codes).map ascending
  | some _ => none

/-- `body_marker`. -/
def bodyMarker (body existing : Option (Json D)) : Option String :=
  match (getOf body "body_marker").or (getOf existing "body_marker") with
  | none => some ""
  | some (.str s) => if s.utf8ByteSize > 256 ∨ cstr s ≠ s then none else some s
  | some _ => none

/-- The shape of a resolver list; `tok` characters of the current address are read. -/
def dnsShape : ℕ → List Char → Bool
  | tok, [] => tok ≠ 0
  | tok, ch :: chars =>
    if ch = ',' then tok ≠ 0 && dnsShape 0 chars
    else (ch.isDigit || ch ∈ ['a', 'b', 'c', 'd', 'e', 'f', 'A', 'B', 'C', 'D', 'E', 'F', '.', ':'])
      && tok + 1 ≤ 45 && dnsShape (tok + 1) chars

/-- `dns_servers`. -/
def dnsServers (body existing : Option (Json D)) : Option String :=
  match (getOf body "dns_servers").or (getOf existing "dns_servers") with
  | none => some ""
  | some (.str s) =>
    if s.utf8ByteSize > 128 ∨ cstr s ≠ s then none
    else if s = "" ∨ dnsShape 0 s.toList then some s
    else none
  | some _ => none

/-- The profile `wan_sla_profile_normalize` builds. -/
structure SlaProfile (D : Type) where
  (reliability windowS failureIntervalS recoveryIntervalS cooldownS profileVersion : ℤ)
  (profile actionMode aggregation : String)
  (degraded critical : Dimensions D)
  downLossPct : ℤ
  expectedStatus : List ℤ
  (bodyMarker dnsServers : String)

/-- The members of a profile, in the order they are added. -/
def SlaProfile.members (p : SlaProfile D) : List (String × Json D) :=
  [("reliability", .int p.reliability), ("window_s", .int p.windowS),
    ("failure_interval_s", .int p.failureIntervalS),
    ("recovery_interval_s", .int p.recoveryIntervalS), ("cooldown_s", .int p.cooldownS),
    ("profile_version", .int p.profileVersion), ("profile", .str p.profile),
    ("action_mode", .str p.actionMode), ("aggregation", .str p.aggregation),
    ("degraded", p.degraded.json), ("critical", p.critical.json),
    ("down", .obj [("loss_pct", .int p.downLossPct)]),
    ("expected_status", .arr (p.expectedStatus.map .int)), ("body_marker", .str p.bodyMarker),
    ("dns_servers", .str p.dnsServers)]

/-- The critical threshold is above the degraded one in every dimension. -/
def ordered (c : JsonC D) (degraded critical : Dimensions D) : Bool :=
  !c.le critical.lossPct degraded.lossPct && !c.le critical.latencyP95Ms degraded.latencyP95Ms &&
    !c.le critical.jitterMs degraded.jitterMs

/-- `wan_sla_profile_normalize`. -/
def profileNormalize (c : JsonC D) (body existing : Option (Json D)) (targetCount : ℕ) :
    Option (SlaProfile D) := do
  guard (1 ≤ targetCount ∧ targetCount ≤ maxTargets)
  let reliability ← integer (memberOf body "reliability")
    (← integer (memberOf existing "reliability") ((targetCount + 1) / 2) 1 maxTargets)
    1 targetCount
  guard (reliability ≤ targetCount)
  let windowS ← intField body existing "window_s" 60 2 maxRounds
  let failureIntervalS ← intField body existing "failure_interval_s" 2 1 3600
  let recoveryIntervalS ← intField body existing "recovery_interval_s" 10 1 3600
  let cooldownS ← intField body existing "cooldown_s" 60 0 86400
  let profileVersion ← integer (memberOf body "profile_version") 1 1 1
  let profile ← wordField body existing "profile" "system-default" ["system-default"]
  let actionMode ← wordField body existing "action_mode" "observe"
    ["observe", "degrade", "failover"]
  let aggregation ← wordField body existing "aggregation" "worst" ["worst"]
  let degraded ← threshold c body existing "degraded" 3 180 80
  let critical ← threshold c body existing "critical" 15 400 150
  guard (ordered c degraded critical)
  let down := (getOf body "down").or (getOf existing "down")
  guard (!down.any fun v => !v.isObject)
  let downLossPct ← integer (memberOf down "loss_pct") 100 100 100
  let expectedStatus ← expectedStatus body existing
  let bodyMarker ← bodyMarker body existing
  let dnsServers ← dnsServers body existing
  return {
    reliability, windowS, failureIntervalS, recoveryIntervalS, cooldownS, profileVersion, profile,
    actionMode, aggregation, degraded, critical, downLossPct, expectedStatus, bodyMarker,
    dnsServers }

/-! ### The plan -/

/-- `sla_method_ok`. -/
def methodOk (method : String) : Bool := method ∈ ["icmp", "tcp", "dns", "http", "https"]

/-- `sla_targets`: the targets of the request, of the existing rule where it names none. -/
def slaTargets (c : JsonC D) (body : Json D) (fallback : Option (Json D)) : Option (Json D) :=
  match (body.member "targets").or (body.member "targets_json") with
  | none => some (fallback.getD (.arr []))
  | some .null => some (.arr [])
  | some (.arr items) => some (.arr items)
  | some (.str s) => (c.parse (utf8 (cstr s))).bind fun parsed => parsed.items.map .arr
  | some _ => none

/-- One target behind the ones that are read. -/
def targetOk (earlier : List String) (target : Json D) : Option String :=
  match target with
  | .str s =>
    if s ≠ "" && textOk s 256 && cstr s = s && s ∉ earlier then some s else none
  | _ => none

def targetsDistinct : List String → List (Json D) → Bool
  | _, [] => true
  | earlier, target :: targets =>
    match targetOk earlier target with
    | some s => targetsDistinct (s :: earlier) targets
    | none => false

/-- `sla_targets_ok`. -/
def targetsOk (c : JsonC D) (targets : List (Json D)) : Bool :=
  1 ≤ targets.length && targets.length ≤ 16 && targetsDistinct [] targets &&
    (c.printSpaced (.arr targets)).length ≤ 8192

/-- The fields of a rule in front of its profile, as `sla_plan` reads them. -/
structure PlanFields where
  (name wan method remark : String)
  enabled : Bool
  (intervalS timeoutMs lossThresholdPct latencyThresholdMs failCount recoverCount : ℤ)

/-- The fields of an object, and of another one where it lacks them. -/
def PlanFields.read (c : JsonC D) (body : Json D) (dflt : PlanFields) : PlanFields where
  name := jsonStr body "name" dflt.name
  wan := jsonStr body "wan" dflt.wan
  method := jsonStr body "method" dflt.method
  remark := jsonStr body "remark" dflt.remark
  enabled := jsonBool c body "enabled" dflt.enabled
  intervalS := jsonInt c body "interval_s" dflt.intervalS
  timeoutMs := jsonInt c body "timeout_ms" dflt.timeoutMs
  lossThresholdPct := jsonInt c body "loss_threshold_pct" dflt.lossThresholdPct
  latencyThresholdMs := jsonInt c body "latency_threshold_ms" dflt.latencyThresholdMs
  failCount := jsonInt c body "fail_count" dflt.failCount
  recoverCount := jsonInt c body "recover_count" dflt.recoverCount

/-- The defaults of a new rule. -/
def PlanFields.initial : PlanFields where
  name := ""
  wan := ""
  method := "icmp"
  remark := ""
  enabled := false
  intervalS := 5
  timeoutMs := 1000
  lossThresholdPct := 50
  latencyThresholdMs := 300
  failCount := 3
  recoverCount := 2

/-- The defaults of an operation: the existing rule where there is one. -/
def PlanFields.fallback (c : JsonC D) : Option (Json D) → PlanFields
  | none => .initial
  | some existing => .read c existing .initial

/-- The checks of `sla_plan` on the fields. -/
def PlanFields.ok (f : PlanFields) (wanExists : String → Bool) : Bool :=
  textOk f.name 128 && wanExists f.wan && methodOk f.method &&
    1 ≤ f.intervalS && f.intervalS ≤ 3600 && 100 ≤ f.timeoutMs && f.timeoutMs ≤ 60000 &&
    0 ≤ f.lossThresholdPct && f.lossThresholdPct ≤ 100 &&
    1 ≤ f.latencyThresholdMs && f.latencyThresholdMs ≤ 600000 &&
    1 ≤ f.failCount && f.failCount ≤ 100 && 1 ≤ f.recoverCount && f.recoverCount ≤ 100 &&
    textOk f.remark 256

/-- What the plan of an upsert says. -/
structure Upsert (D : Type) where
  id : String
  fields : PlanFields
  targets : List (Json D)
  expectedRevision : ℤ
  profile : SlaProfile D

/-- The members of the plan of an upsert in front of its profile. -/
def Upsert.front (u : Upsert D) : List (String × Json D) :=
  [("operation", .str "upsert"), ("id", .str u.id), ("name", .str u.fields.name),
    ("enabled", .bool u.fields.enabled), ("wan", .str u.fields.wan),
    ("method", .str u.fields.method), ("targets", .arr u.targets),
    ("interval_s", .int u.fields.intervalS), ("timeout_ms", .int u.fields.timeoutMs),
    ("loss_threshold_pct", .int u.fields.lossThresholdPct),
    ("latency_threshold_ms", .int u.fields.latencyThresholdMs),
    ("fail_count", .int u.fields.failCount), ("recover_count", .int u.fields.recoverCount),
    ("remark", .str u.fields.remark), ("expected_revision", .int u.expectedRevision)]

/-- The plan of an upsert as it is sent and stored. -/
def Upsert.json (u : Upsert D) : Json D := .obj (u.front ++ u.profile.members)

/-- The plan of a delete. -/
def deletePlan (id : String) : Json D := .obj [("id", .str id), ("operation", .str "delete")]

/-- A canonical plan. -/
inductive Plan (D : Type) where
  | upsert (u : Upsert D)
  | delete (id : String)

def Plan.json : Plan D → Json D
  | .upsert u => u.json
  | .delete id => deletePlan id

/-- `sla_plan`. -/
def slaPlan (c : JsonC D) (wanExists : String → Bool) (body : Json D) (operation : String)
    (existing : Option (Json D)) (expectedRevision : ℤ) : Option (Plan D) :=
  let id := jsonStr body "id" ""
  if operation = "delete" then some (.delete id)
  else do
    let fields := PlanFields.read c body (.fallback c existing)
    let targets ← (slaTargets c body (getOf existing "targets")).bind Json.items
    guard (idOk id && fields.ok wanExists && targetsOk c targets)
    let profile ← profileNormalize c (some body) existing targets.length
    return .upsert { id, fields, targets, expectedRevision, profile }

/-! ### The digest -/

/-- `sla_hash_update`, on 64-bit numbers. -/
def hashUpdate (hash : ℕ) (text : List UInt8) : ℕ :=
  text.foldl (fun hash b => (hash ^^^ b.toNat) * 1099511628211 % 2 ^ 64) hash

/-- `%016` of a 64-bit number in hexadecimal. -/
def hex16 (n : ℕ) : String :=
  String.ofList ((List.range 16).map fun i => Nat.digitChar (n / 16 ^ (15 - i) % 16))

/-- `sla_digest`. -/
def slaDigest (c : JsonC D) (operation : String) (revision : ℤ) (plan : Json D) : String :=
  let hash := hashUpdate 1469598103934665603 (utf8 operation)
  let hash := hashUpdate hash (utf8 "|")
  let hash := hashUpdate hash (utf8 (toString revision))
  let hash := hashUpdate hash (utf8 "|")
  hex16 (hashUpdate hash (c.print plan))

end DreamingOS.WanSlaTx
