import DreamingOS.DnsPolicy.Store

namespace DreamingOS.DnsPolicy

/-!
# DNS policy — the operations

`ad_dns_handle`, `ad_dns_canonical` and `ad_dns_reconcile`.

* `Env` — what a call meets outside the database: the clock, the DHCP leases, what fails;
* `handleTx`, `canonicalTx` — the statements of an operation, up to the projection;
* `finish` — projection, probe and commit, or rollback and restore;
* `handle`, `canonical`, `reconcile` — the operations on the database and the policy file.
-/

/-! ### Surroundings -/

/-- A line of the DHCP lease file; dnsmasq writes addresses there. -/
structure LeaseLine where
  expiry : ℤ
  (mac ip : String)
  isAddress : (Inet.isV4 ip.toList || Inet.isV6 ip.toList) = true

/-- What a call meets: `begins` to `restores` say which of its steps succeed. -/
structure Env where
  now : ℕ
  leases : List LeaseLine
  (conflicts begins stores opens writes acknowledges commits restores : Bool)
  now_lt : now + 1800 < 2 ^ 63

def Env.targetValid (e : Env) (ip mac : String) : Bool :=
  e.leases.any fun l =>
    (l.expiry = 0 || l.expiry > e.now) && ip = l.ip && strcaseeq mac.toList l.mac.toList

/-- The text of the policy file, if there is one. -/
abbrev File := Option (List Char)

/-- `snapshot`: what `restore` would write; `none` for a file that is too large. -/
def snapshot (e : Env) (file : File) : Option (List Char) :=
  match file, e.opens with
  | some text, true => if text.length > 3 * 1024 * 1024 then none else some text
  | _, _ => some []

inductive Operation where
  | capabilities
  | status
  | observe
  | replace
  | preview
  | commit
  | revoke
  | stop
  | other (name : String)
deriving DecidableEq

def Operation.text : Operation → String
  | .capabilities => "capabilities"
  | .status => "status"
  | .observe => "observe"
  | .replace => "replace"
  | .preview => "preview"
  | .commit => "commit"
  | .revoke => "revoke"
  | .stop => "stop"
  | .other name => name

/-- The text by which a repeated request is recognised. -/
def signature (op : Operation) (b : Request) : String := op.text ++ " " ++ b.json

/-! ### The checks of an operation

An error ends the transaction with this answer, which need not be a failure. -/

def storageUnavailable : Response := .failure "storage_unavailable" "规则事务未完成"

/-- An answer, unless a condition holds. -/
def require (p : Bool) (code message : String) : Except Response Unit :=
  if p then .ok () else .error (.failure code message)

/-- A request that has been carried out is answered again. -/
def replay (db : Db) (op : Operation) (b : Request) : Except Response Unit :=
  match db.requests.find (b.operatorId, b.requestId) with
  | some r =>
    .error
      (if r.signature = signature op b then r.response
      else .failure "request_id_conflict" "幂等标识已用于其他请求")
  | none => .ok ()

def checkOwner (db : Db) (b : Request) : Except Response Unit :=
  match db.leases.rows.find? fun l => l.session = b.sessionId with
  | some l => require (l.owner = b.operatorId) "resource_owner_required" "不能撤回其他操作者的租约"
  | none => .ok ()

/-- The device of a request is the one the lease file has at this address. -/
def checkDevice (e : Env) (op : Operation) (b : Request) : Except Response Unit :=
  let same := macOk b.deviceId && e.targetValid b.deviceIp b.deviceId
  match op with
  | .replace | .commit | .preview =>
    require same "device_identity_changed" "试验与保存需要仍有效的目标设备租约"
  | .observe => do
    require (b.deviceId = "" || same) "device_identity_changed" "观察设备归属已变化"
    require (Inet.isV4 b.deviceIp.toList || Inet.isV6 b.deviceIp.toList) "invalid_target"
      "观察需要合法 IP"
  | _ => .ok ()

/-- The device that the rules of a request are for; none when they are for all. -/
def Request.ruleMac (b : Request) : String := if b.scope.type = "all" then "" else b.deviceId

/-- The name under which a rule is stored, or will be. -/
def ruleId (db : Db) (mac : String) (r : Rule) : String :=
  match db.overrides.rows.find? fun o => o.policyId = (ids mac r.domain).1 && o.domain = r.domain with
  | some o => String.ofList (o.id.toList.take 95)
  | none => (ids mac r.domain).2

/-- The rules of `rules_preview`, with their names. -/
def previewRules (db : Db) (b : Request) (rules : List Rule) : List (Rule × String) :=
  rules.map fun r => (r, ruleId db b.ruleMac r)

def requireRules (b : Request) : Except Response (List Rule) :=
  match normalizeRules b with
  | some rules => .ok rules
  | none => .error (.failure "invalid_rules" "需要 1–128 条完整域名、exact 与明确动作；同域不能冲突")

/-- The rules of a request, for a scope it may ask for. -/
def checkRules (e : Env) (db : Db) (op : Operation) (b : Request) : Except Response (List Rule) := do
  let rules ← requireRules b
  require
    (b.scope.type = "device" || (op = .replace && b.scope.type = "all" && b.confirmGlobal ≠ 0))
    "scope_conflict" "范围必须明确；全网保存需要独立确认"
  require (b.scope.type ≠ "device" || b.scope.deviceId = b.deviceId) "scope_conflict"
    "范围与会话设备不一致"
  if op = .preview then
    .error (.preview (previewRules db b rules) (!e.conflicts) db.revision)
  else do
    require (!e.conflicts) "provider_conflict" "存在此 DNS 放行不能覆盖的连接层阻断"
    require (b.providerRevision = db.revision) "provider_revision_conflict"
      "规则版本已变化，请重新预览"
    .ok rules

/-- The leases of a kind that other sessions hold. -/
def Db.othersHolding (db : Db) (kind : LeaseKind) (session : String) (now : ℕ) : List Lease :=
  db.leases.rows.filter fun l => l.kind = kind && l.session ≠ session && now < l.expires

/-- The field `ttl` as an `int`. -/
def ttlOf (kind : LeaseKind) (b : Request) : ℤ :=
  Int.bmod (match kind with | .observe => b.observeTtl | .trial => b.ttlSeconds) (2 ^ 32)

/-- Taking or renewing a lease. -/
def takeLease (e : Env) (db : Db) (kind : LeaseKind) (b : Request) (rules : List Rule) :
    Except Response (Db × Document) := do
  let ttl := ttlOf kind b
  let others := db.othersHolding kind b.sessionId e.now
  require (30 ≤ ttl && ttl ≤ (match kind with | .observe => 1800 | .trial => 900)) "invalid_ttl"
    "租约时限超出范围"
  require (others.length < 2) "lease_capacity" "并发租约已达上限"
  require (others.all fun l => l.mac ≠ b.deviceId && l.ip ≠ b.deviceIp) "device_trial_in_use"
    "目标设备已有其他活动租约"
  let expires := e.now + ttl.toNat
  let document : Document := ⟨b.trialId, b.sessionId, expires, rules, b.scope⟩
  .ok (db.putLease ⟨b.sessionId, kind, b.operatorId, b.deviceId, b.deviceIp, expires, document⟩,
    document)

/-- The loop of `commit_rules`. -/
def putRules (policy : String) : Db → List (Rule × String) → Option Db
  | db, [] => some db
  | db, (r, id) :: rest =>
    match db.putOverride id policy r.domain r.action with
    | some db' => putRules policy db' rest
    | none => none

/-- `commit_rules`. -/
def commitRules (db : Db) (b : Request) (rules : List (Rule × String)) : Option Db :=
  let policy := (ids b.ruleMac "").1
  putRules policy (if policy = "" then db else db.putPolicy policy b.ruleMac) rules

/-- The row that makes a request repeatable. -/
def storedOf (e : Env) (op : Operation) (b : Request) (r : Response) : Stored where
  owner := b.operatorId
  id := b.requestId
  signature := signature op b
  response := r
  created := e.now

/-- The statements of an operation: what is to be projected, and the answer. -/
def handleTx (e : Env) (snap : Option (List Char)) (db : Db) (op : Operation) (b : Request) :
    Except Response (Db × Response) := do
  if !e.stores then .error storageUnavailable
  replay db op b
  checkOwner db b
  let conclude (db' : Db) (answer : ℕ → Response) : Except Response (Db × Response) :=
    let r := answer db'.bump.revision
    match db'.bump.record (storedOf e op b r) with
    | some db'' => .ok (db'', r)
    | none => .error storageUnavailable
  let snapped : Except Response Unit := if snap = none then .error storageUnavailable else .ok ()
  match op with
  | .observe => do
    checkDevice e op b
    snapped
    let (db', document) ← takeLease e db .observe b []
    conclude db' (.applied document)
  | .replace => do
    checkDevice e op b
    let rules ← checkRules e db op b
    snapped
    let (db', document) ← takeLease e db .trial b rules
    conclude db' (.applied document)
  | .preview | .commit => do
    checkDevice e op b
    let rules ← checkRules e db op b
    snapped
    match commitRules db b (previewRules db b rules) with
    | some db' => conclude db' (.saved (previewRules db b rules) e.now)
    | none => .error storageUnavailable
  | .revoke => do
    snapped
    conclude (db.removeLease b.sessionId .trial) .reverted
  | .stop => do
    snapped
    conclude (db.removeLease b.sessionId .observe) .reverted
  | _ => .error (.failure "invalid_operation" "未知规则操作")

/-! ### Finishing a transaction -/

/-- The database and the policy file. -/
structure Sys where
  db : Db
  file : File

/-- The file after `project`, and whether it has been written. -/
def projectFile (e : Env) (db : Db) (file : File) : File × Bool :=
  match db.project e.now with
  | some text => if e.writes then (some text, true) else (file, false)
  | none => (file, false)

/-- `finish`: the transaction is committed when the resolver acknowledges the projection, else the
    database and the file go back; `r` says whether the latter has worked. -/
def finish (e : Env) (σ : Sys) (old : List Char) (db' : Db) : Sys × Option Bool :=
  let (file, projected) := projectFile e db' σ.file
  if projected && e.acknowledges && e.commits then (⟨db', file⟩, none)
  else (⟨σ.db, if e.restores then some old else file⟩, some e.restores)

/-- What `finish` leaves, with the answer. -/
def finishAnswer (e : Env) (σ : Sys) (old : List Char) (db' : Db) (r : Response) : Sys × Response :=
  match finish e σ old db' with
  | (σ', none) => (σ', r)
  | (σ', some restored) => (σ', .applyFailed restored)

/-- The trial of a session, for its owner. -/
def statusOf (e : Env) (db : Db) (b : Request) : Response :=
  .status <|
    (db.leases.rows.find? fun l =>
      l.session = b.sessionId && l.owner = b.operatorId && l.kind = .trial).map
      fun l => (l.document, decide (e.now < l.expires))

/-- `ad_dns_handle`. -/
def handle (e : Env) (σ : Sys) (op : Operation) (b : Request) : Sys × Response :=
  if op = .capabilities then (σ, .capabilities e.acknowledges σ.db.revision)
  else if !ident b.sessionId ∨ b.operatorId = "" ∨ b.operatorId.utf8ByteSize > 160 then
    (σ, .failure "invalid_owner" "需要明确会话及操作者")
  else if op = .status then (σ, statusOf e σ.db b)
  else if !ident b.requestId then (σ, .failure "request_id_required" "操作需要幂等标识")
  else if !e.begins then (σ, .failure "provider_busy" "规则配置正在更新")
  else
    match handleTx e (snapshot e σ.file) σ.db op b with
    | .error r => (σ, r)
    | .ok (db', r) => finishAnswer e σ ((snapshot e σ.file).getD []) db' r

/-! ### The editor of exact rules -/

/-- A request of the content-rule editor. -/
structure Edit where
  id : String
  (confirm apply : ℤ)
  deleting : Bool
  (domain action matching note : String)
  enabled : Option ℤ

/-- The statement of an edit. -/
def canonicalTx (e : Env) (snap : Option (List Char)) (db : Db) (b : Edit) : Option Db :=
  if !e.stores ∨ snap = none then none
  else if b.deleting then db.deleteOverride b.id
  else
    match RuleAction.ofText b.action with
    | some action =>
      if domainOk b.domain then
        db.editOverride b.id b.domain action ((b.enabled.map (Int.bmod · (2 ^ 32))).getD 1)
      else none
    | none => none

/-- `ad_dns_canonical`. -/
def canonical (e : Env) (σ : Sys) (b : Edit) : Sys × Response :=
  if !ident b.id then (σ, .failure "invalid_domain_override_id" "规则标识无效")
  else if b.confirm = 0 then (σ, .dryRun b.id)
  else if b.apply = 0 then (σ, .failure "exact_rule_requires_apply" "精确域名修改需要同时应用并回读")
  else if !b.deleting ∧ (!domainOk b.domain ∨ (RuleAction.ofText b.action).isNone ∨
      (b.matching ≠ "" ∧ b.matching ≠ "exact") ∨ b.note.utf8ByteSize > 256) then
    (σ, .failure "invalid_rule" "保留精确匹配，提供合法域名和动作")
  else if !e.begins then (σ, .failure "provider_busy" "规则正在更新")
  else
    match canonicalTx e (snapshot e σ.file) σ.db b with
    | none => (σ, .failure "rule_update_failed" "规则不存在或与现有域名冲突")
    | some db' =>
      finishAnswer e σ ((snapshot e σ.file).getD []) db' (.changed b.id b.deleting db'.revision)

/-! ### Reconciliation -/

/-- A lease that a reconciliation removes. -/
def Env.drops (e : Env) (restart : Bool) (l : Lease) : Bool :=
  restart || l.expires ≤ e.now || (l.mac ≠ "" && !e.targetValid l.ip l.mac)

/-- An answer with an expiry is that to a lease. -/
def Response.isApplied : Response → Bool
  | .applied _ _ => true
  | _ => false

/-- The statements of `ad_dns_reconcile`. -/
def reconcileTx (e : Env) (db : Db) (restart : Bool) : Db :=
  let db' := { db with leases := db.leases.delete (e.drops restart) }
  let db' := if db.leases.rows.any (e.drops restart) then db'.bump else db'
  if restart then
    { db' with requests := db'.requests.delete fun r => r.response.isApplied }
  else db'

/-- `ad_dns_reconcile`. -/
def reconcile (e : Env) (σ : Sys) (restart : Bool) : Sys × Bool :=
  if !e.begins ∨ !e.stores ∨ !e.commits then (σ, false)
  else
    let db' := reconcileTx e σ.db restart
    if !σ.db.leases.rows.any (e.drops restart) ∧ !restart ∧ e.acknowledges then (⟨db', σ.file⟩, true)
    else
      let (file, projected) := projectFile e db' σ.file
      (⟨db', file⟩, projected)

end DreamingOS.DnsPolicy
