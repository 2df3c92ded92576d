import DreamingOS.Lib.Table
import DreamingOS.DnsPolicy.Rules

namespace DreamingOS.DnsPolicy

/-!
# DNS policy — the rule database and its projection

The tables that `ad_dns_control.c` reads and writes, and the policy file that `project` makes of
them.

* `Lease`, `Override`, `Policy`, `Stored`, `Db` — the tables;
* `projectLines`, `fileText` — what `project` writes.
-/

/-! ### Tables -/

/-- The column `kind` of a lease. -/
inductive LeaseKind where
  | observe
  | trial
deriving DecidableEq

def LeaseKind.text : LeaseKind → String
  | .observe => "observe"
  | .trial => "trial"

/-- The document of a lease, which is also the answer to the request. -/
structure Document where
  (trialId sessionId : String)
  expiresAt : ℕ
  rules : List Rule
  scope : Scope
deriving DecidableEq

/-- A row of `aegis_ad_dns_leases`. -/
structure Lease where
  session : String
  kind : LeaseKind
  (owner mac ip : String)
  expires : ℕ
  document : Document

def Lease.key (l : Lease) : String × LeaseKind := (l.session, l.kind)

/-- A row of `aegis_domain_overrides`; `exact` stands for its `match_kind`. -/
structure Override where
  (id policyId domain : String)
  action : RuleAction
  enabled : ℤ
  exact : Bool

/-- The scope of a content policy. -/
structure PolicyScope where
  type : String
  devices : List String

/-- A row of `aegis_content_policies`. -/
structure Policy where
  id : String
  scope : PolicyScope
  enabled : ℤ
  mode : String

/-- An answer to a request. -/
inductive Response where
  | failure (code message : String)
  | applyFailed (rollbackOk : Bool)
  | capabilities (ready : Bool) (revision : ℕ)
  | status (trial : Option (Document × Bool))
  | preview (rules : List (Rule × String)) (canCommit : Bool) (revision : ℕ)
  | applied (document : Document) (revision : ℕ)
  | saved (rules : List (Rule × String)) (savedAt revision : ℕ)
  | reverted (revision : ℕ)
  | dryRun (id : String)
  | changed (id : String) (deleted : Bool) (revision : ℕ)
deriving DecidableEq

/-- The field `ok` of an answer. -/
def Response.ok : Response → Bool
  | .failure _ _ => false
  | .applyFailed _ => false
  | _ => true

/-- A row of `aegis_ad_dns_requests`. -/
structure Stored where
  (owner id signature : String)
  response : Response
  created : ℕ
deriving DecidableEq

def Stored.key (r : Stored) : String × String := (r.owner, r.id)

structure Db where
  revision : ℕ
  leases : Table Lease.key
  requests : Table Stored.key
  overrides : Table Override.id
  policies : Table Policy.id

/-! ### The policy file -/

/-- The fields of a line of the file. -/
structure Line where
  kind : Char
  (id mac ip : List Char)
  expires : ℕ
  (action matching : Char)
  domain : List Char

/-- An empty column is written as an asterisk. -/
def star (s : String) : List Char := if s = "" then ['*'] else s.toList

def actionChar : RuleAction → Char
  | .block => 'B'
  | .allow => 'A'

/-- The format of `emit`. -/
def Line.text (l : Line) : List Char :=
  l.kind :: ' ' :: (l.id ++ ' ' :: (l.mac ++ ' ' :: (l.ip ++ ' ' :: (Nat.toDigits 10 l.expires ++
    ' ' :: l.action :: ' ' :: l.matching :: ' ' :: (l.domain ++ ['\n'])))))

/-- The lines of a lease. -/
def Lease.lines (l : Lease) : List Line :=
  match l.kind with
  | .observe => [⟨'O', l.session.toList, star l.mac, star l.ip, l.expires, '-', '-', ['*']⟩]
  | .trial =>
    l.document.rules.map fun r =>
      ⟨'R', l.session.toList, star l.mac, star l.ip, l.expires, actionChar r.action, 'E',
        star r.domain⟩

/-- The policy an override belongs to. -/
def Db.policyOf (db : Db) (o : Override) : Option Policy := db.policies.find o.policyId

/-- The condition of the query for exact rules. -/
def Db.inForce (db : Db) (o : Override) : Bool :=
  o.exact && o.enabled = 1 &&
    (o.policyId = "" || (db.policyOf o).any fun p => p.enabled = 1 && p.mode ≠ "off")

/-- The line of an exact rule for a device, or for all. -/
def Override.line (o : Override) (mac : String) : Line :=
  ⟨'R', o.id.toList, star mac, ['*'], 0, actionChar o.action, 'E', star o.domain⟩

/-- The lines of an exact rule; `none` for a scope that cannot be projected. -/
def Db.overrideLines (db : Db) (o : Override) : Option (List Line) :=
  let scope := ((db.policyOf o).map Policy.scope).getD ⟨"", []⟩
  if scope.type = "" ∨ scope.type = "all" then some [o.line "*"]
  else if scope.type = "devices" then
    if scope.devices.all macOk then some (scope.devices.map o.line) else none
  else none

def DWP_MAX_ROWS : ℕ := 4096

/-- The lines that `project` writes at the time `now`. -/
def Db.projectLines (db : Db) (now : ℕ) : Option (List Line) :=
  let leases := (db.leases.rows.filter fun l => now < l.expires).mergeSort
    fun a b => a.session < b.session || (a.session = b.session && a.kind.text ≤ b.kind.text)
  let overrides := (db.overrides.rows.filter db.inForce).mergeSort fun a b => a.id ≤ b.id
  match overrides.mapM db.overrideLines with
  | none => none
  | some lines =>
    let all := leases.flatMap Lease.lines ++ lines.flatten
    if all.length > DWP_MAX_ROWS then none else some all

def magic : List Char := "DWAD1".toList

def headerText (revision : ℕ) : List Char := magic ++ ' ' :: (Nat.toDigits 10 revision ++ ['\n'])

def fileText (revision : ℕ) (lines : List Line) : List Char :=
  headerText revision ++ lines.flatMap Line.text

/-- `project`, as far as the database decides. -/
def Db.project (db : Db) (now : ℕ) : Option (List Char) :=
  (db.projectLines now).map (fileText db.revision)

/-! ### Statements -/

/-- `UPDATE aegis_ad_dns_meta SET revision=revision+1`, also what a trigger does. -/
def Db.bump (db : Db) : Db := { db with revision := db.revision + 1 }

/-- The upsert of a lease: an existing one keeps its owner and its device. -/
def Db.putLease (db : Db) (l : Lease) : Db :=
  { db with
    leases := db.leases.upsert l
      (fun old => { old with expires := l.expires, document := l.document }) fun _ => rfl }

/-- `remove_lease`. -/
def Db.removeLease (db : Db) (session : String) (kind : LeaseKind) : Db :=
  { db with leases := db.leases.delete fun l => l.session = session && l.kind = kind }

/-- The upsert of the policy of a device. -/
def Db.putPolicy (db : Db) (policy mac : String) : Db :=
  { db with
    policies := db.policies.upsert ⟨policy, ⟨"devices", [mac]⟩, 1, "basic"⟩
      (fun old => { old with enabled := 1, mode := "basic" }) fun _ => rfl }.bump

/-- The upsert of an exact rule; it fails when another row has the domain in this policy. -/
def Db.putOverride (db : Db) (id policy domain : String) (action : RuleAction) : Option Db :=
  if id ∉ db.overrides.rows.map Override.id ∧
      ∃ o ∈ db.overrides.rows, o.policyId = policy ∧ o.domain = domain then none
  else
    some
      { db with
        overrides := db.overrides.upsert ⟨id, policy, domain, action, 1, true⟩
          (fun old => { old with action := action, enabled := 1, exact := true })
          fun _ => rfl }.bump

/-- The update of an exact rule by the editor. -/
def Db.editOverride (db : Db) (id domain : String) (action : RuleAction) (enabled : ℤ) : Option Db :=
  if ∃ o ∈ db.overrides.rows, o.id = id ∧ o.exact = true ∧
      ∀ x ∈ db.overrides.rows, x.policyId = o.policyId ∧ x.domain = domain → x.id = id then
    some
      { db with
        overrides := db.overrides.update (fun o => o.id = id && o.exact)
          (fun o => { o with domain := domain, action := action, enabled := enabled })
          fun _ => rfl }.bump
  else none

/-- The deletion of an exact rule by the editor. -/
def Db.deleteOverride (db : Db) (id : String) : Option Db :=
  if ∃ o ∈ db.overrides.rows, o.id = id ∧ o.exact = true then
    some { db with overrides := db.overrides.delete fun o => o.id = id && o.exact }.bump
  else none

/-- The requests that are kept: the 256 latest ones, later rows first among equals. -/
def Db.trimRequests (db : Db) : Db :=
  let kept := ((db.requests.rows.reverse.mergeSort fun a b => b.created ≤ a.created).take 256)
  { db with requests := db.requests.delete fun r => r ∉ kept }

/-- The row of a request that has been carried out. -/
def Db.record (db : Db) (r : Stored) : Option Db :=
  if h : r.key ∉ db.requests.rows.map Stored.key then
    some ({ db with requests := db.requests.insert r h } : Db).trimRequests
  else none

end DreamingOS.DnsPolicy
