import DreamingOS.WebSession.Store

namespace DreamingOS.WebSession

/-!
# Web sessions — the calls, statement by statement

The calls of `webd_session_idle.c` by any clients.  Between two statements of a call other calls may
run; a transaction is one step.

* `Call`, `Phase` — a call, and the statement or transaction it comes to next;
* `callStep` — one step of a call: what it leaves of the table, and its next phase or its result;
* `Sys`, `Action`, `sysStep` — the table with all calls under way.
-/

/-! ### Calls -/

/-- The three calls that present a token. -/
inductive Op where
  | accessCheck (recordActivity : Bool)
  | refreshIssue (newAccess : String) (accessExpiresAt : ℤ)
  | refreshRotate (newAccess newRefresh : String) (accessExpiresAt : ℤ)
deriving DecidableEq

structure Call where
  op : Op
  token : String
  now : ℤ
deriving DecidableEq

/-- What a call does next.  The timeout has been read before the transaction. -/
inductive Phase where
  | read
  | recheckRead
  | recheck (timeoutMin : ℤ)
  | touchRead
  | touch (timeoutMin : ℤ)
  | issue (timeoutMin : ℤ)
  | consumedRead
  | revoke (f : Family)
  | rotate (timeoutMin : ℤ)
deriving DecidableEq

/-- The checks of the arguments. -/
def Call.valid (c : Call) : Bool :=
  idleTextOk c.token 256 && 0 ≤ c.now &&
    match c.op with
    | .accessCheck _ => true
    | .refreshIssue newAccess accessExpiresAt =>
      idleTextOk newAccess 256 && c.token ≠ newAccess && c.now < accessExpiresAt
    | .refreshRotate newAccess newRefresh accessExpiresAt =>
      idleTextOk newAccess 256 && idleTextOk newRefresh 256 && c.token ≠ newAccess &&
        c.token ≠ newRefresh && newAccess ≠ newRefresh && c.now < accessExpiresAt

/-- The table `web_users`: the timeout of a user in minutes. -/
abbrev Users := String → Option ℕ

/-- What a step of a call leaves: the table, and the next phase or the result. -/
abbrev Outcome := Sessions × (Phase ⊕ Result)

def WEBD_SESSION_IDLE_DUE (now : ℤ) (row : SessionRow) : Bool :=
  now ≥ row.lastActivityAt && now - row.lastActivityAt ≥ WEBD_SESSION_IDLE_TOUCH_INTERVAL_S

/-- A read followed by `webd_session_idle_timeout_get`; `next` is where the call goes on. -/
def readTimeout (users : Users) (db : Sessions) (c : Call) (kind : Kind)
    (next : SessionRow → ℕ → Phase ⊕ Result) : Phase ⊕ Result :=
  match sessionRead db c.token kind c.now with
  | .error e => .inr e
  | .ok row =>
    match users row.family.username with
    | none => .inr .userNotFound
    | some timeoutMin => next row timeoutMin

/-- The first read of `webd_session_idle_access_check`. -/
def accessRead (users : Users) (db : Sessions) (c : Call) (recordActivity : Bool) :
    Phase ⊕ Result :=
  readTimeout users db c .access fun row timeoutMin =>
    if idleIsExpired c.now row.lastActivityAt timeoutMin then .inl .recheckRead
    else if recordActivity && WEBD_SESSION_IDLE_DUE c.now row then .inl .touchRead
    else .inr .ok

/-- The first read of `webd_session_idle_refresh_rotate`. -/
def rotateRead (users : Users) (db : Sessions) (c : Call) : Phase ⊕ Result :=
  match readTimeout users db c .refresh fun _ timeoutMin => .inl (.rotate timeoutMin) with
  | .inr .tokenInvalid => .inl .consumedRead
  | next => next

/-- A transaction that reads the row again and revokes an idle family; `live` does the rest. -/
def transact (db : Sessions) (c : Call) (kind : Kind) (timeoutMin : ℤ)
    (live : SessionRow → Sessions × Result) : Sessions × Result :=
  match sessionRead db c.token kind c.now with
  | .error e => (db, e)
  | .ok row =>
    if idleIsExpired c.now row.lastActivityAt timeoutMin then
      (revokeFamily db row.family, .timeout)
    else live row

/-- The transaction of `idle_access_touch_recheck`. -/
def touchTransaction (db : Sessions) (c : Call) (timeoutMin : ℤ) : Sessions × Result :=
  transact db c .access timeoutMin fun row =>
    if WEBD_SESSION_IDLE_DUE c.now row then (touchFamily db row.family c.now, .ok) else (db, .ok)

/-- A new token of a family. -/
def newRow (token : String) (f : Family) (kind : Kind) (now expiresAt : ℤ) : Row where
  token := token
  family := f
  kind := kind
  createdAt := now
  expiresAt := expiresAt
  lastActivityAt := now

/-- The insertions of a transaction; one that fails takes everything back. -/
def insertRows (db db' : Sessions) : List Row → Sessions × Result
  | [] => (db', .ok)
  | r :: rows =>
    match insertRow db' r with
    | none => (db, .dbError)
    | some db'' => insertRows db db'' rows

/-- The transaction of `webd_session_idle_refresh_issue`. -/
def issueTransaction (db : Sessions) (c : Call) (newAccess : String) (accessExpiresAt timeoutMin : ℤ) :
    Sessions × Result :=
  match sessionRead db c.token .refresh c.now, consumedRefreshRead db c.token with
  -- consumed after the first read: the family is revoked
  | .error _, some f => (revokeFamily db f, .reused)
  | _, _ =>
    transact db c .refresh timeoutMin fun row =>
      insertRows db (touchFamily db row.family c.now)
        [newRow newAccess row.family .access c.now accessExpiresAt]

/-- The transaction of `webd_session_idle_refresh_rotate`. -/
def rotateTransaction (db : Sessions) (c : Call) (newAccess newRefresh : String)
    (accessExpiresAt timeoutMin : ℤ) : Sessions × Result :=
  transact db c .refresh timeoutMin fun row =>
    insertRows db (touchFamily (consumeRefresh db c.token newRefresh c.now) row.family c.now)
      [newRow newAccess row.family .access c.now accessExpiresAt,
        newRow newRefresh row.family .refresh c.now row.expiresAt]

/-- One step of a call; `fails` says that SQLite fails in it, and then nothing is written. -/
def callStep (users : Users) (db : Sessions) (c : Call) (ph : Phase) (fails : Bool) : Outcome :=
  let done : Sessions × Result → Outcome := fun r => (r.1, .inr r.2)
  if fails then (db, .inr .dbError)
  else
    match ph with
    | .read =>
      match c.op with
      | .accessCheck recordActivity => (db, accessRead users db c recordActivity)
      | .refreshIssue _ _ =>
        (db, readTimeout users db c .refresh fun _ timeoutMin => .inl (.issue timeoutMin))
      | .refreshRotate _ _ _ => (db, rotateRead users db c)
    | .recheckRead =>
      (db, readTimeout users db c .access fun _ timeoutMin => .inl (.recheck timeoutMin))
    | .recheck timeoutMin => done (transact db c .access timeoutMin fun _ => (db, .ok))
    | .touchRead =>
      (db, readTimeout users db c .access fun _ timeoutMin => .inl (.touch timeoutMin))
    | .touch timeoutMin => done (touchTransaction db c timeoutMin)
    | .issue timeoutMin =>
      match c.op with
      | .refreshIssue newAccess accessExpiresAt =>
        done (issueTransaction db c newAccess accessExpiresAt timeoutMin)
      | _ => (db, .inr .invalidArgument)
    | .consumedRead =>
      match consumedRefreshRead db c.token with
      | none => (db, .inr .tokenInvalid)
      | some f => (db, .inl (.revoke f))
    | .revoke f => (revokeFamily db f, .inr .reused)
    | .rotate timeoutMin =>
      match c.op with
      | .refreshRotate newAccess newRefresh accessExpiresAt =>
        done (rotateTransaction db c newAccess newRefresh accessExpiresAt timeoutMin)
      | _ => (db, .inr .invalidArgument)

/-! ### The system -/

/-- The arguments of `webd_session_idle_login_insert`. -/
structure Login where
  accessToken : String
  accessExpiresAt : ℤ
  refreshToken : String
  refreshExpiresAt : ℤ
  family : Family
  now : ℤ

def Login.valid (a : Login) : Bool :=
  idleTextOk a.accessToken 256 && idleTextOk a.refreshToken 256 && a.family.textOk &&
    a.accessToken ≠ a.refreshToken && 0 ≤ a.now && a.now < a.accessExpiresAt &&
    a.now < a.refreshExpiresAt

def Login.rows (a : Login) : List Row :=
  [newRow a.accessToken a.family .access a.now a.accessExpiresAt,
    newRow a.refreshToken a.family .refresh a.now a.refreshExpiresAt]

/-- `webd_session_idle_login_insert`. -/
def loginInsert (db : Sessions) (a : Login) (fails : Bool) : Sessions × Result :=
  if !a.valid then (db, .invalidArgument)
  else if fails then (db, .dbError)
  else insertRows db db a.rows

/-- `webd_session_idle_gc`. -/
def sessionGc (db : Sessions) (now retentionS : ℤ) (limit : ℕ) (fails : Bool) : Sessions × Result :=
  if now < 0 ∨ retentionS < 0 ∨ limit = 0 then (db, .invalidArgument)
  else if fails then (db, .dbError)
  else (gcRows db now retentionS limit, .ok)

/-- The table, the calls under way (`none` stands for one that has returned), and what has happened:
    the tokens and families there have been, and the refresh tokens that were rotated. -/
structure Sys where
  db : Sessions
  calls : List (Call × Option Phase)
  issued : List String
  families : List Family
  rotated : List (String × Family)

inductive Action where
  | login (a : Login) (fails : Bool)
  | gc (now retentionS : ℤ) (limit : ℕ) (fails : Bool)
  | begin (c : Call)
  | advance (i : ℕ) (fails : Bool)

/-- The tokens a call would put into the table. -/
def Op.newTokens : Op → List String
  | .accessCheck _ => []
  | .refreshIssue newAccess _ => [newAccess]
  | .refreshRotate newAccess newRefresh _ => [newAccess, newRefresh]

/-- The entry of a rotation that has been made. -/
def rotationOf (db : Sessions) (c : Call) : List (String × Family) :=
  match c.op, db.find c.token with
  | .refreshRotate _ _ _, some s => [(c.token, s.family)]
  | _, _ => []

/-- The system after a step of call `i`. -/
def Sys.advanced (σ : Sys) (i : ℕ) (c : Call) (out : Outcome) : Sys :=
  let σ' := { σ with db := out.1, calls := σ.calls.set i (c, out.2.getLeft?) }
  if out.2 = .inr .ok then
    { σ' with
      issued := c.op.newTokens ++ σ.issued
      rotated := rotationOf σ.db c ++ σ.rotated }
  else σ'

/-- One step, and the result of the call that has returned in it. -/
def sysStep (users : Users) (σ : Sys) : Action → Sys × Option Result
  | .login a fails =>
    let r := loginInsert σ.db a fails
    if r.2 = .ok then
      ({ σ with
          db := r.1
          issued := [a.accessToken, a.refreshToken] ++ σ.issued
          families := a.family :: σ.families }, some .ok)
    else ({ σ with db := r.1 }, some r.2)
  | .gc now retentionS limit fails =>
    let r := sessionGc σ.db now retentionS limit fails
    ({ σ with db := r.1 }, some r.2)
  | .begin c =>
    if c.valid then ({ σ with calls := σ.calls ++ [(c, some .read)] }, none)
    else (σ, some .invalidArgument)
  | .advance i fails =>
    match σ.calls[i]? with
    | some (c, some ph) =>
      let out := callStep users σ.db c ph fails
      (σ.advanced i c out, out.2.getRight?)
    | _ => (σ, none)

def sysRun (users : Users) (σ : Sys) (as : List Action) : Sys :=
  as.foldl (fun σ a => (sysStep users σ a).1) σ

/-- The system at the start, over the rows that a migration has left. -/
def Sys.start (db : Sessions) : Sys where
  db := db
  calls := []
  issued := []
  families := []
  rotated := []

end DreamingOS.WebSession
