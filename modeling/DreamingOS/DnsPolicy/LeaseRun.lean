import DreamingOS.DnsPolicy.Ending
import DreamingOS.DnsPolicy.Refine

namespace DreamingOS.DnsPolicy

/-!
# DNS policy — runs of lease operations

What one operation promises, and that every operation of a run keeps it.

* `Projects` — the file has the temporary rules of a session, for one device;
* `HandleSafe` — what an operation promises in a state;
* `Run`, `leases_run` — the promise along every run whose requests keep to the device of a lease.
-/

open Outcome List

variable {e : Env} {σ σ' : Sys} {db db' : Db} {op : Operation} {b : Request} {r : Response}
  {snap : Option (List Char)} {clock clock' t : ℕ} {x : Lease}

/-! ### The lines of a trial -/

/-- The temporary rules of a session in the file are these ones, for this device. -/
def Projects (text : List Char) (session mac ip : String) (expires : ℕ) (rules : List Rule) : Prop :=
  ∃ revision lines, text = fileText revision lines ∧ ∀ l : Line,
    (l ∈ lines ∧ l.kind = 'R' ∧ l.expires ≠ 0 ∧ l.id = session.toList) ↔
      ∃ q ∈ rules, l = ⟨'R', session.toList, mac.toList, ip.toList, expires, actionChar q.action, 'E',
        q.domain.toList⟩

/-- The lines of a trial in the file are those of its lease. -/
def Shown (text : List Char) (x : Lease) : Prop :=
  ∃ revision lines, text = fileText revision lines ∧ ∀ l : Line,
    (l ∈ lines ∧ l.kind = 'R' ∧ l.expires ≠ 0 ∧ l.id = x.session.toList) ↔ l ∈ x.lines

variable {text : List Char}

/-- What is projected shows every trial that has not expired. -/
theorem shown_of_project (hx : x ∈ db.leases.rows) (hkind : x.kind = .trial)
    (hlive : t < x.expires) (h : db.project t = some text) : Shown text x := by
  obtain ⟨lines, hlines, rfl⟩ := Option.map_eq_some_iff.mp h
  refine ⟨db.revision, lines, rfl, fun l => ?_⟩
  constructor
  · rintro ⟨hl, hkindR, hexpires, hid⟩
    obtain ⟨y, hy, -, hly⟩ | ⟨o, -, -, ls, hls, hlo⟩ := (mem_projectLines hlines l).mp hl
    · -- only a trial has such lines, and the session has one trial
      have hyline := hly
      unfold Lease.lines at hyline
      split at hyline
      · rw [mem_singleton.mp hyline] at hkindR
        cases hkindR
      rename_i hykind
      obtain ⟨q, -, rfl⟩ := List.mem_map.mp hyline
      have hsession : y.session = x.session := String.toList_inj.mp hid
      have hkey : y.key = x.key := Prod.ext hsession (hykind.trans hkind.symm)
      have hsame := inj_on_of_nodup_map db.leases.nodup hy hx hkey
      rw [← hsame]
      exact hly
    · obtain ⟨mac, -, rfl⟩ := mem_overrideLines hls hlo
      exact absurd rfl hexpires
  · intro hl
    refine ⟨(mem_projectLines hlines l).mpr (.inl ⟨x, hx, hlive, hl⟩), ?_⟩
    unfold Lease.lines at hl
    rw [hkind] at hl
    obtain ⟨q, -, rfl⟩ := List.mem_map.mp hl
    exact ⟨rfl, by dsimp only; omega, rfl⟩

variable {rules : List Rule}

/-- The lease of a checked request shows its rules for its device. -/
theorem projects_of_shown
    (hdevice : checkDevice e .replace b = .ok ()) (hrules : normalizeRules b = some rules)
    (h : Shown text (leaseOf e .trial b rules)) :
    Projects text b.sessionId b.deviceId b.deviceIp (e.now + (ttlOf .trial b).toNat) rules := by
  obtain ⟨hmac, htarget⟩ := checkDevice_replace hdevice
  have hmacstar := star_of_ne (ne_empty_of_field (macOk_field hmac).1)
  have hipstar : star b.deviceIp = b.deviceIp.toList := by
    apply star_of_ne
    intro heq
    obtain ⟨-, hne, -⟩ := address_chars (isAddress_of_targetValid htarget)
    rw [heq] at hne
    exact hne rfl
  have hdomain : ∀ q ∈ rules, star q.domain = q.domain.toList := fun q hq =>
    star_of_ne (ne_empty_of_field (domainOk_field (normalizeRules_ok hrules q hq)).1)
  obtain ⟨revision, lines, htext, hlines⟩ := h
  refine ⟨revision, lines, htext, fun l => ?_⟩
  rw [show b.sessionId = (leaseOf e .trial b rules).session from rfl, hlines l]
  show l ∈ rules.map _ ↔ _
  rw [List.mem_map]
  constructor
  · rintro ⟨q, hq, rfl⟩
    refine ⟨q, hq, ?_⟩
    rw [hdomain q hq]
    show (⟨_, _, star b.deviceId, star b.deviceIp, _, _, _, _⟩ : Line) = _
    rw [hmacstar, hipstar]
    rfl
  · rintro ⟨q, hq, rfl⟩
    refine ⟨q, hq, ?_⟩
    rw [hdomain q hq]
    show (⟨_, _, star b.deviceId, star b.deviceIp, _, _, _, _⟩ : Line) = _
    rw [hmacstar, hipstar]
    rfl

/-! ### Runs -/

/-- A call of `ad_dns_handle` or `ad_dns_reconcile`. -/
inductive Action where
  | handle (e : Env) (op : Operation) (b : Request)
  | reconcile (e : Env) (restart : Bool)

def Action.now : Action → ℕ
  | .handle e _ _ => e.now
  | .reconcile e _ => e.now

def step (σ : Sys) : Action → Sys
  | .handle e op b => (handle e σ op b).1
  | .reconcile e restart => (reconcile e σ restart).1

/-- The clock does not go back, a policy file can be opened, and a session that holds a lease asks
    for the device of this lease. -/
def Sound (σ : Sys) (clock : ℕ) : Action → Prop
  | .handle e op b =>
    clock ≤ e.now ∧ (σ.file ≠ none → e.opens = true) ∧
      (op = .observe → SameDevice σ.db.leases .observe b) ∧
      (op = .replace → SameDevice σ.db.leases .trial b)
  | .reconcile e _ => clock ≤ e.now

variable {a : Action}

theorem Sound.now (h : Sound σ clock a) : clock ≤ a.now := by
  cases a with
  | handle e op b => exact h.1
  | reconcile e restart => exact h

/-- The states of a run with the time of the last call, from a database without leases on. -/
inductive Run : Sys → ℕ → Prop
  | start (σ : Sys) (clock : ℕ) (hleases : σ.db.leases.rows = [])
      (hrequests : ∀ r ∈ σ.db.requests.rows, r.created ≤ clock) : Run σ clock
  | step (σ : Sys) (clock : ℕ) (a : Action) (h : Run σ clock) (hsound : Sound σ clock a) :
      Run (step σ a) a.now

/-- A run goes on, and neither the session ends or replaces its trial, nor does a reconciliation. -/
inductive Later (x : Lease) (σ : Sys) (clock : ℕ) : Sys → ℕ → Prop
  | refl : Later x σ clock σ clock
  | handle (σ' : Sys) (clock' : ℕ) (e : Env) (op : Operation) (b : Request)
      (h : Later x σ clock σ' clock') (hsound : Sound σ' clock' (.handle e op b))
      (hkeeps : x.session = b.sessionId → op = .replace ∨ op = .revoke →
        (handle e σ' op b).1.db = σ'.db ∧ (handle e σ' op b).2 ≠ .applyFailed false) :
      Later x σ clock (handle e σ' op b).1 e.now
  | reconcile (σ' : Sys) (clock' : ℕ) (e : Env) (restart : Bool) (h : Later x σ clock σ' clock')
      (hsound : Sound σ' clock' (.reconcile e restart)) (hkeeps : e.drops restart x = false) :
      Later x σ clock (reconcile e σ' restart).1 e.now

/-- What an operation promises. -/
structure HandleSafe (σ : Sys) (e : Env) (op : Operation) (b : Request) : Prop where
  database : (handle e σ op b).2.ok = false → (handle e σ op b).1.db = σ.db
  file : (handle e σ op b).2.ok = false → (handle e σ op b).2 ≠ .applyFailed false →
    content (handle e σ op b).1.file = content σ.file
  owner : ∀ x ∈ σ.db.leases.rows, ∀ y ∈ (handle e σ op b).1.db.leases.rows, x.key = y.key →
    x.owner = y.owner
  stranger : ∀ x ∈ σ.db.leases.rows, x.session = b.sessionId → x.owner ≠ b.operatorId →
    (handle e σ op b).1 = σ
  others : ∀ x, x.session ≠ b.sessionId →
    (x ∈ (handle e σ op b).1.db.leases.rows ↔ x ∈ σ.db.leases.rows)
  repeated : ∀ x, σ.db.requests.find (b.operatorId, b.requestId) = some x →
    (handle e σ op b).1 = σ ∧ (Accepted e op b → e.stores = true → (handle e σ op b).2 =
      if x.signature = signature op b then x.response
      else .failure "request_id_conflict" "幂等标识已用于其他请求")
  recorded : op ≠ .capabilities → op ≠ .status → op ≠ .preview → (handle e σ op b).2.ok = true →
    ∃ x, (handle e σ op b).1.db.requests.find (b.operatorId, b.requestId) = some x ∧
      x.signature = signature op b ∧ x.response = (handle e σ op b).2
  replaced : op = .replace → (handle e σ op b).2.ok = true →
    σ.db.requests.find (b.operatorId, b.requestId) = none →
    ∃ rules, normalizeRules b = some rules ∧ ∀ σ' clock',
      Later (leaseOf e .trial b rules) (handle e σ op b).1 e.now σ' clock' →
      clock' < e.now + (ttlOf .trial b).toNat →
      Projects (content σ'.file) b.sessionId b.deviceId b.deviceIp
        (e.now + (ttlOf .trial b).toNat) rules

/-! ### Operations keep their promise -/

theorem ok_of_tx (h : handleTx e snap db op b = .ok (db', r)) : r.ok = true := by
  obtain ⟨-, -, -, -, db₁, answer, heffect, rfl, -⟩ := handleTx_ok h
  cases heffect <;> rfl

theorem replace_of_tx (h : handleTx e snap db .replace b = .ok (db', r)) :
    ∃ rules, checkDevice e .replace b = .ok () ∧ normalizeRules b = some rules ∧
      30 ≤ ttlOf .trial b ∧ db'.leases = (db.putLease (leaseOf e .trial b rules)).leases := by
  obtain ⟨-, -, -, -, db₁, answer, heffect, -, hrec⟩ := handleTx_ok h
  cases heffect with
  | replace rules _ document hdevice hrules htake =>
    obtain ⟨hmin, -, -, -, rfl, rfl⟩ := takeLease_ok htake
    exact ⟨rules, hdevice, checkRules_ok hrules, hmin, (record_eq hrec).1⟩

/-- The statements of an operation keep the leases and the requests in order. -/
theorem LeasesOk.tx (h : LeasesOk db e.now)
    (hobserve : op = .observe → SameDevice db.leases .observe b)
    (hreplace : op = .replace → SameDevice db.leases .trial b)
    (htx : handleTx e snap db op b = .ok (db', r)) : LeasesOk db' e.now := by
  obtain ⟨-, hcheck, -⟩ := handleTx_ok htx
  have howner := owner_of_checkOwner hcheck h.oneOwner
  obtain ⟨db₁, hrequests, hrec⟩ := requests_of_tx htx
  have hcreated : ∀ q ∈ db'.requests.rows, q.created ≤ e.now := by
    intro q hq
    have hold : ∀ y ∈ db₁.requests.rows, y.created ≤ e.now := hrequests ▸ h.created
    obtain hq | rfl := (find_record hrec hold).2 q hq
    · exact hold q hq
    · exact Nat.le_refl _
  have hstep := leaseStep_of_tx htx
  generalize hleases : db'.leases = leases at hstep
  cases hstep with
  | take _ kind rules hop _ hcount hfree =>
    have hsame : SameDevice db.leases kind b := by
      obtain ⟨hop, rfl⟩ | ⟨hop, rfl, -⟩ := hop
      · exact hobserve hop
      · exact hreplace hop
    exact h.take howner hsame hcount hfree hleases hcreated
  | remove _ kind _ =>
    refine h.fewer ?_ hcreated
    rw [hleases]
    exact fun x hx => mem_of_mem_filter hx
  | keep =>
    refine h.fewer ?_ hcreated
    rw [hleases]
    exact fun x hx => hx

variable {leases : Table Lease.key} {y : Lease}

/-- A row of a table is the only one with its key. -/
theorem eq_of_key (hx : x ∈ leases.rows) (hy : y ∈ leases.rows) (hkey : x.key = y.key) : x = y :=
  inj_on_of_nodup_map leases.nodup hx hy hkey

theorem owner_of_step (h : LeaseStep e db b op leases)
    (hx : x ∈ db.leases.rows) (hy : y ∈ leases.rows) (hkey : x.key = y.key) : x.owner = y.owner := by
  cases h with
  | take _ kind rules _ _ _ _ =>
    obtain ⟨hold, -⟩ | ⟨z, hz, -, rfl⟩ | ⟨hnew, rfl⟩ := Table.mem_upsert.mp hy
    · rw [eq_of_key hx hold hkey]
    · rw [eq_of_key hx hz hkey]
    · exact absurd (List.mem_map.mpr ⟨x, hx, hkey⟩) hnew
  | remove _ kind _ => rw [eq_of_key hx (mem_of_mem_filter hy) hkey]
  | keep => rw [eq_of_key hx hy hkey]

/-- The leases of other sessions are left alone. -/
theorem others_of_step (h : LeaseStep e db b op leases)
    (hx : x.session ≠ b.sessionId) : x ∈ leases.rows ↔ x ∈ db.leases.rows := by
  cases h with
  | take _ kind rules _ _ _ _ =>
    have hkey : x.key ≠ (leaseOf e kind b rules).key := fun heq => hx (Prod.mk.inj heq).1
    constructor
    · intro hmem
      obtain ⟨hold, -⟩ | ⟨z, -, hz, rfl⟩ | ⟨-, rfl⟩ := Table.mem_upsert.mp hmem
      · exact hold
      · exact absurd (Prod.mk.inj hz).1 hx
      · exact absurd rfl hx
    · exact fun hold => Table.mem_upsert.mpr (.inl ⟨hold, hkey⟩)
  | remove _ kind _ =>
    constructor
    · exact fun hmem => mem_of_mem_filter hmem
    · exact fun hold => mem_filter.mpr ⟨hold, by simp [hx]⟩
  | keep => exact Iff.rfl

/-- A trial stays, unless its session replaces or revokes it. -/
theorem trial_of_step (h : LeaseStep e db b op leases)
    (hx : x ∈ db.leases.rows) (hkind : x.kind = .trial)
    (hkeeps : x.session = b.sessionId → op ≠ .replace ∧ op ≠ .revoke) : x ∈ leases.rows := by
  by_cases hsession : x.session = b.sessionId
  · obtain ⟨hreplace, hrevoke⟩ := hkeeps hsession
    cases h with
    | take _ kind rules hop _ _ _ =>
      obtain ⟨-, rfl⟩ | ⟨hop, -⟩ := hop
      · refine Table.mem_upsert.mpr (.inl ⟨hx, fun heq => ?_⟩)
        have hobserve : x.kind = .observe := (Prod.mk.inj heq).2
        rw [hkind] at hobserve
        cases hobserve
      · exact absurd hop hreplace
    | remove _ kind hop =>
      obtain ⟨hop, -⟩ | ⟨-, rfl⟩ := hop
      · exact absurd hop hrevoke
      · exact mem_filter.mpr ⟨hx, by simp [hkind]⟩
    | keep => exact hx
  · exact (others_of_step h hsession).mpr hx

/-! ### A trial stays in the file -/

/-- The lease of a trial and its lines. -/
def Kept (x : Lease) (σ : Sys) : Prop := x ∈ σ.db.leases.rows ∧ Shown (content σ.file) x

theorem Kept.handle (h : Kept x σ) (hkind : x.kind = .trial) (hlive : e.now < x.expires)
    (hopen : σ.file ≠ none → e.opens = true)
    (hkeeps : x.session = b.sessionId → op = .replace ∨ op = .revoke →
      (handle e σ op b).1.db = σ.db ∧ (handle e σ op b).2 ≠ .applyFailed false) :
    Kept x (handle e σ op b).1 := by
  have hend := handle_ending e σ op b
  generalize DnsPolicy.handle e σ op b = done at hkeeps hend ⊢
  obtain ⟨σ', r⟩ := done
  -- the statements of the operation leave the trial alone
  have hstays : ∀ db', (x.session = b.sessionId → op ≠ .replace ∧ op ≠ .revoke) →
      (∃ r, handleTx e (snapshot e σ.file) σ.db op b = .ok (db', r)) → x ∈ db'.leases.rows :=
    fun db' hother ⟨_, htx⟩ => trial_of_step (leaseStep_of_tx htx) h.1 hkind hother
  cases hend with
  | unchanged _ _ => exact h
  | committed db' _ text _ htx hproject =>
    have hmem : x ∈ db'.leases.rows := by
      by_cases hown : x.session = b.sessionId ∧ (op = .replace ∨ op = .revoke)
      · obtain ⟨hdb, -⟩ := hkeeps hown.1 hown.2
        dsimp only at hdb
        rw [hdb]
        exact h.1
      · exact hstays db' (fun hs => not_or.mp fun hop => hown ⟨hs, hop⟩) ⟨_, htx⟩
    exact ⟨hmem, shown_of_project hmem hkind hlive hproject⟩
  | rolledBack _ _ old _ hold =>
    refine ⟨h.1, ?_⟩
    show Shown old x
    rw [content_of_snapshot hopen hold]
    exact h.2
  | failed db' _ file htx hfile =>
    refine ⟨h.1, ?_⟩
    obtain rfl | ⟨text, hproject, rfl⟩ := hfile
    · exact h.2
    · refine shown_of_project (hstays db' (fun hs => not_or.mp fun hop => ?_) ⟨_, htx⟩) hkind hlive
        hproject
      exact (hkeeps hs hop).2 rfl

theorem mem_reconcile (e : Env) (σ : Sys) (restart : Bool) (y : Lease) :
    y ∈ (reconcile e σ restart).1.db.leases.rows → y ∈ σ.db.leases.rows := by
  have hrows : ∀ y ∈ (reconcileTx e σ.db restart).leases.rows, y ∈ σ.db.leases.rows := by
    intro y hy
    unfold reconcileTx at hy
    dsimp only at hy
    split at hy <;> split at hy <;> exact mem_of_mem_filter hy
  unfold reconcile
  split
  · exact fun hy => hy
  dsimp only
  split
  · exact hrows y
  · exact hrows y

variable {restart : Bool}

theorem mem_reconcileTx (hx : x ∈ db.leases.rows) (hkeeps : e.drops restart x = false) :
    x ∈ (reconcileTx e db restart).leases.rows := by
  have hmem : x ∈ (db.leases.delete (e.drops restart)).rows := mem_filter.mpr ⟨hx, by simp [hkeeps]⟩
  unfold reconcileTx
  dsimp only
  split <;> split <;> exact hmem

theorem Kept.reconcile (h : Kept x σ) (hkind : x.kind = .trial)
    (hlive : e.now < x.expires) (hkeeps : e.drops restart x = false) :
    Kept x (reconcile e σ restart).1 := by
  have hmem := mem_reconcileTx h.1 hkeeps
  unfold DnsPolicy.reconcile
  split
  · exact h
  dsimp only
  split
  · exact ⟨hmem, h.2⟩
  obtain hfile | ⟨text, hproject, hfile⟩ :=
    projectFile_cases e (reconcileTx e σ.db restart) σ.file
  · rw [hfile]
    exact ⟨hmem, h.2⟩
  · rw [hfile]
    exact ⟨hmem, shown_of_project hmem hkind hlive hproject⟩

/-- **A trial stays in the file** as long as it has not expired. -/
theorem Kept.later (h : Kept x σ) (hkind : x.kind = .trial) (hrun : Later x σ clock σ' clock')
    (hlive : clock' < x.expires) : Kept x σ' := by
  induction hrun with
  | refl => exact h
  | handle σ' clock' e op b _ hsound hkeeps ih =>
    obtain ⟨hnow, hopen, -⟩ := hsound
    exact (ih (Nat.lt_of_le_of_lt hnow hlive)).handle hkind hlive hopen hkeeps
  | reconcile σ' clock' e restart _ hsound hkeeps ih =>
    exact (ih (Nat.lt_of_le_of_lt hsound hlive)).reconcile hkind hlive hkeeps

/-! ### Every operation of a run -/

/-- What has been carried out has passed the check of the owner. -/
theorem owner_of_tx (hone : OneOwner db.leases) (htx : handleTx e snap db op b = .ok (db', r)) :
    ∀ x ∈ db.leases.rows, x.session = b.sessionId → x.owner = b.operatorId := by
  obtain ⟨-, hcheck, -⟩ := handleTx_ok htx
  exact owner_of_checkOwner hcheck hone

theorem Ending.database (h : Ending e σ op b σ' r) (hok : r.ok = false) : σ'.db = σ.db := by
  cases h with
  | unchanged _ _ => rfl
  | committed db' _ text _ htx _ => exact absurd hok (by simp [ok_of_tx htx])
  | rolledBack _ _ old _ _ => rfl
  | failed _ _ file _ _ => rfl

theorem Ending.file (h : Ending e σ op b σ' r) (hopen : σ.file ≠ none → e.opens = true)
    (hok : r.ok = false) (hrestored : r ≠ .applyFailed false) : content σ'.file = content σ.file := by
  cases h with
  | unchanged _ _ => rfl
  | committed db' _ text _ htx _ => exact absurd hok (by simp [ok_of_tx htx])
  | rolledBack _ _ old _ hold => exact content_of_snapshot hopen hold
  | failed _ _ file _ _ => exact absurd rfl hrestored

theorem Ending.owner (h : Ending e σ op b σ' r) (hx : x ∈ σ.db.leases.rows)
    (hy : y ∈ σ'.db.leases.rows) (hkey : x.key = y.key) : x.owner = y.owner := by
  cases h with
  | unchanged _ _ => rw [eq_of_key hx hy hkey]
  | committed db' _ text _ htx _ => exact owner_of_step (leaseStep_of_tx htx) hx hy hkey
  | rolledBack _ _ old _ _ => rw [eq_of_key hx hy hkey]
  | failed _ _ file _ _ => rw [eq_of_key hx hy hkey]

theorem Ending.stranger (h : Ending e σ op b σ' r) (hone : OneOwner σ.db.leases)
    (hx : x ∈ σ.db.leases.rows) (hsession : x.session = b.sessionId)
    (howner : x.owner ≠ b.operatorId) : σ' = σ := by
  cases h with
  | unchanged _ _ => rfl
  | committed db' _ text _ htx _ => exact absurd (owner_of_tx hone htx x hx hsession) howner
  | rolledBack _ _ old htx _ => exact absurd (owner_of_tx hone htx x hx hsession) howner
  | failed _ _ file htx _ => exact absurd (owner_of_tx hone htx x hx hsession) howner

theorem Ending.others (h : Ending e σ op b σ' r) (hx : x.session ≠ b.sessionId) :
    x ∈ σ'.db.leases.rows ↔ x ∈ σ.db.leases.rows := by
  cases h with
  | unchanged _ _ => exact Iff.rfl
  | committed db' _ text _ htx _ => exact others_of_step (leaseStep_of_tx htx) hx
  | rolledBack _ _ old _ _ => exact Iff.rfl
  | failed _ _ file _ _ => exact Iff.rfl

theorem Ending.recorded (h : Ending e σ op b σ' r)
    (hcreated : ∀ q ∈ σ.db.requests.rows, q.created ≤ e.now)
    (hcap : op ≠ .capabilities) (hstatus : op ≠ .status) (hpreview : op ≠ .preview)
    (hok : r.ok = true) :
    ∃ q, σ'.db.requests.find (b.operatorId, b.requestId) = some q ∧ q.signature = signature op b ∧
      q.response = r := by
  cases h with
  | unchanged _ hr =>
    obtain (hno | hno) | hno | ⟨q, hq, hsame, hresponse⟩ := hr hok
    · exact absurd hno hcap
    · exact absurd hno hstatus
    · exact absurd hno hpreview
    · exact ⟨q, hq, hsame, hresponse.symm⟩
  | committed db' _ text _ htx _ =>
    obtain ⟨db₁, hrequests, hrec⟩ := requests_of_tx htx
    have hold : ∀ y ∈ db₁.requests.rows, y.created ≤ e.now := hrequests ▸ hcreated
    exact ⟨_, (find_record hrec hold).1, rfl, rfl⟩
  | rolledBack _ _ old _ _ => cases hok
  | failed _ _ file _ _ => cases hok

/-- A successful replacement leaves the trial that it asks for. -/
theorem Ending.replaced (h : Ending e σ .replace b σ' r) (hone : OneOwner σ.db.leases)
    (hsame : SameDevice σ.db.leases .trial b) (hok : r.ok = true)
    (hnew : σ.db.requests.find (b.operatorId, b.requestId) = none) :
    ∃ rules, checkDevice e .replace b = .ok () ∧ normalizeRules b = some rules ∧
      Kept (leaseOf e .trial b rules) σ' := by
  cases h with
  | unchanged _ hr =>
    obtain (hno | hno) | hno | ⟨q, hq, -⟩ := hr hok
    · cases hno
    · cases hno
    · cases hno
    · rw [hnew] at hq
      cases hq
  | committed db' _ text _ htx hproject =>
    obtain ⟨rules, hdevice, hrules, httl, hleases⟩ := replace_of_tx htx
    have hmem : leaseOf e .trial b rules ∈ db'.leases.rows := by
      rw [hleases]
      exact (mem_putLease (owner_of_tx hone htx) hsame).mpr (.inr rfl)
    have hlive : e.now < (leaseOf e .trial b rules).expires := by
      show e.now < e.now + (ttlOf .trial b).toNat
      omega
    exact ⟨rules, hdevice, hrules, hmem, shown_of_project hmem rfl hlive hproject⟩
  | rolledBack _ _ old _ _ => cases hok
  | failed _ _ file _ _ => cases hok

theorem handleSafe_of_leasesOk (h : LeasesOk σ.db clock) (hsound : Sound σ clock (.handle e op b)) :
    HandleSafe σ e op b := by
  obtain ⟨hnow, hopen, -, hreplace⟩ := hsound
  have hend := handle_ending e σ op b
  refine ⟨hend.database, hend.file hopen, fun x hx y hy => hend.owner hx hy,
    fun x hx => hend.stranger h.oneOwner hx, fun x => hend.others, fun q => handle_repeated,
    hend.recorded (h.later hnow).created, ?_⟩
  rintro rfl hok hnew
  obtain ⟨rules, hdevice, hrules, hkept⟩ := hend.replaced h.oneOwner (hreplace rfl) hok hnew
  refine ⟨rules, hrules, fun σ₂ clock₂ hlater hlive => ?_⟩
  exact projects_of_shown hdevice hrules (hkept.later rfl hlater hlive).2

/-- A step keeps the leases and the requests in order. -/
theorem LeasesOk.step (h : LeasesOk σ.db clock) (hsound : Sound σ clock a) :
    LeasesOk (step σ a).db a.now := by
  have hnow := hsound.now
  cases a with
  | handle e op b =>
    obtain ⟨-, -, hobserve, hreplace⟩ := hsound
    have hend := handle_ending e σ op b
    show LeasesOk (handle e σ op b).1.db e.now
    generalize handle e σ op b = done at hend ⊢
    obtain ⟨σ', r⟩ := done
    cases hend with
    | unchanged _ _ => exact h.later hnow
    | committed db' _ text _ htx _ => exact (h.later hnow).tx hobserve hreplace htx
    | rolledBack _ _ old _ _ => exact h.later hnow
    | failed _ _ file _ _ => exact h.later hnow
  | reconcile e restart =>
    refine (h.later hnow).fewer (mem_reconcile e σ restart) ?_
    intro q hq
    apply (h.later hnow).created
    have hrows : ∀ q ∈ (reconcileTx e σ.db restart).requests.rows, q ∈ σ.db.requests.rows := by
      intro q hq
      unfold reconcileTx at hq
      dsimp only at hq
      split at hq <;> split at hq
      · exact mem_of_mem_filter hq
      · exact mem_of_mem_filter hq
      · exact hq
      · exact hq
    change q ∈ (DnsPolicy.reconcile e σ restart).1.db.requests.rows at hq
    unfold DnsPolicy.reconcile at hq
    split at hq
    · exact hq
    dsimp only at hq
    split at hq
    · exact hrows q hq
    · exact hrows q hq

theorem leasesOk_of_run (h : Run σ clock) : LeasesOk σ.db clock := by
  induction h with
  | start σ clock hleases hrequests =>
    have hnone : ∀ x, x ∉ σ.db.leases.rows := by
      intro x hx
      rw [hleases] at hx
      cases hx
    exact ⟨fun x hx => absurd hx (hnone x), fun x hx => absurd hx (hnone x),
      fun x hx => absurd hx (hnone x), hrequests⟩
  | step σ clock a _ hsound ih => exact ih.step hsound

/-- **Leases along a run**: whatever the order of the calls, the sessions are kept apart and every
    operation keeps its promise, if sessions keep to the device of their lease. -/
theorem leases_run (h : Run σ clock) : (Exclusive σ.db.leases clock ∧ AtMostTwo σ.db.leases clock) ∧
      (∀ e op b, Sound σ clock (.handle e op b) → HandleSafe σ e op b) ∧
      ∀ e restart, ∀ y ∈ (reconcile e σ restart).1.db.leases.rows, y ∈ σ.db.leases.rows := by
  have hok := leasesOk_of_run h
  exact ⟨⟨hok.exclusive, hok.atMostTwo⟩, fun e op b hsound => handleSafe_of_leasesOk hok hsound,
    fun e restart y => mem_reconcile e σ restart y⟩

/-! ### A second device -/

/-- The device of a projected trial is named in the file. -/
theorem mac_infix_of_projects {session mac ip : String} {expires : ℕ} {q : Rule}
    (h : Projects text session mac ip expires (q :: rules)) :
    mac.toList <:+: text := by
  obtain ⟨revision, lines, rfl, hlines⟩ := h
  obtain ⟨hl, -⟩ := (hlines _).mpr ⟨q, mem_cons_self, rfl⟩
  obtain ⟨front, back, rfl⟩ := append_of_mem hl
  unfold fileText
  rw [flatMap_append, flatMap_cons]
  refine List.IsInfix.trans ?_ (infix_append' (headerText revision ++ front.flatMap Line.text)
    (Line.text ⟨'R', session.toList, mac.toList, ip.toList, expires, actionChar q.action, 'E',
      q.domain.toList⟩) (back.flatMap Line.text) |>.trans (by simp))
  exact ⟨'R' :: ' ' :: (session.toList ++ [' ']), _, by simp [Line.text]; rfl⟩

/-- The network of `anEnv` with a second device. -/
def twoDevices : Env :=
  { anEnv with leases := anEnv.leases ++ [⟨0, "02:00:00:00:00:17", "10.0.0.6", by decide +kernel⟩] }

/-- A second trial under the session, for the second device. -/
def otherTrial : Request :=
  { aTrial "s1" with
    requestId := "r2"
    deviceId := "02:00:00:00:00:17"
    deviceIp := "10.0.0.6"
    scope := ⟨"device", "02:00:00:00:00:17"⟩
    providerRevision := 2 }

def idle : Sys := ⟨emptyDb, none⟩

def firstTrial : Sys := step idle (.handle twoDevices .replace (aTrial "s1"))

theorem run_idle : Run idle 0 := Run.start idle 0 rfl fun _ hr => absurd hr not_mem_nil

theorem sound_firstTrial : Sound idle 0 (.handle twoDevices .replace (aTrial "s1")) :=
  ⟨Nat.zero_le _, fun h => absurd rfl h, nofun, fun _ _ hl => absurd hl not_mem_nil⟩

theorem run_firstTrial : Run firstTrial 1000 := Run.step idle 0 _ run_idle sound_firstTrial

/-- **A renewed lease keeps its device**: a session that replaces its trial by one for another device
    is told that it is applied, and the file has nothing for that device. -/
theorem second_device_not_projected :
    Run firstTrial 1000 ∧ ¬ HandleSafe firstTrial twoDevices .replace otherTrial := by
  refine ⟨run_firstTrial, fun hsafe => ?_⟩
  have hok : (handle twoDevices firstTrial .replace otherTrial).2.ok = true := by decide +kernel
  obtain ⟨rules, hrules, hprojects⟩ := hsafe.replaced rfl hok (by decide +kernel)
  have hone : normalizeRules otherTrial = some [⟨"ads.example.com", .block⟩] := by decide +kernel
  obtain rfl := Option.some.inj (hone.symm.trans hrules)
  have hmac := mac_infix_of_projects (hprojects _ _ Later.refl (by decide +kernel))
  revert hmac
  decide +kernel

theorem leases_run_trial : HandleSafe idle twoDevices .replace (aTrial "s1") :=
  (leases_run run_idle).2.1 twoDevices .replace (aTrial "s1") sound_firstTrial

end DreamingOS.DnsPolicy
