import DreamingOS.DnsPolicy.Invariant

namespace DreamingOS.DnsPolicy

/-!
# DNS policy — the leases of the sessions

What the operations do to the leases and to the recorded requests.

* `LeaseStep` — an operation takes or renews one lease, removes one, or leaves them alone;
* `Exclusive`, `AtMostTwo`, `OneOwner` — what is to hold of the leases at any time;
* `mem_putLease` — a lease is renewed as it would be taken, when the request names its device;
* `find_record` — a recorded request is found again.
-/

open Outcome List

/-! ### What an operation does to the leases -/

/-- The lease that a request asks for. -/
def leaseOf (e : Env) (kind : LeaseKind) (b : Request) (rules : List Rule) : Lease :=
  let expires := e.now + (ttlOf kind b).toNat
  ⟨b.sessionId, kind, b.operatorId, b.deviceId, b.deviceIp, expires,
    ⟨b.trialId, b.sessionId, expires, rules, b.scope⟩⟩

/-- The leases before and after the statements of an operation. -/
inductive LeaseStep (e : Env) (db : Db) (b : Request) : Operation → Table Lease.key → Prop
  | take (op : Operation) (kind : LeaseKind) (rules : List Rule)
      (hop : (op = .observe ∧ kind = .observe) ∨
        (op = .replace ∧ kind = .trial ∧ normalizeRules b = some rules))
      (httl : 30 ≤ ttlOf kind b)
      (hcount : (db.othersHolding kind b.sessionId e.now).length < 2)
      (hfree : ∀ l ∈ db.othersHolding kind b.sessionId e.now, l.mac ≠ b.deviceId ∧ l.ip ≠ b.deviceIp) :
      LeaseStep e db b op (db.putLease (leaseOf e kind b rules)).leases
  | remove (op : Operation) (kind : LeaseKind)
      (hop : (op = .revoke ∧ kind = .trial) ∨ (op = .stop ∧ kind = .observe)) :
      LeaseStep e db b op (db.removeLease b.sessionId kind).leases
  | keep : LeaseStep e db b .commit db.leases

variable {e : Env} {db db' : Db} {b : Request} {op : Operation} {r : Response}
  {snap : Option (List Char)} {kind : LeaseKind} {rules : List Rule}

variable {named : List (Rule × String)}

theorem putRules_leases {policy : String} (h : putRules policy db named = some db') :
    db'.leases = db.leases ∧ db'.requests = db.requests := by
  induction named generalizing db with
  | nil =>
    obtain rfl := Option.some.inj h
    exact ⟨rfl, rfl⟩
  | cons x named ih =>
    obtain ⟨r, id⟩ := x
    unfold putRules at h
    split at h
    · next db₁ hput =>
      unfold Db.putOverride at hput
      split at hput
      · cases hput
      · obtain rfl := Option.some.inj hput
        have ih := ih h
        exact ih
    · cases h

/-- Saving rules touches neither leases nor requests. -/
theorem commitRules_leases (h : commitRules db b named = some db') :
    db'.leases = db.leases ∧ db'.requests = db.requests := by
  unfold commitRules at h
  dsimp only at h
  have hrules := putRules_leases h
  split at hrules
  · exact hrules
  · exact hrules

/-- **An operation that comes to its projection** takes a lease, removes one, or leaves them. -/
theorem leaseStep_of_tx (h : handleTx e snap db op b = .ok (db', r)) :
    LeaseStep e db b op db'.leases := by
  obtain ⟨-, -, -, -, db₁, answer, heffect, -, hrec⟩ := handleTx_ok h
  rw [(record_eq hrec).1]
  cases heffect with
  | observe _ document _ htake =>
    obtain ⟨hmin, -, hcount, hfree, rfl, rfl⟩ := takeLease_ok htake
    exact LeaseStep.take .observe .observe [] (.inl ⟨rfl, rfl⟩) hmin hcount hfree
  | replace rules _ document _ hrules htake =>
    obtain ⟨hmin, -, hcount, hfree, rfl, rfl⟩ := takeLease_ok htake
    exact LeaseStep.take .replace .trial rules (.inr ⟨rfl, rfl, checkRules_ok hrules⟩) hmin hcount
      hfree
  | commit rules _ _ _ hcommit =>
    show LeaseStep e db b .commit db₁.leases
    rw [(commitRules_leases hcommit).1]
    exact LeaseStep.keep
  | revoke => exact LeaseStep.remove .revoke .trial (.inl ⟨rfl, rfl⟩)
  | stop => exact LeaseStep.remove .stop .observe (.inr ⟨rfl, rfl⟩)

/-- The statements of an operation keep the requests, but for the one they record. -/
theorem requests_of_tx (h : handleTx e snap db op b = .ok (db', r)) :
    ∃ db₁ : Db, db₁.requests = db.requests ∧ db₁.record (storedOf e op b r) = some db' := by
  obtain ⟨-, -, -, -, db₁, answer, heffect, -, hrec⟩ := handleTx_ok h
  refine ⟨db₁.bump, ?_, hrec⟩
  show db₁.requests = db.requests
  cases heffect with
  | observe _ document _ htake =>
    obtain ⟨-, -, -, -, -, rfl⟩ := takeLease_ok htake
    rfl
  | replace rules _ document _ _ htake =>
    obtain ⟨-, -, -, -, -, rfl⟩ := takeLease_ok htake
    rfl
  | commit rules _ _ _ hcommit => exact (commitRules_leases hcommit).2
  | revoke => rfl
  | stop => rfl

/-! ### Owners -/

/-- All leases of a session have one owner. -/
def OneOwner (leases : Table Lease.key) : Prop :=
  ∀ x ∈ leases.rows, ∀ y ∈ leases.rows, x.session = y.session → x.owner = y.owner

/-- One lease has been looked at, and speaks for all of its session. -/
theorem owner_of_checkOwner (h : checkOwner db b = .ok ()) (hone : OneOwner db.leases) :
    ∀ l ∈ db.leases.rows, l.session = b.sessionId → l.owner = b.operatorId := by
  intro l hl hsession
  unfold checkOwner at h
  split at h
  · next x hx =>
    have hxs : x.session = b.sessionId := by simpa using find?_some hx
    have howner : x.owner = b.operatorId := by simpa using require_ok h
    rw [← howner]
    exact hone l hl x (mem_of_find?_eq_some hx) (hsession.trans hxs.symm)
  · next hnone =>
    have hno := find?_eq_none.mp hnone l hl
    simp [hsession] at hno

/-! ### Taking a lease -/

/-- What a session already holds is for the device of the request. -/
def SameDevice (leases : Table Lease.key) (kind : LeaseKind) (b : Request) : Prop :=
  ∀ l ∈ leases.rows, l.session = b.sessionId → l.kind = kind →
    l.mac = b.deviceId ∧ l.ip = b.deviceIp

/-- The statement keeps owner, mac and ip of a renewed lease; these are the ones of the request. -/
theorem mem_putLease (howner : ∀ l ∈ db.leases.rows, l.session = b.sessionId → l.owner = b.operatorId)
    (hsame : SameDevice db.leases kind b) {x : Lease} :
    x ∈ (db.putLease (leaseOf e kind b rules)).leases.rows ↔
      (x ∈ db.leases.rows ∧ x.key ≠ (b.sessionId, kind)) ∨ x = leaseOf e kind b rules := by
  have hkey : (leaseOf e kind b rules).key = (b.sessionId, kind) := rfl
  have hrenewed : ∀ old ∈ db.leases.rows, old.key = (b.sessionId, kind) →
      ({ old with expires := (leaseOf e kind b rules).expires
                  document := (leaseOf e kind b rules).document } : Lease) =
        leaseOf e kind b rules := by
    intro old hold hk
    obtain ⟨hsession, hkind⟩ := Prod.mk.inj hk
    obtain ⟨hmac, hip⟩ := hsame old hold hsession hkind
    have how := howner old hold hsession
    obtain ⟨session, kind', owner, mac, ip, expires, document⟩ := old
    dsimp only at hsession hkind hmac hip how
    rw [hsession, hkind, hmac, hip, how]
    rfl
  refine Iff.trans Table.mem_upsert ?_
  rw [hkey]
  constructor
  · rintro (hold | ⟨old, hold, hk, rfl⟩ | ⟨-, rfl⟩)
    · exact .inl hold
    · exact .inr (hrenewed old hold hk)
    · exact .inr rfl
  · rintro (hold | rfl)
    · exact .inl hold
    · by_cases hmem : (b.sessionId, kind) ∈ db.leases.rows.map Lease.key
      · obtain ⟨old, hold, hk⟩ := List.mem_map.mp hmem
        exact .inr (.inl ⟨old, hold, hk, (hrenewed old hold hk).symm⟩)
      · exact .inr (.inr ⟨hmem, rfl⟩)

/-! ### What holds of the leases -/

/-- Unexpired leases of one kind that different sessions hold share neither mac nor ip. -/
def Exclusive (leases : Table Lease.key) (now : ℕ) : Prop :=
  ∀ x ∈ leases.rows, ∀ y ∈ leases.rows, x.kind = y.kind → x.session ≠ y.session →
    now < x.expires → now < y.expires → x.mac ≠ y.mac ∧ x.ip ≠ y.ip

/-- No three sessions hold unexpired leases of one kind. -/
def AtMostTwo (leases : Table Lease.key) (now : ℕ) : Prop :=
  ∀ x ∈ leases.rows, ∀ y ∈ leases.rows, ∀ z ∈ leases.rows, x.kind = y.kind → x.kind = z.kind →
    now < x.expires → now < y.expires → now < z.expires →
    x.session = y.session ∨ x.session = z.session ∨ y.session = z.session

/-- What holds of the database at a time. -/
structure LeasesOk (db : Db) (now : ℕ) : Prop where
  exclusive : Exclusive db.leases now
  atMostTwo : AtMostTwo db.leases now
  oneOwner : OneOwner db.leases
  created : ∀ r ∈ db.requests.rows, r.created ≤ now

variable {now : ℕ}

/-- Leases expire, and none comes back. -/
theorem LeasesOk.later {now' : ℕ} (h : LeasesOk db now) (hnow : now ≤ now') : LeasesOk db now' where
  exclusive := fun x hx y hy hkind hsession hlx hly =>
    h.exclusive x hx y hy hkind hsession (by omega) (by omega)
  atMostTwo := fun x hx y hy z hz hxy hxz hlx hly hlz =>
    h.atMostTwo x hx y hy z hz hxy hxz (by omega) (by omega) (by omega)
  oneOwner := h.oneOwner
  created := fun r hr => Nat.le_trans (h.created r hr) hnow

/-- Fewer leases are none the worse. -/
theorem LeasesOk.fewer (h : LeasesOk db now) (hleases : ∀ x ∈ db'.leases.rows, x ∈ db.leases.rows)
    (hrequests : ∀ r ∈ db'.requests.rows, r.created ≤ now) : LeasesOk db' now where
  exclusive := fun x hx y hy => h.exclusive x (hleases x hx) y (hleases y hy)
  atMostTwo := fun x hx y hy z hz => h.atMostTwo x (hleases x hx) y (hleases y hy) z (hleases z hz)
  oneOwner := fun x hx y hy => h.oneOwner x (hleases x hx) y (hleases y hy)
  created := hrequests

theorem mem_othersHolding {session : String} {x : Lease} : x ∈ db.othersHolding kind session now ↔
      x ∈ db.leases.rows ∧ x.kind = kind ∧ x.session ≠ session ∧ now < x.expires := by
  unfold Db.othersHolding
  simp [and_assoc]

theorem eq_of_length_lt_two {α : Type} {l : List α} (h : l.length < 2) {x y : α} (hx : x ∈ l)
    (hy : y ∈ l) : x = y := by
  obtain hzero | hone : l.length = 0 ∨ l.length = 1 := by omega
  · rw [length_eq_zero_iff] at hzero
    exact absurd (hzero ▸ hx) not_mem_nil
  · obtain ⟨a, rfl⟩ := length_eq_one_iff.mp hone
    rw [mem_singleton.mp hx, mem_singleton.mp hy]

/-- Taking a lease, after the checks, keeps the sessions apart. -/
theorem LeasesOk.take (h : LeasesOk db e.now)
    (howner : ∀ l ∈ db.leases.rows, l.session = b.sessionId → l.owner = b.operatorId)
    (hsame : SameDevice db.leases kind b)
    (hcount : (db.othersHolding kind b.sessionId e.now).length < 2)
    (hfree : ∀ l ∈ db.othersHolding kind b.sessionId e.now, l.mac ≠ b.deviceId ∧ l.ip ≠ b.deviceIp)
    (hleases : db'.leases = (db.putLease (leaseOf e kind b rules)).leases)
    (hrequests : ∀ r ∈ db'.requests.rows, r.created ≤ e.now) : LeasesOk db' e.now := by
  have hrows : ∀ x ∈ db'.leases.rows, x ∈ db.leases.rows ∨ x = leaseOf e kind b rules := by
    intro x hx
    rw [hleases] at hx
    obtain ⟨hold, -⟩ | hnew := (mem_putLease howner hsame).mp hx
    · exact .inl hold
    · exact .inr hnew
  -- another session that holds a lease of the kind is among those that have been counted
  have hother : ∀ x ∈ db.leases.rows, x.kind = kind → x.session ≠ b.sessionId → e.now < x.expires →
      x ∈ db.othersHolding kind b.sessionId e.now :=
    fun x hx hkind hsession hlive => mem_othersHolding.mpr ⟨hx, hkind, hsession, hlive⟩
  have hpair : ∀ x ∈ db.leases.rows, ∀ y ∈ db.leases.rows, x.kind = kind → y.kind = kind →
      e.now < x.expires → e.now < y.expires → x.session ≠ b.sessionId →
      y.session ≠ b.sessionId → x.session = y.session :=
    fun x hx y hy hkx hky hlx hly hsx hsy =>
      congrArg Lease.session (eq_of_length_lt_two hcount (hother x hx hkx hsx hlx)
        (hother y hy hky hsy hly))
  refine ⟨?_, ?_, ?_, hrequests⟩
  · intro x hx y hy hkind hsession hlx hly
    obtain hx | rfl := hrows x hx
    · obtain hy | rfl := hrows y hy
      · exact h.exclusive x hx y hy hkind hsession hlx hly
      · exact hfree x (hother x hx hkind hsession hlx)
    · obtain hy | rfl := hrows y hy
      · obtain ⟨hmac, hip⟩ := hfree y (hother y hy hkind.symm (Ne.symm hsession) hly)
        exact ⟨Ne.symm hmac, Ne.symm hip⟩
      · exact absurd rfl hsession
  · intro x hx y hy z hz hxy hxz hlx hly hlz
    by_contra hthree
    simp only [not_or] at hthree
    obtain ⟨hsxy, hsxz, hsyz⟩ := hthree
    obtain hx | rfl := hrows x hx
    · obtain hy | rfl := hrows y hy
      · obtain hz | rfl := hrows z hz
        · obtain hs | hs | hs := h.atMostTwo x hx y hy z hz hxy hxz hlx hly hlz
          · exact hsxy hs
          · exact hsxz hs
          · exact hsyz hs
        · exact hsxy (hpair x hx y hy hxz (hxy.symm.trans hxz) hlx hly hsxz hsyz)
      · obtain hz | rfl := hrows z hz
        · exact hsxz (hpair x hx z hz hxy (hxz.symm.trans hxy) hlx hlz hsxy (Ne.symm hsyz))
        · exact hsyz rfl
    · obtain hy | rfl := hrows y hy
      · obtain hz | rfl := hrows z hz
        · exact hsyz (hpair y hy z hz hxy.symm hxz.symm hly hlz (Ne.symm hsxy) (Ne.symm hsxz))
        · exact hsxz rfl
      · exact hsxy rfl
  · intro x hx y hy hsession
    obtain hx | rfl := hrows x hx
    · obtain hy | rfl := hrows y hy
      · exact h.oneOwner x hx y hy hsession
      · exact howner x hx hsession
    · obtain hy | rfl := hrows y hy
      · exact (howner y hy hsession.symm).symm
      · rfl

/-! ### Recorded requests -/

variable {x : Stored}

/-- The newest of the rows is among those that are kept. -/
theorem mem_trimRequests {rows : List Stored} (hrows : db.requests.rows = rows ++ [x])
    (hnewest : ∀ y ∈ rows, y.created ≤ x.created) : x ∈ db.trimRequests.requests.rows := by
  obtain ⟨before, behind, hsort, -, hbefore⟩ := @List.mergeSort_cons Stored
    (fun a b => decide (b.created ≤ a.created))
    (fun a b c hab hbc => by simp at hab hbc ⊢; omega) (fun a b => by simp; omega) x rows.reverse
  have hnone : before = [] := by
    rw [eq_nil_iff_forall_not_mem]
    intro y hy
    have hlt := hbefore y hy
    have hmem : y ∈ (x :: rows.reverse).mergeSort fun a b => decide (b.created ≤ a.created) := by
      rw [hsort]
      exact mem_append_left _ hy
    rw [mem_mergeSort, mem_cons, mem_reverse] at hmem
    obtain rfl | hmem := hmem
    · simp at hlt
    · have hle := hnewest y hmem
      simp at hlt
      omega
  unfold Db.trimRequests
  show x ∈ (db.requests.rows.filter _)
  rw [mem_filter, hrows, reverse_append, reverse_singleton, singleton_append, hsort, hnone]
  exact ⟨mem_append_right _ (mem_singleton.mpr rfl), by simp⟩

/-- **A recorded request is found again**, when none of the others is from a later time. -/
theorem find_record (h : db.record x = some db')
    (hcreated : ∀ y ∈ db.requests.rows, y.created ≤ x.created) :
    db'.requests.find x.key = some x ∧ ∀ y ∈ db'.requests.rows, y ∈ db.requests.rows ∨ y = x := by
  unfold Db.record at h
  split at h
  · next hnew =>
    obtain rfl := Option.some.inj h
    refine ⟨Table.find_eq_some.mpr ⟨?_, rfl⟩, ?_⟩
    · exact mem_trimRequests rfl hcreated
    · intro y hy
      have hy : y ∈ db.requests.rows ++ [x] := mem_of_mem_filter hy
      rw [mem_append, mem_singleton] at hy
      exact hy
  · cases h

end DreamingOS.DnsPolicy
