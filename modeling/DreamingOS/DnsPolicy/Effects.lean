import DreamingOS.DnsPolicy.Control
import DreamingOS.Lib.Outcome

namespace DreamingOS.DnsPolicy

/-!
# DNS policy — what an operation can do

* `Effect` — the changes that an operation makes before it is recorded;
* `handleTx_ok` — an operation that comes to its projection makes one of these;
* `takeLease_ok`, `checkRules_ok` — what the checks have found then.
-/

open Outcome

/-- The changes of an operation, with the answer that the new revision completes. -/
inductive Effect (e : Env) (db : Db) (b : Request) : Operation → Db → (ℕ → Response) → Prop
  | observe (db' : Db) (document : Document) (hdevice : checkDevice e .observe b = .ok ())
      (htake : takeLease e db .observe b [] = .ok (db', document)) :
      Effect e db b .observe db' (.applied document)
  | replace (rules : List Rule) (db' : Db) (document : Document)
      (hdevice : checkDevice e .replace b = .ok ())
      (hrules : checkRules e db .replace b = .ok rules)
      (htake : takeLease e db .trial b rules = .ok (db', document)) :
      Effect e db b .replace db' (.applied document)
  | commit (rules : List Rule) (db' : Db) (hdevice : checkDevice e .commit b = .ok ())
      (hrules : checkRules e db .commit b = .ok rules)
      (hcommit : commitRules db b (previewRules db b rules) = some db') :
      Effect e db b .commit db' (.saved (previewRules db b rules) e.now)
  | revoke : Effect e db b .revoke (db.removeLease b.sessionId .trial) .reverted
  | stop : Effect e db b .stop (db.removeLease b.sessionId .observe) .reverted

variable {e : Env} {db db' : Db} {b : Request} {op : Operation} {r : Response}
  {snap : Option (List Char)}

theorem require_ok {p : Bool} {code message : String} (h : require p code message = .ok ()) :
    p = true := by
  unfold require at h
  split at h
  · next hp => exact hp
  · cases h

/-- A changed store is recorded with the answer. -/
def concluded (e : Env) (op : Operation) (b : Request) (db₁ : Db) (answer : ℕ → Response) :
    Except Response (Db × Response) :=
  match db₁.bump.record (storedOf e op b (answer db₁.bump.revision)) with
  | some db'' => .ok (db'', answer db₁.bump.revision)
  | none => .error storageUnavailable

/-- **What an operation does** that comes to its projection: it has not been carried out before, its
    session is free or its own, and its changes are recorded with their answer. -/
theorem handleTx_ok (h : handleTx e snap db op b = .ok (db', r)) :
    replay db op b = .ok () ∧ checkOwner db b = .ok () ∧ e.stores = true ∧ snap ≠ none ∧
      ∃ db₁ answer, Effect e db b op db₁ answer ∧ r = answer db₁.bump.revision ∧
        db₁.bump.record (storedOf e op b r) = some db' := by
  unfold handleTx at h
  cases hstores : e.stores with
  | false =>
    rw [hstores] at h
    cases h
  | true =>
    rw [hstores] at h
    simp only [Bool.not_true, Bool.false_eq_true, if_false] at h
    obtain ⟨_, hreplay, h⟩ := bind_eq_ok.mp h
    obtain ⟨_, howner, h⟩ := bind_eq_ok.mp h
    refine ⟨hreplay, howner, rfl, ?_⟩
    have hconclude : ∀ {db₁ : Db} {answer : ℕ → Response},
        concluded e op b db₁ answer = .ok (db', r) →
        r = answer db₁.bump.revision ∧ db₁.bump.record (storedOf e op b r) = some db' := by
      intro db₁ answer hdone
      unfold concluded at hdone
      split at hdone
      · next db'' hrec =>
        obtain ⟨rfl, rfl⟩ := Prod.mk.inj (Except.ok.inj hdone)
        exact ⟨rfl, hrec⟩
      · cases hdone
    have hsnapped : ∀ {u : Unit},
        (if snap = none then Except.error storageUnavailable else Except.ok ()) = Except.ok u →
        snap ≠ none := by
      intro u hu hnone
      rw [if_pos hnone] at hu
      cases hu
    cases op with
    | capabilities => cases h
    | status => cases h
    | other name => cases h
    | observe =>
      obtain ⟨_, hdevice, h⟩ := bind_eq_ok.mp h
      obtain ⟨_, hsnap, h⟩ := bind_eq_ok.mp h
      obtain ⟨⟨db₁, document⟩, htake, h⟩ := bind_eq_ok.mp h
      exact ⟨hsnapped hsnap, db₁, _, Effect.observe db₁ document hdevice htake, hconclude h⟩
    | replace =>
      obtain ⟨_, hdevice, h⟩ := bind_eq_ok.mp h
      obtain ⟨rules, hrules, h⟩ := bind_eq_ok.mp h
      obtain ⟨_, hsnap, h⟩ := bind_eq_ok.mp h
      obtain ⟨⟨db₁, document⟩, htake, h⟩ := bind_eq_ok.mp h
      exact ⟨hsnapped hsnap, db₁, _, Effect.replace rules db₁ document hdevice hrules htake, hconclude h⟩
    | preview =>
      obtain ⟨_, hdevice, h⟩ := bind_eq_ok.mp h
      obtain ⟨rules, hrules, h⟩ := bind_eq_ok.mp h
      -- the checks end a preview with its answer
      unfold checkRules at hrules
      obtain ⟨_, -, hrules⟩ := bind_eq_ok.mp hrules
      obtain ⟨_, -, hrules⟩ := bind_eq_ok.mp hrules
      obtain ⟨_, -, hrules⟩ := bind_eq_ok.mp hrules
      cases hrules
    | commit =>
      obtain ⟨_, hdevice, h⟩ := bind_eq_ok.mp h
      obtain ⟨rules, hrules, h⟩ := bind_eq_ok.mp h
      obtain ⟨_, hsnap, h⟩ := bind_eq_ok.mp h
      split at h
      · next db₁ hcommit =>
        exact ⟨hsnapped hsnap, db₁, _, Effect.commit rules db₁ hdevice hrules hcommit, hconclude h⟩
      · cases h
    | revoke =>
      obtain ⟨_, hsnap, h⟩ := bind_eq_ok.mp h
      exact ⟨hsnapped hsnap, _, _, Effect.revoke, hconclude h⟩
    | stop =>
      obtain ⟨_, hsnap, h⟩ := bind_eq_ok.mp h
      exact ⟨hsnapped hsnap, _, _, Effect.stop, hconclude h⟩

/-! ### What the checks have found -/

/-- The rules of a request that passes are its normalized ones. -/
theorem checkRules_ok {rules : List Rule} (h : checkRules e db op b = .ok rules) :
    normalizeRules b = some rules := by
  unfold checkRules at h
  obtain ⟨rules', hnorm, h⟩ := bind_eq_ok.mp h
  obtain ⟨_, -, h⟩ := bind_eq_ok.mp h
  obtain ⟨_, -, h⟩ := bind_eq_ok.mp h
  split at h
  · cases h
  obtain ⟨_, -, h⟩ := bind_eq_ok.mp h
  obtain ⟨_, -, h⟩ := bind_eq_ok.mp h
  obtain rfl := Except.ok.inj h
  unfold requireRules at hnorm
  split at hnorm
  · next hsome =>
    obtain rfl := Except.ok.inj hnorm
    exact hsome
  · cases hnorm

/-- The device of a replacement is checked, and has the address. -/
theorem checkDevice_replace (h : checkDevice e .replace b = .ok ()) :
    macOk b.deviceId = true ∧ e.targetValid b.deviceIp b.deviceId = true := by
  have hsame := require_ok h
  exact Bool.and_eq_true _ _ ▸ hsame

theorem checkDevice_observe (h : checkDevice e .observe b = .ok ()) :
    (b.deviceId = "" ∨ (macOk b.deviceId = true ∧ e.targetValid b.deviceIp b.deviceId = true)) ∧
      (Inet.isV4 b.deviceIp.toList || Inet.isV6 b.deviceIp.toList) = true := by
  obtain ⟨_, hmac, hip⟩ := bind_eq_ok.mp h
  refine ⟨?_, require_ok hip⟩
  have hmac := require_ok hmac
  simpa using hmac

/-- A valid target has the form of an address, for the lease file has it. -/
theorem isAddress_of_targetValid {ip mac : String} (h : e.targetValid ip mac = true) :
    (Inet.isV4 ip.toList || Inet.isV6 ip.toList) = true := by
  unfold Env.targetValid at h
  obtain ⟨l, -, hl⟩ := List.any_eq_true.mp h
  simp only [Bool.and_eq_true, decide_eq_true_eq] at hl
  rw [hl.1.2]
  exact l.isAddress

/-- A lease that is taken: its time is within the limits, less than two other sessions hold one, and
    none of these holds the device. -/
theorem takeLease_ok {kind : LeaseKind} {rules : List Rule} {document : Document}
    (h : takeLease e db kind b rules = .ok (db', document)) :
    30 ≤ ttlOf kind b ∧ ttlOf kind b ≤ 1800 ∧ (db.othersHolding kind b.sessionId e.now).length < 2 ∧
      (∀ l ∈ db.othersHolding kind b.sessionId e.now, l.mac ≠ b.deviceId ∧ l.ip ≠ b.deviceIp) ∧
      document = ⟨b.trialId, b.sessionId, e.now + (ttlOf kind b).toNat, rules, b.scope⟩ ∧
      db' = db.putLease
        ⟨b.sessionId, kind, b.operatorId, b.deviceId, b.deviceIp, document.expiresAt, document⟩ := by
  unfold takeLease at h
  obtain ⟨_, httl, h⟩ := bind_eq_ok.mp h
  obtain ⟨_, hcount, h⟩ := bind_eq_ok.mp h
  obtain ⟨_, hbusy, h⟩ := bind_eq_ok.mp h
  obtain ⟨rfl, rfl⟩ := Prod.mk.inj (Except.ok.inj h)
  have httl := require_ok httl
  simp only [Bool.and_eq_true, decide_eq_true_eq] at httl
  refine ⟨httl.1, ?_, of_decide_eq_true (require_ok hcount), ?_, rfl, rfl⟩
  · have hle := httl.2
    cases kind <;> dsimp only at hle <;> omega
  · intro l hl
    have hall := List.all_eq_true.mp (require_ok hbusy) l hl
    simpa using hall

end DreamingOS.DnsPolicy
