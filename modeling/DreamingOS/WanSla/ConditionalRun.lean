import DreamingOS.WanSla.Conditional

namespace DreamingOS.WanSlaTx

open List

/-!
# WAN SLA configuration — runs of commits

Commits of any clients, one after the other.

* `Event`, `events` — the calls of a run with their answers and the tables around them;
* `Applied.takesEffect` — a commit that takes effect found the expected revision and left the rule
  of the canonical plan at the next one;
* `revision_grows`, `receipt_stays` — what later commits keep;
* `recreated_rule` — a rule that is deleted and created again is served from the old receipt.
-/

variable {D : Type}

/-! ### A commit that takes effect -/

variable {c : JsonC D} {request : Request D}
variable {body : Json D}

theorem readRequest_ok (h : readRequest c body = .ok request) :
    request.operation = jsonStr request.body "operation" "upsert" ∧
      request.id = jsonStr request.body "id" "" := by
  unfold readRequest at h
  split at h
  · cases h
  split at h
  · cases h
  split at h
  · split at h
    · dsimp only at h
      split at h
      · cases h
      · obtain rfl := Except.ok.inj h
        exact ⟨rfl, rfl⟩
    · cases h
  · cases h

/-- What a commit that takes effect leaves behind. -/
structure TakesEffect (c : JsonC D) (request : Request D) (plan : Plan D) (before after : Rows) :
    Prop where
  stored : storedRevision before request.id = request.expectedRevision
  deleted : request.operation = "delete" → after.find request.id = none
  upserted : request.operation ≠ "delete" → ∃ u row, plan = .upsert u ∧ u.id = request.id ∧
    after.find request.id = some row ∧ row.Holds c u ∧
    row.revision = request.expectedRevision + 1
  frame : ∀ id ≠ request.id, after.find id = before.find id

/-- The rule that is read back has the id of its plan. -/
theorem readbackMatches_id {u : Upsert D} {rows : Rows} {fails : Bool} {id : String}
    {expectedRevision : ℤ}
    (h : readbackMatches c u.json (slaLoad c fails rows id) expectedRevision = true)
    (hu : cstr u.id = u.id) (hid : cstr id = id) : u.id = id := by
  unfold readbackMatches at h
  cases hload : slaLoad c fails rows id with
  | none =>
    rw [hload] at h
    cases h
  | some rule =>
    rw [hload] at h
    simp only [Bool.and_eq_true, all_cons, beq_iff_eq] at h
    have hread : jsonStr u.json "id" "" = jsonStr rule "id" "" := h.1.1.1.2.1
    unfold slaLoad at hload
    split at hload
    · cases hload
    obtain ⟨row, hfind, hrule⟩ := Option.bind_eq_some_iff.mp hload
    obtain ⟨-, rfl⟩ := Table.find_eq_some.mp hfind
    have hplan : jsonStr u.json "id" "" = cstr u.id := rfl
    rw [hplan, hu, load_id hrule, hid] at hread
    exact hread

variable {env : Env D}
variable {p : Preview D} {out : Json D}

/-- **A commit that takes effect** found the revision it expected, and left the rule its plan says
    at the next revision, or no rule. -/
theorem Applied.takesEffect {db after : Db} (h : Applied c env db request p out after)
    (hrequest : readRequest c body = .ok request) :
    TakesEffect c request p.plan db.rows after.rows := by
  obtain ⟨hop, hid⟩ := readRequest_ok hrequest
  have hwritten := h.written
  rcases preview_ok h.preview with ⟨hdelete, hplan⟩ | ⟨hupsert, u, hplan, hu, hprofile⟩
  · rw [hplan, ← hid] at hwritten
    obtain ⟨hstored, hgone, hframe⟩ := writePlan_delete hwritten
    exact ⟨hstored, fun _ => hgone, fun hne => absurd (hop.trans hdelete) hne, hframe⟩
  · have hne : request.operation ≠ "delete" := fun heq => hupsert (hop.symm.trans heq)
    have hmatch := h.readback hne
    rw [hplan] at hwritten hmatch
    obtain ⟨hstored, ⟨row, hfind, hholds, hrev⟩, hframe⟩ := writePlan_upsert hwritten hprofile
    -- the read back rule ties the id of the plan to the id of the request
    have hsame : u.id = request.id := by
      apply readbackMatches_id hmatch hu
      rw [hid, cstr_jsonStr]
    rw [hsame] at hstored hfind hframe
    exact ⟨hstored, fun heq => absurd heq hne,
      fun _ => ⟨u, row, hplan, hsame, hfind, hholds, hrev⟩, hframe⟩

/-! ### Runs -/

/-- A commit of a run: the call, its answer, and the tables before and after it. -/
structure Event (D : Type) where
  env : Env D
  body : Json D
  before : Db
  answer : Answer D
  after : Db

/-- The events of the calls of a run. -/
def events (c : JsonC D) : Db → List (Env D × Json D) → List (Event D)
  | _, [] => []
  | db, (env, body) :: calls =>
    let result := commit c env db body
    ⟨env, body, db, result.1, result.2⟩ :: events c result.2 calls

/-- A sequence of events, each with the answer of `commit` and on the tables the last one left. -/
inductive Chain (c : JsonC D) : Db → List (Event D) → Db → Prop
  | nil (db : Db) : Chain c db [] db
  | cons (e : Event D) {es : List (Event D)} {last : Db}
    (h : commit c e.env e.before e.body = (e.answer, e.after)) (hrest : Chain c e.after es last) :
    Chain c e.before (e :: es) last

theorem events_chain (c : JsonC D) (db : Db) (calls : List (Env D × Json D)) :
    ∃ last, Chain c db (events c db calls) last := by
  induction calls generalizing db with
  | nil => exact ⟨db, .nil db⟩
  | cons call calls ih =>
    obtain ⟨last, hlast⟩ := ih (commit c call.1 db call.2).2
    exact ⟨last, .cons ⟨call.1, call.2, db, _, _⟩ rfl hlast⟩

variable {db last : Db}

theorem Chain.append {es es' : List (Event D)}
    (h : Chain c db (es ++ es') last) : ∃ mid, Chain c db es mid ∧ Chain c mid es' last := by
  induction es generalizing db with
  | nil => exact ⟨db, .nil db, h⟩
  | cons e es ih =>
    cases h with
    | cons _ hstep hrest =>
      obtain ⟨mid, hes, hes'⟩ := ih hrest
      exact ⟨mid, .cons e hstep hes, hes'⟩

/-- The event is a commit that took effect, with this request. -/
def Event.Committed (c : JsonC D) (e : Event D) (request : Request D) : Prop :=
  readRequest c e.body = .ok request ∧ ∃ out, e.answer = .committed out

/-- The event deleted the rule of an id. -/
def Event.Deletes (c : JsonC D) (e : Event D) (id : String) : Prop :=
  ∃ request, e.Committed c request ∧ request.operation = "delete" ∧ request.id = id

variable {e : Event D}

/-- What a committed event did. -/
theorem Event.Committed.applied
    (h : e.Committed c request) (hstep : commit c e.env e.before e.body = (e.answer, e.after)) :
    ∃ p out, e.answer = .committed out ∧ Applied c e.env e.before request p out e.after := by
  obtain ⟨hrequest, out, hout⟩ := h
  rcases commit_cases c e.env e.before e.body with
    ⟨err, heq⟩ | ⟨r, receipt, o, -, -, heq⟩ | ⟨r, p, o, after, hr, heq, happlied⟩
  · rw [hstep, hout] at heq
    cases heq
  · rw [hstep, hout] at heq
    cases heq
  · rw [hrequest] at hr
    obtain rfl := Except.ok.inj hr
    rw [hstep] at heq
    obtain ⟨hanswer, hafter⟩ := Prod.mk.inj heq
    exact ⟨p, o, hanswer, hafter ▸ happlied⟩

/-- An event that did not take effect left the tables as they were. -/
theorem unchanged_of_not_committed (hstep : commit c e.env e.before e.body = (e.answer, e.after))
    (h : ∀ out, e.answer ≠ .committed out) : e.after = e.before := by
  rcases commit_cases c e.env e.before e.body with
    ⟨err, heq⟩ | ⟨r, receipt, o, -, -, heq⟩ | ⟨r, p, o, after, -, heq, -⟩
  · rw [hstep] at heq
    exact (Prod.mk.inj heq).2
  · rw [hstep] at heq
    exact (Prod.mk.inj heq).2
  · rw [hstep] at heq
    exact absurd (Prod.mk.inj heq).1 (h o)

variable {es : List (Event D)}

/-- **A revision only grows**, until the rule is deleted. -/
theorem revision_grows
    (h : Chain c db es last) {id : String} {row : Row} (hrow : db.rows.find id = some row)
    (hkeep : ∀ e ∈ es, ¬ e.Deletes c id) :
    ∃ row', last.rows.find id = some row' ∧ row.revision ≤ row'.revision := by
  induction h generalizing row with
  | nil db => exact ⟨row, hrow, le_refl _⟩
  | cons e hstep _ ih =>
    have hnext : ∃ row', e.after.rows.find id = some row' ∧ row.revision ≤ row'.revision := by
      by_cases hout : ∃ out, e.answer = .committed out
      · obtain ⟨out, hout⟩ := hout
        rcases commit_cases c e.env e.before e.body with
          ⟨err, heq⟩ | ⟨r, receipt, o, -, -, heq⟩ | ⟨request, p, o, after, hr, heq, -⟩
        · rw [hstep, hout] at heq
          cases heq
        · rw [hstep, hout] at heq
          cases heq
        have hcommitted : e.Committed c request := ⟨hr, out, hout⟩
        obtain ⟨p, out, -, happlied⟩ := hcommitted.applied hstep
        have heffect := happlied.takesEffect hr
        by_cases hid : id = request.id
        · have hop : request.operation ≠ "delete" := fun hop =>
            hkeep e mem_cons_self ⟨request, hcommitted, hop, hid.symm⟩
          obtain ⟨u, row', -, -, hfind, -, hrev⟩ := heffect.upserted hop
          refine ⟨row', hid ▸ hfind, ?_⟩
          -- the revision it expected is the one that was stored
          have hstored := heffect.stored
          rw [← hid, storedRevision_of_find hrow] at hstored
          omega
        · exact ⟨row, (heffect.frame id hid).trans hrow, le_refl _⟩
      · push Not at hout
        rw [unchanged_of_not_committed hstep hout]
        exact ⟨row, hrow, le_refl _⟩
    obtain ⟨row', hrow', hle⟩ := hnext
    obtain ⟨row'', hrow'', hle'⟩ := ih hrow' fun e he => hkeep e (mem_cons_of_mem _ he)
    exact ⟨row'', hrow'', hle.trans hle'⟩

/-- **A receipt stays**, with what it says. -/
theorem receipt_stays (h : Chain c db es last) {key : String × ℤ × String} {receipt : Receipt}
    (hreceipt : db.receipts.find key = some receipt) :
    last.receipts.find key = some receipt := by
  induction h with
  | nil db => exact hreceipt
  | cons e hstep _ ih =>
    apply ih
    by_cases hout : ∃ out, e.answer = .committed out
    · obtain ⟨out, hout⟩ := hout
      rcases commit_cases c e.env e.before e.body with
        ⟨err, heq⟩ | ⟨r, receipt, o, -, -, heq⟩ | ⟨request, p, o, after, hr, heq, happlied⟩
      · rw [hstep, hout] at heq
        cases heq
      · rw [hstep, hout] at heq
        cases heq
      rw [hstep] at heq
      obtain ⟨-, rfl⟩ := Prod.mk.inj heq
      rw [happlied.receipts key, if_neg, hreceipt]
      -- the key of the new receipt had none
      rintro rfl
      rw [happlied.new] at hreceipt
      cases hreceipt
    · push Not at hout
      rw [unchanged_of_not_committed hstep hout]
      exact hreceipt

/-! ### The guarantees of a run -/

/-- The canonical plan of a request, as the preview makes it of the submitted one. -/
def canonicalPlan (c : JsonC D) (env : Env D) (rows : Rows) (request : Request D) :
    Option (Plan D) :=
  match preview c env rows request.body with
  | .ok p => some p.plan
  | .error _ => none

theorem Applied.canonicalPlan {db after : Db} (h : Applied c env db request p out after) :
    canonicalPlan c env db.rows request = some p.plan := by
  unfold WanSlaTx.canonicalPlan
  rw [h.preview]

/-- The steps of a run are commits. -/
theorem Chain.step (h : Chain c db es last)
    (he : e ∈ es) : commit c e.env e.before e.body = (e.answer, e.after) := by
  induction h with
  | nil db => cases he
  | cons e' hstep _ ih =>
    rcases mem_cons.mp he with rfl | he
    · exact hstep
    · exact ih he

/-- Two events of a run: both are commits, and the tables of the second one are what the events
    from the first one on left. -/
theorem Chain.pair {front mid back : List (Event D)}
    {e₁ e₂ : Event D} (h : Chain c db (front ++ e₁ :: (mid ++ e₂ :: back)) last) :
    commit c e₁.env e₁.before e₁.body = (e₁.answer, e₁.after) ∧
      commit c e₂.env e₂.before e₂.body = (e₂.answer, e₂.after) ∧
      Chain c e₁.after mid e₂.before := by
  obtain ⟨_, -, h⟩ := h.append
  cases h with
  | cons _ hstep₁ h =>
    obtain ⟨_, hmid, h⟩ := h.append
    cases h with
    | cons _ hstep₂ _ => exact ⟨hstep₁, hstep₂, hmid⟩

/-- Two commits of one id and one expected revision have a delete of the id between them. -/
theorem delete_between {e₁ e₂ : Event D} {mid : List (Event D)} {r₁ r₂ : Request D}
    (hstep₁ : commit c e₁.env e₁.before e₁.body = (e₁.answer, e₁.after))
    (hstep₂ : commit c e₂.env e₂.before e₂.body = (e₂.answer, e₂.after))
    (hmid : Chain c e₁.after mid e₂.before)
    (h₁ : e₁.Committed c r₁) (h₂ : e₂.Committed c r₂) (hid : r₁.id = r₂.id)
    (hrev : r₁.expectedRevision = r₂.expectedRevision) :
    ∃ e ∈ e₁ :: mid, e.Deletes c r₁.id := by
  obtain ⟨p₁, out₁, -, happlied₁⟩ := h₁.applied hstep₁
  obtain ⟨p₂, out₂, -, happlied₂⟩ := h₂.applied hstep₂
  have heffect₁ := happlied₁.takesEffect h₁.1
  have hstored := (happlied₂.takesEffect h₂.1).stored
  by_cases hop : r₁.operation = "delete"
  · exact ⟨e₁, mem_cons_self, r₁, h₁, hop, rfl⟩
  by_contra hnone
  push Not at hnone
  -- without a delete the revision has grown past the expected one
  obtain ⟨u, row, -, -, hfind, -, hnext⟩ := heffect₁.upserted hop
  obtain ⟨row', hfind', hle⟩ := revision_grows hmid hfind
    fun e he => hnone e (mem_cons_of_mem _ he)
  rw [← hid, storedRevision_of_find hfind'] at hstored
  omega

/-- A commit that took effect leaves its receipt behind. -/
theorem Applied.receipt {db after : Db} (h : Applied c env db request p out after) :
    after.receipts.find request.key = some (Receipt.of c env request p.plan out) := by
  rw [h.receipts, if_pos rfl]

/-- A request whose key has a receipt changes nothing. -/
theorem unchanged_of_receipt {c : JsonC D} {env : Env D} {db : Db} {body : Json D}
    {request : Request D} {receipt : Receipt} (hrequest : readRequest c body = .ok request)
    (h : db.receipts.find request.key = some receipt) : (commit c env db body).2 = db := by
  rcases commit_cases c env db body with
    ⟨err, heq⟩ | ⟨r, receipt', o, -, -, heq⟩ | ⟨r, p, o, after, hr, -, happlied⟩
  · rw [heq]
  · rw [heq]
  · rw [hrequest] at hr
    obtain rfl := Except.ok.inj hr
    rw [happlied.new] at h
    cases h

/-- A request whose key has a receipt of its own plan is answered from it. -/
theorem replayed_of_receipt {db : Db} {receipt : Receipt} {prior out : Json D}
    (hrequest : readRequest c body = .ok request)
    (h : db.receipts.find request.key = some receipt)
    (hplan : c.parse receipt.planJson = some prior)
    (hsame : c.equal prior request.submitted = true)
    (hout : c.parse receipt.responseJson = some out) (henv : ∀ f, env.fails f = false) :
    (commit c env db body).1 = .replayed (out.add "replayed" (.bool true)) := by
  have hfind : db.receipts.find (request.id, request.expectedRevision, request.provided)
      = some receipt := h
  unfold commit
  rw [hrequest]
  dsimp only
  unfold transact
  simp only [henv, Bool.false_eq_true, if_false, hfind]
  unfold replay
  rw [hplan, hout]
  show (if c.equal prior request.submitted = true then _ else _) = _
  rw [if_pos hsame]

/-- **Runs of conditional commits.**  A commit that is not a replay and takes effect found the
    revision it expected and left the rule of its canonical plan at the next one, or no rule.
    Every other call leaves the tables as they were, whatever its answer.  Two such commits of one
    id and one expected revision have a delete of the id from the first one on and before the
    second.  The same call again changes nothing, and is answered with the recorded response if its
    plan is, as JSON values, the canonical one, and SQLite does not fail. -/
theorem commit_run (c : JsonC D) (db : Db) (calls : List (Env D × Json D)) :
    (∀ e ∈ events c db calls, ∀ request, e.Committed c request →
      ∃ plan, canonicalPlan c e.env e.before.rows request = some plan ∧
        TakesEffect c request plan e.before.rows e.after.rows) ∧
    (∀ e ∈ events c db calls, (∀ out, e.answer ≠ .committed out) → e.after = e.before) ∧
    (∀ front e₁ mid e₂ back r₁ r₂, events c db calls = front ++ e₁ :: (mid ++ e₂ :: back) →
      e₁.Committed c r₁ → e₂.Committed c r₂ → r₁.id = r₂.id →
      r₁.expectedRevision = r₂.expectedRevision → ∃ e ∈ e₁ :: mid, e.Deletes c r₁.id) ∧
    ∀ front e₁ mid e₂ back request, events c db calls = front ++ e₁ :: (mid ++ e₂ :: back) →
      e₁.Committed c request → e₂.body = e₁.body →
      e₂.after = e₂.before ∧
      ∀ plan prior out recorded, canonicalPlan c e₁.env e₁.before.rows request = some plan →
        e₁.answer = .committed out → c.parse (c.print plan.json) = some prior →
        c.equal prior request.submitted = true → c.parse (c.print out) = some recorded →
        (∀ f, e₂.env.fails f = false) →
        e₂.answer = .replayed (recorded.add "replayed" (.bool true)) := by
  obtain ⟨last, hchain⟩ := events_chain c db calls
  refine ⟨?_, ?_, ?_, ?_⟩
  · intro e he request hcommitted
    obtain ⟨p, out, -, happlied⟩ := hcommitted.applied (hchain.step he)
    exact ⟨p.plan, happlied.canonicalPlan, happlied.takesEffect hcommitted.1⟩
  · intro e he hanswer
    exact unchanged_of_not_committed (hchain.step he) hanswer
  · intro front e₁ mid e₂ back r₁ r₂ hevents h₁ h₂ hid hrev
    rw [hevents] at hchain
    obtain ⟨hstep₁, hstep₂, hmid⟩ := hchain.pair
    exact delete_between hstep₁ hstep₂ hmid h₁ h₂ hid hrev
  · intro front e₁ mid e₂ back request hevents h₁ hbody
    rw [hevents] at hchain
    obtain ⟨hstep₁, hstep₂, hmid⟩ := hchain.pair
    obtain ⟨p, out, hout, happlied⟩ := h₁.applied hstep₁
    have hreceipt := receipt_stays hmid happlied.receipt
    have hrequest : readRequest c e₂.body = .ok request := by
      rw [hbody]
      exact h₁.1
    constructor
    · have hsame := @unchanged_of_receipt _ c e₂.env _ _ _ _ hrequest hreceipt
      rwa [hstep₂] at hsame
    · intro plan prior out' recorded hplan hout' hprior hequal hrecorded henv
      rw [happlied.canonicalPlan] at hplan
      obtain rfl := Option.some.inj hplan
      rw [hout] at hout'
      obtain rfl := Answer.committed.inj hout'
      have hreplayed := replayed_of_receipt hrequest hreceipt hprior hequal hrecorded henv
      rwa [hstep₂] at hreplayed

/-! ### A rule that is deleted and created again -/

mutual

/-- The text of a value whose doubles are integers; `sp` is the blank behind a separator. -/
def text (sp : String) : Json ℤ → List UInt8
  | .null => utf8 "null"
  | .bool b => utf8 (if b then "true" else "false")
  | .int n => utf8 (toString n)
  | .double n => utf8 (toString n ++ ".0")
  | .str s => utf8 "\"" ++ utf8 s ++ utf8 "\""
  | .arr xs =>
    utf8 ("[" ++ sp) ++ List.intercalate (utf8 ("," ++ sp)) (textItems sp xs) ++ utf8 (sp ++ "]")
  | .obj ms =>
    utf8 ("\x7b" ++ sp) ++ List.intercalate (utf8 ("," ++ sp)) (textMembers sp ms) ++
      utf8 (sp ++ "\x7d")

def textItems (sp : String) : List (Json ℤ) → List (List UInt8)
  | [] => []
  | x :: xs => text sp x :: textItems sp xs

def textMembers (sp : String) : List (String × Json ℤ) → List (List UInt8)
  | [] => []
  | (k, v) :: ms => (utf8 ("\"" ++ k ++ "\":" ++ sp) ++ text sp v) :: textMembers sp ms

end
/-- The library on integral doubles; it parses the texts of the values it is given. -/
def library (docs : List (Json ℤ)) : JsonC ℤ where
  print := text ""
  printSpaced := text " "
  parse t := docs.find? fun j => text "" j = t
  parseInt _ := 0
  ofInt n := n
  toInt n := n
  isZero n := n = 0
  isFinite _ := true
  eq a b := a = b
  le a b := a ≤ b
  lt a b := a < b

/-- A call in which nothing fails; there is one enabled WAN, and no sampler. -/
def calm : Env ℤ where
  now := 1000
  newId := "wan-sla-1"
  wanExists wan := wan = "wan"
  shadowReady := false
  dryProbeMatches _ := false
  fails _ := false

/-- The profile of a rule with one target that sets none of it. -/
def defaultProfile : SlaProfile ℤ where
  reliability := 1
  windowS := 60
  failureIntervalS := 2
  recoveryIntervalS := 10
  cooldownS := 60
  profileVersion := 1
  profile := "system-default"
  actionMode := "observe"
  aggregation := "worst"
  degraded := ⟨3, 180, 80⟩
  critical := ⟨15, 400, 150⟩
  downLossPct := 100
  expectedStatus := []
  bodyMarker := ""
  dnsServers := ""

/-- The canonical plan of a new rule. -/
def newRule (name : String) : Upsert ℤ where
  id := "sla"
  fields := { PlanFields.initial with
    name := name
    wan := "wan" }
  targets := [.str "a"]
  expectedRevision := 0
  profile := defaultProfile


/-- The library without texts to parse: the digests need only the printer. -/
def printer : JsonC ℤ := library []

/-- A commit of a plan, as a client sends it. -/
def submit (operation : String) (revision : ℤ) (canonical submitted : Json ℤ) : Env ℤ × Json ℤ :=
  (calm, .obj [("plan_digest", .str (slaDigest printer operation revision canonical)),
    ("expected_revision", .int revision), ("plan", submitted)])

/-- The rule behind the create. -/
def createdRule (name : String) : Json ℤ :=
  let row := ((Row.create (newRule name) [] 1000).setProfile false [])
  .obj (Json.setAll (row.members [.str "a"]) defaultProfile.members)

/-- The response to the create. -/
def createdResponse (name : String) : Json ℤ :=
  response calm ⟨slaDigest printer "upsert" 0 (newRule name).json, 0, .null, .null, "upsert", "sla"⟩
    (some (createdRule name))

mutual

/-- A value whose doubles went through a client that writes `3.0` as `3`. -/
def integral : Json ℤ → Json ℤ
  | .double n => .int n
  | .arr xs => .arr (integralItems xs)
  | .obj ms => .obj (integralMembers ms)
  | j => j

def integralItems : List (Json ℤ) → List (Json ℤ)
  | [] => []
  | x :: xs => integral x :: integralItems xs

def integralMembers : List (String × Json ℤ) → List (String × Json ℤ)
  | [] => []
  | (k, v) :: ms => (k, integral v) :: integralMembers ms

end

/-- The texts that the two runs below parse. -/
def libraryOfRuns : JsonC ℤ :=
  library [(newRule "").json, (newRule "b").json, integral (newRule "").json, deletePlan "sla",
    .arr [.str "a"], .obj defaultProfile.members, createdResponse ""]

def create (name : String) : Env ℤ × Json ℤ :=
  submit "upsert" 0 (newRule name).json (newRule name).json

def remove : Env ℤ × Json ℤ := submit "delete" 1 (deletePlan "sla") (deletePlan "sla")

/-- The create, from a client that writes `3.0` as `3`. -/
def createIntegral : Env ℤ × Json ℤ :=
  submit "upsert" 0 (newRule "").json (integral (newRule "").json)

def Answer.code : Answer D → String
  | .error e => e.code
  | .replayed _ => "replayed"
  | .committed _ => "committed"

/-- **Receipts outlive their rule.**  A rule is created, deleted and created again with the same
    plan: the third call expects revision 0, which is the stored one, and is answered with the
    receipt of the first, but there is no row afterwards.  The fourth call creates the rule with
    another name, so that the first and the fourth both take effect at revision 0.  And a create
    whose thresholds are integers takes effect, but the same bytes again are refused. -/
theorem recreated_rule :
    ((events libraryOfRuns ⟨.empty, .empty⟩ [create "", remove, create "", create "b"]).map fun e =>
        (e.answer.code, storedRevision e.before.rows "sla", (e.after.rows.find "sla").isSome)) =
      [("committed", 0, true), ("committed", 1, false), ("replayed", 0, false),
        ("committed", 0, true)] ∧
    ((events libraryOfRuns ⟨.empty, .empty⟩ [createIntegral, createIntegral]).map fun e =>
        e.answer.code) = ["committed", "plan_conflict"] :=
  ⟨by decide +kernel, by decide +kernel⟩

end DreamingOS.WanSlaTx
