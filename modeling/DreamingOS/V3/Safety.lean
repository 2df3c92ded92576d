import DreamingOS.V3.Staging
import DreamingOS.V3.Wire

namespace DreamingOS.V3

open Bytes List

/-!
# v3 chain rules — safety over runs

What holds after every sequence of messages and ticks.

* `Activated` — an active set and the session it comes from: an accepted COMMIT of the session's
  owner ended the session, the set holds the records loaded in it, and nothing replaced it since;
* `History` — the invariant of a run, by induction over its events (`history`);
* `nonOwner_keeps_staging`, `rejected_batch_fails` — what one event can do to a transaction whose
  deadline has not passed, and `active_changes` — what can change the active set;
* `staging_safe` — the whole statement, over every run.
-/

/-- The active set was committed at the end of a proper session, and has been active since. -/
def Activated (es : List Event) (set : RuleSet) : Prop :=
  ∃ (s : Session) (c : Event) (post : List Event), es = s.events ++ c :: post ∧ s.Proper ∧
    Takes (run rulesInit s.events) c s.portid s.generation .commit ∧ SameRecords s.loaded set ∧
    ∀ post', post' <+: post → (run rulesInit (s.events ++ c :: post')).active = some set

/-- A transaction that has not failed is the one of a proper session. -/
def StagedBy (es : List Event) (tx : Transaction) : Prop :=
  ∃ s : Session, es = s.events ∧ s.Proper ∧ tx.ownerPortid = s.portid ∧
    tx.generation = s.generation ∧ tx.set = s.loaded ∧ Sound tx.set

/-- The invariant of a run. -/
structure History (es : List Event) : Prop where
  running : (run rulesInit es).running = true
  staged : ∀ tx, (run rulesInit es).tx = some tx → tx.failed = false → StagedBy es tx
  active : ∀ set, (run rulesInit es).active = some set → Activated es set ∧ Installed set

theorem run_concat (es : List Event) (e : Event) :
    run rulesInit (es ++ [e]) = (step (run rulesInit es) e).1 := by
  rw [run_append, run_cons, run_nil]

theorem history_nil : History [] where
  running := rfl
  staged := by intro tx h; cases h
  active := by intro set h; cases h

variable {es : List Event}

/-- An active set that stays active. -/
theorem Activated.extend {set : RuleSet} (h : Activated es set) {e : Event}
    (hact : (step (run rulesInit es) e).1.active = some set) : Activated (es ++ [e]) set := by
  obtain ⟨s, c, post, rfl, hproper, hcommit, hsame, hkept⟩ := h
  refine ⟨s, c, post ++ [e], by simp, hproper, hcommit, hsame, fun post' hpost => ?_⟩
  rcases prefix_concat_iff.mp hpost with rfl | hpre
  · have hlist : s.events ++ c :: (post ++ [e]) = (s.events ++ c :: post) ++ [e] := by simp
    rw [hlist, run_concat]
    exact hact
  · exact hkept post' hpre

/-- A session whose transaction survives an event that loads nothing. -/
theorem StagedBy.extend_same {tx : Transaction} (h : StagedBy es tx)
    (hsound : tx.failed = false) {e : Event} (htx : (step (run rulesInit es) e).1.tx = some tx)
    (hquery : ∀ portid generation r, Takes (run rulesInit es) e portid generation r →
      r = .capability ∨ r = .status) : StagedBy (es ++ [e]) tx := by
  obtain ⟨s, rfl, hproper, howner, hgen, hset, hok⟩ := h
  have hnone : ∀ {ρ : Type} (part : Request → List ρ), part .capability = [] → part .status = [] →
      contribution part (run rulesInit s.events) e = [] := by
    intro ρ part hcap hstat
    by_cases hacc : Accepted (run rulesInit s.events) e
    · cases hreq : requestOf e with
      | none => simp [contribution, hacc, hreq]
      | some q =>
        obtain ⟨portid, generation, r⟩ := q
        rw [contribution_of_takes part ⟨hreq, hacc⟩]
        rcases hquery portid generation r ⟨hreq, hacc⟩ with rfl | rfl
        · exact hcap
        · exact hstat
    · exact contribution_of_not_accepted part hacc
  refine ⟨s.extend e, (s.events_extend e).symm, ?_, howner, hgen, ?_, hok⟩
  · refine hproper.extend htx howner hgen hsound (fun portid generation r htakes => ?_)
    rcases hquery portid generation r htakes with h | h
    · exact Or.inl h
    · exact Or.inr (.inl h)
  · rw [Session.loaded_extend, hnone _ rfl rfl, hnone _ rfl rfl, hnone _ rfl rfl]
    simp only [map_nil, append_nil]
    exact hset

/-- Behind quiet steps a sound transaction is the one before them. -/
theorem Quiet.sound_tx {st st' : KState} (h : Quiet st st') {tx : Transaction}
    (htx : st'.tx = some tx) (hsound : tx.failed = false) : st.tx = some tx := by
  rcases h.tx with heq | hnone | ⟨tx', r, d, _, hmark⟩
  · rw [← heq]
    exact htx
  · rw [hnone] at htx
    cases htx
  · rw [hmark] at htx
    cases htx
    rw [markFailed_failed] at hsound
    cases hsound

variable {env : Env} {m : Message}
variable {p : Parsed} {r : Request}

theorem requestOf_message (hp : parse m.data = some p) (hreq : p.request = .ok r) :
    requestOf (.message env m) = some (m.portid, p.generation, r) := by
  obtain ⟨action, generation, request⟩ := p
  simp only at hreq
  subst hreq
  simp [requestOf, hp]

/-- A session whose transaction takes a batch: the batch is the owner's, and its records are behind
    those loaded before. -/
theorem StagedBy.extend_batch
    {tx tx' : Transaction} (h : StagedBy es tx) (hp : parse m.data = some p)
    (hreq : p.request = .ok r) (hbatch : r.IsBatch)
    (hacc : Accepted (run rulesInit es) (.message env m)) (howner : tx.ownerPortid = m.portid) (hgen : tx.generation = p.generation)
    (htx : (step (run rulesInit es) (.message env m)).1.tx = some tx')
    (hsound : tx'.failed = false) (howner' : tx'.ownerPortid = tx.ownerPortid)
    (hgen' : tx'.generation = tx.generation)
    (hset : tx'.set = { tx.set with
      rules := tx.set.rules ++ r.rulesIn.map ruleOfWire
      steps := tx.set.steps ++ r.stepsIn.map stepOfWire
      ports := tx.set.ports ++ r.portsIn.map portOfWire })
    (hok : Sound tx'.set) : StagedBy (es ++ [.message env m]) tx' := by
  obtain ⟨s, rfl, hproper, hown, hsgen, hloaded, _⟩ := h
  have htakes : Takes (run rulesInit s.events) (.message env m) m.portid p.generation r :=
    ⟨requestOf_message hp hreq, hacc⟩
  refine ⟨s.extend (.message env m), (s.events_extend _).symm, ?_, howner'.trans hown,
    hgen'.trans hsgen, ?_, hok⟩
  · refine hproper.extend htx (howner'.trans hown) (hgen'.trans hsgen) hsound ?_
    intro portid generation r' htakes'
    have heq := htakes'.1
    rw [htakes.1] at heq
    cases heq
    exact Or.inr (.inr ⟨hbatch, by rw [← howner, hown], by rw [← hgen, hsgen]⟩)
  · rw [Session.loaded_extend, contribution_of_takes _ htakes, contribution_of_takes _ htakes,
      contribution_of_takes _ htakes, ← hloaded]
    exact hset

/-- While the active set stays the same, its history just goes on. -/
theorem History.keep (h : History es) {e : Event}
    (hrunning : (step (run rulesInit es) e).1.running = (run rulesInit es).running)
    (hactive : (step (run rulesInit es) e).1.active = (run rulesInit es).active)
    (hstaged : ∀ tx, (step (run rulesInit es) e).1.tx = some tx → tx.failed = false →
      StagedBy (es ++ [e]) tx) : History (es ++ [e]) := by
  refine ⟨?_, ?_, ?_⟩ <;> rw [run_concat]
  · rw [hrunning]
    exact h.running
  · exact hstaged
  · intro set hset
    obtain ⟨hact, hinst⟩ := h.active set (hactive ▸ hset)
    exact ⟨hact.extend hset, hinst⟩

/-- **The invariant of a run**, one event further. -/
theorem History.step (h : History es) (e : Event) : History (es ++ [e]) := by
  rcases step_cases (run rulesInit es) e with
    ⟨hquiet, hquery⟩ | ⟨env, m, p, st₁, ans, rfl, hp, hsender, hperf, heffect, hquiet, hacc⟩
  · refine h.keep hquiet.running hquiet.active fun tx htx hsound => ?_
    exact (h.staged tx (hquiet.sound_tx htx hsound) hsound).extend_same hsound htx hquery
  -- a batch of kind `k` with the request `r` goes through
  have hbatch : ∀ {ρ κ : Type} (k : BatchKind ρ κ) (wires : List ρ) (tx : Transaction)
      (deadline : BitVec 64) (r : Request), p.request = .ok r → r.IsBatch →
      Loads k (run rulesInit es) m.portid p.generation wires tx → ans.rc = none →
      st₁ = stagedMore k (run rulesInit es) tx wires deadline →
      (k.store tx.set (k.records tx.set ++ wires.map k.ofWire) = { tx.set with
        rules := tx.set.rules ++ r.rulesIn.map ruleOfWire
        steps := tx.set.steps ++ r.stepsIn.map stepOfWire
        ports := tx.set.ports ++ r.portsIn.map portOfWire }) →
      (Sound tx.set → Sound (k.store tx.set (k.records tx.set ++ wires.map k.ofWire))) →
      History (es ++ [.message env m]) := by
    intro ρ κ k wires tx deadline r hreq hisbatch hloads hrc hst hstore hkeeps
    subst hst
    refine h.keep hquiet.running hquiet.active fun tx' htx' hsound' => ?_
    cases hquiet.sound_tx htx' hsound'
    have hby := h.staged tx hloads.staged hloads.sound
    have hok : Sound tx.set := by
      obtain ⟨_, _, _, _, _, _, hok⟩ := hby
      exact hok
    exact hby.extend_batch hp hreq hisbatch (hacc.mpr hrc) hloads.owner hloads.txGeneration htx' hsound'
      rfl rfl hstore (hkeeps hok)
  cases heffect with
  | quiet hq hquery =>
    refine h.keep (hquiet.running.trans hq.running) (hquiet.active.trans hq.active)
      fun tx htx hsound => ?_
    refine (h.staged tx (hq.sound_tx (hquiet.sound_tx htx hsound) hsound) hsound).extend_same
      hsound htx (fun portid generation r htakes => ?_)
    have heq := htakes.1
    rcases hquery (hacc.mp htakes.2) with hreq | hreq <;> rw [requestOf_message hp hreq] at heq <;>
      cases heq
    · exact Or.inl rfl
    · exact Or.inr rfl
  | began b flags deadline hreq _ _ _ hrc =>
    refine h.keep hquiet.running hquiet.active fun tx htx hsound => ?_
    cases hquiet.sound_tx htx hsound
    refine ⟨⟨es, .message env m, [], m.portid, p.generation, b, flags⟩, rfl, ⟨?_, ?_, ?_⟩, rfl, rfl,
      rfl, Sound.declared _ _ _⟩
    · exact ⟨requestOf_message hp hreq, hacc.mpr hrc⟩
    · intro mid' hmid
      rw [prefix_nil.mp hmid, run_nil]
      refine ⟨_, ?_, rfl, rfl, hsound⟩
      show (run rulesInit (es ++ [.message env m])).tx = _
      rw [run_concat]
      exact htx
    · intro mid' e' hmid
      exact absurd (prefix_nil.mp hmid) (by simp)
  | loadedRules wires tx deadline hreq hloads hrc =>
    refine hbatch ruleBatch wires tx deadline _ hreq trivial hloads hrc rfl ?_ ?_
    · simp [ruleBatch, Request.rulesIn, Request.stepsIn, Request.portsIn]
    · exact fun hok => hok.addRules hloads.accepted
  | loadedSteps wires tx deadline hreq hloads hrc =>
    refine hbatch stepBatch wires tx deadline _ hreq trivial hloads hrc rfl ?_ ?_
    · simp [stepBatch, Request.rulesIn, Request.stepsIn, Request.portsIn]
    · exact fun hok => hok.addSteps (parse_steps hp hreq) hloads.accepted
  | loadedPorts wires tx deadline hreq hloads hrc =>
    refine hbatch portBatch wires tx deadline _ hreq trivial hloads hrc rfl ?_ ?_
    · simp [portBatch, Request.rulesIn, Request.stepsIn, Request.portsIn]
    · exact fun hok => hok.addPorts hloads.accepted
  | committed tx set hreq hown hsound hval hrc =>
    refine ⟨?_, ?_, ?_⟩ <;> rw [run_concat]
    · rw [hquiet.running]
      exact h.running
    · intro tx' htx' hsound'
      cases hquiet.sound_tx htx' hsound'
    · intro set' hset'
      obtain rfl : set = set' := Option.some.inj (hquiet.active.symm.trans hset')
      obtain ⟨s, rfl, hproper, howner, hgen, hset, hok⟩ := h.staged tx hown.staged hsound
      obtain ⟨hsame, hinst⟩ := hok.installed hval
      refine ⟨⟨s, .message env m, [], rfl, hproper, ?_, hset ▸ hsame, ?_⟩, hinst⟩
      · refine ⟨?_, hacc.mpr hrc⟩
        rw [requestOf_message hp hreq, ← howner, ← hgen, hown.owner, hown.txGeneration]
      · intro post' hpost
        rw [prefix_nil.mp hpost, run_concat]
        exact hset'
  | invalid tx set reason detail hreq hown hrc =>
    refine h.keep hquiet.running hquiet.active fun tx' htx' hsound' => ?_
    cases hquiet.sound_tx htx' hsound'
    rw [markFailed_failed] at hsound'
    cases hsound'
  | aborted tx hreq hown hrc =>
    refine h.keep hquiet.running hquiet.active fun tx' htx' hsound' => ?_
    cases hquiet.sound_tx htx' hsound'

/-- The invariant holds after every run. -/
theorem history (es : List Event) : History es := by
  induction es using List.reverseRecOn with
  | nil => exact history_nil
  | append_singleton es e ih => exact ih.step e

/-! ### One event against a live transaction -/

/-- No reading of the clock during the event has reached the deadline. -/
def NotDue (deadline : BitVec 64) : Event → Prop
  | .message env _ =>
    timeAfterEq env.clock.check deadline = false ∧ timeAfterEq env.clock.fail deadline = false ∧
      (∀ now ∈ env.beforeFail, timeAfterEq now deadline = false) ∧
      ∀ now ∈ env.beforeReply, timeAfterEq now deadline = false
  | .tick now => timeAfterEq now deadline = false

/-- The same transaction, up to a failure mark. -/
def Kept (tx tx' : Transaction) : Prop :=
  tx' = tx ∨ ∃ reason detail, tx' = tx.markFailed reason detail

theorem Kept.trans {tx tx' tx'' : Transaction} (h : Kept tx tx') (h' : Kept tx' tx'') :
    Kept tx tx'' := by
  rcases h with rfl | ⟨r, d, rfl⟩
  · exact h'
  · rcases h' with rfl | ⟨r', d', rfl⟩
    · exact Or.inr ⟨r, d, rfl⟩
    · exact Or.inr ⟨r, d, markFailed_markFailed _ _ _ _ _⟩

theorem Kept.set {tx tx' : Transaction} (h : Kept tx tx') : tx'.set = tx.set := by
  rcases h with rfl | ⟨r, d, rfl⟩
  · rfl
  · exact markFailed_set _ _ _

theorem Kept.ownerPortid {tx tx' : Transaction} (h : Kept tx tx') :
    tx'.ownerPortid = tx.ownerPortid := by
  rcases h with rfl | ⟨r, d, rfl⟩
  · rfl
  · exact markFailed_ownerPortid _ _ _

theorem Kept.generation {tx tx' : Transaction} (h : Kept tx tx') :
    tx'.generation = tx.generation := by
  rcases h with rfl | ⟨r, d, rfl⟩
  · rfl
  · exact markFailed_generation _ _ _

theorem Kept.deadline {tx tx' : Transaction} (h : Kept tx tx') : tx'.deadline = tx.deadline := by
  rcases h with rfl | ⟨r, d, rfl⟩
  · rfl
  · exact markFailed_deadline _ _ _

theorem Kept.failed {tx tx' : Transaction} (h : Kept tx tx') (hf : tx.failed = true) :
    tx'.failed = true := by
  rcases h with rfl | ⟨r, d, rfl⟩
  · exact hf
  · exact markFailed_failed _ _ _

section Live

variable {st : KState} {tx : Transaction}
variable {now : BitVec 64}

/-- Before the deadline nothing expires. -/
theorem expireStagingLocked_live (htx : st.tx = some tx)
    (hnow : timeAfterEq now tx.deadline = false) : expireStagingLocked now st = st := by
  unfold expireStagingLocked
  rw [htx]
  simp [hnow]

theorem expireWork_live (htx : st.tx = some tx)
    (hnow : timeAfterEq now tx.deadline = false) : expireWork now st = st := by
  unfold expireWork
  rw [expireStagingLocked_live htx hnow]
  split <;> rfl

theorem ticks_live (htx : st.tx = some tx) {nows : List (BitVec 64)}
    (hnows : ∀ now ∈ nows, timeAfterEq now tx.deadline = false) : ticks nows st = st := by
  induction nows with
  | nil => rfl
  | cons now nows ih =>
    show ticks nows (expireWork now st) = st
    rw [expireWork_live htx (hnows now mem_cons_self)]
    exact ih (fun n hn => hnows n (mem_cons_of_mem _ hn))

/-- The owner check on a live transaction leaves the state alone. -/
theorem checkOwnerLocked_live (hrun : st.running = true) (htx : st.tx = some tx)
    (hnow : timeAfterEq now tx.deadline = false) (portid generation : ℕ)
    (allowFailed : Bool) :
    checkOwnerLocked now portid generation allowFailed st
      = (st, checkOwner (some tx) portid generation allowFailed) := by
  unfold checkOwnerLocked
  rw [if_neg (by simp [hrun]), expireStagingLocked_live htx hnow, htx]

variable {portid : ℕ}

/-- Nobody but the owner passes the owner check. -/
theorem checkOwner_other (hother : portid ≠ tx.ownerPortid) (generation : ℕ)
    (allowFailed : Bool) : checkOwner (some tx) portid generation allowFailed
      = .error ⟨.EPERM, JMX_V3_REASON_NOT_OWNER, portid⟩ :=
  if_pos (Ne.symm hother)

theorem refused_live (htx : st.tx = some tx)
    (hnow : timeAfterEq now tx.deadline = false) {st' : KState} {ans : Answer}
    (h : Refused now st st' ans) : st' = st := by
  rcases h.2 with heq | heq
  · exact heq
  · rw [heq, expireStagingLocked_live htx hnow]

/-- The caller of an operation that works on the transaction is its owner. -/
theorem Owns.eq {portid generation : ℕ} {tx' : Transaction}
    (h : Owns now portid generation st tx') (htx : st.tx = some tx) : tx' = tx := by
  have heq := h.staged
  rw [htx] at heq
  exact (Option.some.inj heq).symm

/-- An operation of another sender leaves the state alone. -/
theorem perform_other (htx : st.tx = some tx)
    (hnow : timeAfterEq env.clock.check tx.deadline = false)
    (hother : portid ≠ tx.ownerPortid) (p : Parsed) : (perform env portid p st).1 = st := by
  have hno : ∀ {tx' : Transaction}, ¬ Owns env.clock.check portid p.generation st tx' := by
    intro tx' hown
    have heq := hown.eq htx
    subst heq
    exact hother hown.owner.symm
  have hadd : ∀ {ρ κ : Type} {k : BatchKind ρ κ}, k.Lawful → ∀ wires : List ρ,
      (txAdd k env.clock portid p.generation wires st).1 = st := by
    intro ρ κ k hk wires
    rcases txAdd_cases hk env.clock portid p.generation wires st rfl with href | ⟨_, hown, _⟩
    · exact refused_live htx hnow href
    · exact absurd hown hno
  unfold perform
  split
  · rfl
  · rfl
  · rfl
  · rcases txCommit_cases env.commitAlloc env.clock portid p.generation st rfl with
      href | ⟨_, hown, _⟩
    · exact refused_live htx hnow href
    · exact absurd hown hno
  · rcases txAbort_cases env.clock portid p.generation st rfl with href | ⟨_, hown, _⟩
    · exact refused_live htx hnow href
    · exact absurd hown hno
  · next b flags _ =>
    rcases txBegin_cases env.beginAlloc env.clock portid p.generation b flags st rfl with
      href | ⟨_, _, hnone, _⟩
    · exact refused_live htx hnow href
    · rw [expireStagingLocked_live htx hnow, htx] at hnone
      cases hnone
  · next wires _ => exact hadd BatchKind.ruleBatch_lawful wires
  · next wires _ => exact hadd BatchKind.stepBatch_lawful wires
  · next wires _ => exact hadd BatchKind.portBatch_lawful wires

/-- A rejected batch leaves the staged records alone. -/
theorem perform_rejected (htx : st.tx = some tx)
    (hnow : timeAfterEq env.clock.check tx.deadline = false)
    (hbatch : ∀ r, p.request = .ok r → r.IsBatch)
    (hrc : (perform env portid p st).2.rc ≠ none) :
    ∃ tx', (perform env portid p st).1 = { st with tx := some tx' } ∧ Kept tx tx' := by
  have hsame : ∃ tx', st = { st with tx := some tx' } ∧ Kept tx tx' :=
    ⟨tx, by rw [← htx], .inl rfl⟩
  have hadd : ∀ {ρ κ : Type} {k : BatchKind ρ κ}, k.Lawful → ∀ wires : List ρ,
      (txAdd k env.clock portid p.generation wires st).2.rc ≠ none →
      ∃ tx', (txAdd k env.clock portid p.generation wires st).1 = { st with tx := some tx' } ∧
        Kept tx tx' := by
    intro ρ κ k hk wires hrc
    rcases txAdd_cases hk env.clock portid p.generation wires st Prod.mk.eta.symm with
      href | ⟨tx', hown, _, ⟨_, r, d, hst⟩ | ⟨hok, _⟩⟩
    · rw [refused_live htx hnow href]
      exact hsame
    · have heq := hown.eq htx
      subst heq
      exact ⟨tx'.markFailed r d, hst, .inr ⟨r, d, rfl⟩⟩
    · exact absurd hok hrc
  unfold perform at hrc ⊢
  split at hrc
  · exact hsame
  · next hreq => exact (hbatch _ hreq).elim
  · next hreq => exact (hbatch _ hreq).elim
  · next hreq => exact (hbatch _ hreq).elim
  · next hreq => exact (hbatch _ hreq).elim
  · next b flags hreq => exact (hbatch _ hreq).elim
  · next wires hreq => exact hadd BatchKind.ruleBatch_lawful wires hrc
  · next wires hreq => exact hadd BatchKind.stepBatch_lawful wires hrc
  · next wires hreq => exact hadd BatchKind.portBatch_lawful wires hrc

/-- `jmx_v3_tx_fail` on a live transaction: it is kept, and failed when the caller owns it. -/
theorem txFail_live (hrun : st.running = true) (htx : st.tx = some tx) {clock : Clock}
    (hnow : timeAfterEq clock.fail tx.deadline = false) (portid generation reason detail : ℕ) :
    ∃ tx', txFail clock portid generation reason detail st = { st with tx := some tx' } ∧
      Kept tx tx' ∧
      (tx.ownerPortid = portid → tx.generation = generation → tx.set.generation = generation →
        tx'.failed = true) := by
  unfold txFail
  rw [checkOwnerLocked_live hrun htx hnow]
  cases hcheck : checkOwner (some tx) portid generation true with
  | error f =>
    refine ⟨tx, by rw [← htx], .inl rfl, fun howner hgen hset => ?_⟩
    unfold checkOwner at hcheck
    simp [howner, hgen, hset] at hcheck
  | ok tx' =>
    have heq := Option.some.inj (checkOwner_eq_ok hcheck).1
    subst heq
    exact ⟨tx.markFailed reason detail, rfl, .inr ⟨reason, detail, rfl⟩,
      fun _ _ _ => markFailed_failed _ _ _⟩

/-- What a message dropped without an answer does. -/
theorem step_dropped (h : m.portid = 0 ∨ m.seq = 0) : step st (.message env m) = (st, none) := by
  show handle env m st = _
  unfold handle
  split
  · rfl
  · rw [if_pos h]

/-- **A message of another sender** leaves a live transaction alone. -/
theorem nonOwner_keeps_staging (htx : st.tx = some tx)
    (hother : m.portid ≠ tx.ownerPortid) (hrun : st.running = true)
    (hdue : NotDue tx.deadline (.message env m)) :
    (step st (.message env m)).1.tx = some tx := by
  obtain ⟨hcheck, hfail, hbefore, hreply⟩ := hdue
  show (handle env m st).1.tx = some tx
  unfold handle
  split
  · exact htx
  next p _ =>
  split
  · exact htx
  have hperf := perform_other htx hcheck hother p
  simp only [hperf]
  rw [ticks_live htx hbefore]
  have hmark : markBatch env m.portid p (perform env m.portid p st).2 st = st := by
    unfold markBatch
    split
    · unfold txFail
      rw [checkOwnerLocked_live hrun htx hfail, checkOwner_other hother]
    · rfl
  rw [hmark, ticks_live htx hreply]
  exact htx

/-- **A rejected batch** leaves the staged records alone; when it is answered and is one of the
    transaction itself, the transaction has failed. -/
theorem rejected_batch_fails (hrun : st.running = true) (htx : st.tx = some tx)
    (hp : parse m.data = some p) (hbatch : actionIsBatch p.action)
    (hdue : NotDue tx.deadline (.message env m)) (hno : ¬ Accepted st (.message env m)) :
    ∃ tx', (step st (.message env m)).1.tx = some tx' ∧ Kept tx tx' ∧
      ((step st (.message env m)).2 ≠ none → p.generation ≠ 0 → tx.ownerPortid = m.portid →
        tx.generation = p.generation → tx.set.generation = p.generation → tx'.failed = true) := by
  obtain ⟨hcheck, hfail, hbefore, hreply⟩ := hdue
  by_cases hsender : m.portid = 0 ∨ m.seq = 0
  · rw [step_dropped hsender]
    exact ⟨tx, htx, .inl rfl, fun h => absurd rfl h⟩
  have hrc : (perform env m.portid p st).2.rc ≠ none := by
    intro hrc
    obtain ⟨_, r, hr, hok⟩ := handle_eq env m st hp hsender
    exact hno ⟨r, hr, hok.mpr hrc⟩
  obtain ⟨tx₁, hst₁, hkept₁⟩ :=
    perform_rejected htx hcheck (fun r hreq => parse_batch hp hbatch hreq) hrc
  -- neither the ticks nor the mark touch anything but the failure flag
  have hlive : ∀ {tx' : Transaction}, Kept tx tx' → ∀ nows : List (BitVec 64),
      (∀ now ∈ nows, timeAfterEq now tx.deadline = false) →
      ticks nows { st with tx := some tx' } = { st with tx := some tx' } := by
    intro tx' hkept nows hnows
    apply ticks_live rfl
    rw [hkept.deadline]
    exact hnows
  show ∃ tx', (handle env m st).1.tx = some tx' ∧ _
  unfold handle
  rw [hp]
  simp only [hsender, if_false, hst₁]
  rw [hlive hkept₁ _ hbefore]
  unfold markBatch
  by_cases hgen : p.generation = 0
  · rw [if_neg (by simp [hgen]), hlive hkept₁ _ hreply]
    exact ⟨tx₁, rfl, hkept₁, fun _ h => absurd hgen h⟩
  rw [if_pos ⟨hrc, hgen, hbatch⟩]
  have hfail₁ : timeAfterEq env.clock.fail tx₁.deadline = false := by
    rw [hkept₁.deadline]
    exact hfail
  obtain ⟨tx₂, hst₂, hkept₂, hfailed⟩ := @txFail_live { st with tx := some tx₁ } tx₁ hrun rfl
    env.clock hfail₁ m.portid p.generation (perform env m.portid p st).2.reason
    (perform env m.portid p st).2.detail
  rw [hst₂]
  show ∃ tx', (ticks env.beforeReply { st with tx := some tx₂ }).tx = some tx' ∧ _
  rw [hlive (hkept₁.trans hkept₂) _ hreply]
  refine ⟨tx₂, rfl, hkept₁.trans hkept₂, fun _ _ howner htxgen hsetgen => hfailed ?_ ?_ ?_⟩
  · rw [hkept₁.ownerPortid, howner]
  · rw [hkept₁.generation, htxgen]
  · rw [hkept₁.set, hsetgen]

end Live

/-- **Who changes the active set**: only an accepted COMMIT of the owner of a transaction that has
    neither failed nor expired. -/
theorem active_changes (st : KState) (e : Event) : (step st e).1.active = st.active ∨
    ∃ env m p tx set, e = .message env m ∧ parse m.data = some p ∧ p.request = .ok .commit ∧
      Accepted st e ∧ Owns env.clock.check m.portid p.generation st tx ∧ tx.failed = false ∧
      validateAndIndexSet env.commitAlloc tx.set = (set, none) ∧
      (step st e).1.active = some set ∧ (step st e).1.tx = none := by
  rcases step_cases st e with
    ⟨hquiet, _⟩ | ⟨env, m, p, st₁, ans, rfl, hp, _, _, heffect, hquiet, hacc⟩
  · exact Or.inl hquiet.active
  cases heffect with
  | committed tx set hreq hown hsound hval hrc =>
    refine Or.inr ⟨env, m, p, tx, set, rfl, hp, hreq, hacc.mpr hrc, hown, hsound, hval,
      hquiet.active, ?_⟩
    rcases hquiet.tx with h | h | ⟨_, _, _, h, _⟩
    · exact h
    · exact h
    · cases h
  | quiet hq _ => exact Or.inl (hquiet.active.trans hq.active)
  | began => exact Or.inl hquiet.active
  | loadedRules => exact Or.inl hquiet.active
  | loadedSteps => exact Or.inl hquiet.active
  | loadedPorts => exact Or.inl hquiet.active
  | invalid => exact Or.inl hquiet.active
  | aborted => exact Or.inl hquiet.active

/-! ### The whole statement -/

theorem requestOf_eq_some {e : Event} {portid generation : ℕ}
    (h : requestOf e = some (portid, generation, r)) :
    ∃ env m p, e = .message env m ∧ parse m.data = some p ∧ p.request = .ok r ∧
      p.generation = generation := by
  cases e with
  | tick now => cases h
  | message env m =>
    cases hp : parse m.data with
    | none => simp [requestOf, hp] at h
    | some p =>
      obtain ⟨action, g, request⟩ := p
      cases request with
      | error reason => simp [requestOf, hp] at h
      | ok r' =>
        simp only [requestOf, hp, Option.some.injEq, Prod.mk.injEq] at h
        obtain ⟨_, hg, hr⟩ := h
        exact ⟨env, m, _, rfl, hp, by rw [hr], hg⟩

/-- The generation of a transaction that has not failed is not zero, and its set has it too. -/
theorem StagedBy.generation {tx : Transaction} (h : StagedBy es tx) :
    tx.generation ≠ 0 ∧ tx.set.generation = tx.generation := by
  obtain ⟨s, -, hproper, -, hgen, hset, -⟩ := h
  obtain ⟨_, _, p, _, hp, hreq, hpgen⟩ := requestOf_eq_some hproper.opens.1
  constructor
  · rw [hgen, ← hpgen]
    exact parse_begin hp hreq
  · rw [hset, hgen]
    rfl

/-- What the engine guarantees behind the events `es`. -/
structure StagingSafe (es : List Event) : Prop where
  /-- The active set is well formed. -/
  wellFormed : ∀ set, (run rulesInit es).active = some set → WellFormed set
  /-- It holds exactly what one owner loaded between its BEGIN and its COMMIT. -/
  activated : ∀ set, (run rulesInit es).active = some set → Activated es set
  /-- A message of another sender leaves a live transaction alone. -/
  nonOwner : ∀ tx, (run rulesInit es).tx = some tx → ∀ env m, m.portid ≠ tx.ownerPortid →
    NotDue tx.deadline (.message env m) →
    (step (run rulesInit es) (.message env m)).1.tx = some tx
  /-- A rejected batch leaves what is staged alone, and fails the transaction it names. -/
  rejected : ∀ tx, (run rulesInit es).tx = some tx → ∀ env m p, parse m.data = some p →
    actionIsBatch p.action → NotDue tx.deadline (.message env m) →
    ¬ Accepted (run rulesInit es) (.message env m) →
    ∃ tx', (step (run rulesInit es) (.message env m)).1.tx = some tx' ∧ tx'.set = tx.set ∧
      tx'.ownerPortid = tx.ownerPortid ∧ tx'.generation = tx.generation ∧
      ((step (run rulesInit es) (.message env m)).2 ≠ none → m.portid = tx.ownerPortid →
        p.generation = tx.generation → tx'.failed = true)
  /-- Only an accepted COMMIT of the owner changes the active set, to the validated staged set of a
      transaction that has neither failed nor expired. -/
  commitOnly : ∀ e, (step (run rulesInit es) e).1.active = (run rulesInit es).active ∨
    ∃ env m p tx set, e = .message env m ∧ parse m.data = some p ∧ p.request = .ok .commit ∧
      Accepted (run rulesInit es) e ∧
      Owns env.clock.check m.portid p.generation (run rulesInit es) tx ∧ tx.failed = false ∧
      validateAndIndexSet env.commitAlloc tx.set = (set, none) ∧
      (step (run rulesInit es) e).1.active = some set ∧ (step (run rulesInit es) e).1.tx = none

/-- **Safety of the staging transaction**, behind every sequence of messages and ticks. -/
theorem staging_safe (es : List Event) : StagingSafe es where
  wellFormed := fun set hset => ((history es).active set hset).2.wellFormed
  activated := fun set hset => ((history es).active set hset).1
  nonOwner := fun _ htx _ _ hother hdue =>
    nonOwner_keeps_staging htx hother (history es).running hdue
  rejected := by
    intro tx htx env m p hp hbatch hdue hno
    obtain ⟨tx', htx', hkept, hfails⟩ :=
      rejected_batch_fails (history es).running htx hp hbatch hdue hno
    refine ⟨tx', htx', hkept.set, hkept.ownerPortid, hkept.generation, ?_⟩
    intro hanswer howner hgen
    by_cases hf : tx.failed = true
    · exact hkept.failed hf
    · obtain ⟨hne, hset⟩ := ((history es).staged tx htx (by simpa using hf)).generation
      exact hfails hanswer (hgen ▸ hne) howner.symm hgen.symm (hset.trans hgen.symm)
  commitOnly := fun e => active_changes _ e

/-- The surroundings of a call at one moment. -/
def Env.at (now : BitVec 64) : Env := { clock := ⟨100, now, now, now⟩ }

/-- A BEGIN of one rule with one step. -/
def beginOne : NlBegin := ⟨1, 1, 0, 1, List.replicate 32 1⟩

/-- Port 7 opens a transaction of generation 1. -/
def opening : Event :=
  .message (.at 1000) ⟨requestBytes JMX_NL_ACT_RULESET_BEGIN_V3 1 1 sizeofBegin 1 beginOne.toBytes,
    7, 1⟩

/-- **Not every rejected batch fails the transaction**: a rule batch of the owner that is cut off
    behind its action is answered with an error, and the transaction goes on. -/
theorem truncated_batch_not_failed :
    ¬ ∀ (es : List Event) (env : Env) (m : Message) (p : Parsed) (tx : Transaction),
      (run rulesInit es).tx = some tx → m.portid = tx.ownerPortid → parse m.data = some p →
      actionIsBatch p.action → NotDue tx.deadline (.message env m) →
      (step (run rulesInit es) (.message env m)).2.map StatusReply.status
        = some JMX_V3_STATUS_ERROR →
      ∃ tx', (step (run rulesInit es) (.message env m)).1.tx = some tx' ∧ tx'.failed = true := by
  intro h
  have htx : (run rulesInit [opening]).tx
      = some ⟨7, 1, 0, 0, 4000, declaredSet 1 beginOne 1, false⟩ := by decide +kernel
  have hstep : (step (run rulesInit [opening])
      (.message (.at 1001) ⟨toLE 4 JMX_NL_ACT_RULE_V3_BATCH, 7, 2⟩)).1.tx
      = some ⟨7, 1, 0, 0, 4000, declaredSet 1 beginOne 1, false⟩ := by decide +kernel
  obtain ⟨tx', htx', hfailed⟩ := h [opening] (.at 1001) ⟨toLE 4 JMX_NL_ACT_RULE_V3_BATCH, 7, 2⟩
    ⟨JMX_NL_ACT_RULE_V3_BATCH, 0, .error JMX_V3_REASON_BAD_HEADER⟩ _ htx rfl rfl (by decide)
    ⟨by decide, by decide, by simp [Env.at], by simp [Env.at]⟩ (by decide +kernel)
  rw [hstep] at htx'
  cases htx'
  cases hfailed

end DreamingOS.V3
