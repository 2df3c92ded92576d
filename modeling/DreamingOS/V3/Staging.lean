import DreamingOS.V3.Handler
import DreamingOS.V3.MatchSpec
import Mathlib.Data.List.Chain

namespace DreamingOS.V3

open List

/-!
# v3 chain rules — the staging transaction over runs

What one event can do to the staging transaction and the active set, and what follows for every
run of messages and ticks.

* `Takes` — an event that is answered OK, with its sender, generation and request;
* `Quiet` — the steps that only lose or fail what is staged;
* `step_cases` — **the step lemma**: an event is quiet, or it is an accepted BEGIN, batch, COMMIT
  or ABORT with exactly the effect its name says;
* `Session` — an accepted BEGIN and the events behind it, throughout which its transaction stays
  staged and has not failed; `Session.loaded` is the set those events build;
* `Sound` — what holds of the records of such a transaction, and is enough for a commit.
-/

/-! ### Accepted events -/

/-- The sender, the generation and the request of an event that carries a well-formed message. -/
def requestOf : Event → Option (ℕ × ℕ × Request)
  | .message _ m =>
    match parse m.data with
    | some ⟨_, generation, .ok r⟩ => some (m.portid, generation, r)
    | _ => none
  | .tick _ => none

/-- The event is answered OK. -/
def Accepted (st : KState) (e : Event) : Prop :=
  ∃ r, (step st e).2 = some r ∧ r.status = JMX_V3_STATUS_OK

/-- The event is answered OK, and carries this request. -/
def Takes (st : KState) (e : Event) (portid generation : ℕ) (r : Request) : Prop :=
  requestOf e = some (portid, generation, r) ∧ Accepted st e

instance (st : KState) (e : Event) : Decidable (Accepted st e) :=
  match h : (step st e).2 with
  | none => .isFalse (by rintro ⟨r, hr, _⟩; rw [h] at hr; cases hr)
  | some r =>
    if hs : r.status = JMX_V3_STATUS_OK then .isTrue ⟨r, h, hs⟩
    else .isFalse (by rintro ⟨r', hr, hs'⟩; rw [h] at hr; cases hr; exact hs hs')

/-! ### Quiet steps -/

/-- Nothing but an expiry or a failure mark: the active set stays, and the staged one stays, goes,
    or is marked failed. -/
structure Quiet (st st' : KState) : Prop where
  active : st'.active = st.active
  running : st'.running = st.running
  tx : st'.tx = st.tx ∨ st'.tx = none ∨
    ∃ tx reason detail, st.tx = some tx ∧ st'.tx = some (tx.markFailed reason detail)

theorem Quiet.refl (st : KState) : Quiet st st := ⟨rfl, rfl, .inl rfl⟩

theorem markFailed_markFailed (tx : Transaction) (r d r' d' : ℕ) :
    (tx.markFailed r d).markFailed r' d' = tx.markFailed r d := by
  unfold Transaction.markFailed
  by_cases h : tx.failed <;> simp [h]

theorem Quiet.trans {st st' st'' : KState} (h : Quiet st st') (h' : Quiet st' st'') :
    Quiet st st'' := by
  refine ⟨h'.active.trans h.active, h'.running.trans h.running, ?_⟩
  rcases h'.tx with heq | hnone | ⟨tx, r, d, htx, hmark⟩
  · rw [heq]
    exact h.tx
  · exact Or.inr (.inl hnone)
  rcases h.tx with heq | hnone | ⟨tx', r', d', htx', hmark'⟩
  · exact Or.inr (.inr ⟨tx, r, d, heq ▸ htx, hmark⟩)
  · rw [hnone] at htx
    cases htx
  · rw [hmark'] at htx
    cases htx
    rw [markFailed_markFailed] at hmark
    exact Or.inr (.inr ⟨tx', r', d', htx', hmark⟩)

theorem quiet_expireStagingLocked (now : BitVec 64) (st : KState) :
    Quiet st (expireStagingLocked now st) := by
  rcases expireStagingLocked_cases now st with ⟨_, _, _, h⟩ | ⟨_, h⟩ <;> rw [h]
  · exact ⟨rfl, rfl, .inr (.inl rfl)⟩
  · exact Quiet.refl st

theorem quiet_expireWork (now : BitVec 64) (st : KState) : Quiet st (expireWork now st) := by
  unfold expireWork
  split
  · exact quiet_expireStagingLocked now st
  · exact Quiet.refl st

theorem quiet_ticks (nows : List (BitVec 64)) : ∀ st, Quiet st (ticks nows st) := by
  induction nows with
  | nil => exact Quiet.refl
  | cons now nows ih =>
    intro st
    exact (quiet_expireWork now st).trans (ih _)

theorem quiet_txFail (clock : Clock) (portid generation reason detail : ℕ) (st : KState) :
    Quiet st (txFail clock portid generation reason detail st) := by
  rcases txFail_cases clock portid generation reason detail st with (h | h) | ⟨tx, hown, h⟩ <;>
    rw [h]
  · exact Quiet.refl st
  · exact quiet_expireStagingLocked _ _
  · exact ⟨rfl, rfl, .inr (.inr ⟨tx, reason, detail, hown.staged, rfl⟩)⟩

theorem quiet_markBatch (env : Env) (portid : ℕ) (p : Parsed) (ans : Answer) (st : KState) :
    Quiet st (markBatch env portid p ans st) := by
  unfold markBatch
  split
  · exact quiet_txFail _ _ _ _ _ _
  · exact Quiet.refl st

variable {ans : Answer}

theorem quiet_of_refused {now : BitVec 64} {st st' : KState}
    (h : Refused now st st' ans) : Quiet st st' := by
  rcases h.2 with rfl | rfl
  · exact Quiet.refl _
  · exact quiet_expireStagingLocked _ _

/-- What `handle` does behind the operation itself is quiet. -/
theorem handle_eq (env : Env) (m : Message) (st : KState) {p : Parsed}
    (hp : parse m.data = some p) (hsender : ¬ (m.portid = 0 ∨ m.seq = 0)) :
    Quiet (perform env m.portid p st).1 (handle env m st).1 ∧ ∃ r, (handle env m st).2 = some r ∧
        (r.status = JMX_V3_STATUS_OK ↔ (perform env m.portid p st).2.rc = none) := by
  unfold handle
  rw [hp]
  simp only [hsender, if_false]
  refine ⟨(quiet_ticks _ _).trans ((quiet_markBatch _ _ _ _ _).trans (quiet_ticks _ _)), _, rfl, ?_⟩
  simp only [statusReply]
  by_cases hrc : (perform env m.portid p st).2.rc = none
  · simp [hrc]
  · simp [hrc, JMX_V3_STATUS_OK, JMX_V3_STATUS_ERROR]

/-! ### The step lemma -/

/-- The state with a fresh transaction staged. -/
def stagedFresh (st : KState) (portid generation : ℕ) (deadline : BitVec 64) (b : NlBegin)
    (flags : UInt32) : KState :=
  { st with
    tx := some {
      ownerPortid := portid
      generation := generation
      deadline := deadline
      set := declaredSet generation b flags } }

/-- The state with a batch stored in the transaction. -/
def stagedMore {ρ κ : Type} (k : BatchKind ρ κ) (st : KState) (tx : Transaction) (wires : List ρ)
    (deadline : BitVec 64) : KState :=
  { st with
    tx := some { tx with
      set := k.store tx.set (k.records tx.set ++ wires.map k.ofWire)
      deadline := deadline } }

/-- A batch `wires` of kind `k` goes through: it fits, and no record is rejected. -/
structure Loads {ρ κ : Type} (k : BatchKind ρ κ) (st : KState) (portid generation : ℕ)
    (wires : List ρ) (tx : Transaction) : Prop where
  staged : st.tx = some tx
  owner : tx.ownerPortid = portid
  txGeneration : tx.generation = generation
  sound : tx.failed = false
  room : wires.length ≤ roomLeft (k.capacity tx.set) (k.records tx.set).length
  accepted : k.appendAll tx.set wires
    = (k.store tx.set (k.records tx.set ++ wires.map k.ofWire), none)

/-- **What an operation does.**  It is quiet, or it has exactly the effect of its request. -/
inductive Effect (env : Env) (portid : ℕ) (p : Parsed) (st : KState) : KState → Answer → Prop
  | quiet {st' : KState} {ans : Answer} : Quiet st st' →
      (ans.rc = none → p.request = .ok .capability ∨ p.request = .ok .status) →
      Effect env portid p st st' ans
  | began {ans : Answer} (b : NlBegin) (flags : UInt32) (deadline : BitVec 64) :
      p.request = .ok (.begin b flags) → ¬ beginBad b flags →
      (expireStagingLocked env.clock.check st).tx = none →
      (∀ active ∈ st.active, active.generation ≠ p.generation) → ans.rc = none →
      Effect env portid p st (stagedFresh st portid p.generation deadline b flags) ans
  | loadedRules {ans : Answer} (wires : List NlRule) (tx : Transaction) (deadline : BitVec 64) :
      p.request = .ok (.rules wires) → Loads ruleBatch st portid p.generation wires tx →
      ans.rc = none → Effect env portid p st (stagedMore ruleBatch st tx wires deadline) ans
  | loadedSteps {ans : Answer} (wires : List NlStep) (tx : Transaction) (deadline : BitVec 64) :
      p.request = .ok (.steps wires) → Loads stepBatch st portid p.generation wires tx →
      ans.rc = none → Effect env portid p st (stagedMore stepBatch st tx wires deadline) ans
  | loadedPorts {ans : Answer} (wires : List NlPort) (tx : Transaction) (deadline : BitVec 64) :
      p.request = .ok (.ports wires) → Loads portBatch st portid p.generation wires tx →
      ans.rc = none → Effect env portid p st (stagedMore portBatch st tx wires deadline) ans
  | committed {ans : Answer} (tx : Transaction) (set : RuleSet) :
      p.request = .ok .commit → Owns env.clock.check portid p.generation st tx →
      tx.failed = false → validateAndIndexSet env.commitAlloc tx.set = (set, none) →
      ans.rc = none → Effect env portid p st { st with tx := none, active := some set } ans
  | invalid {ans : Answer} (tx : Transaction) (set : RuleSet) (reason detail : ℕ) :
      p.request = .ok .commit → Owns env.clock.check portid p.generation st tx →
      ans.rc ≠ none → Effect env portid p st
        { st with tx := some ({ tx with set := set }.markFailed reason detail) } ans
  | aborted {ans : Answer} (tx : Transaction) :
      p.request = .ok .abort → Owns env.clock.check portid p.generation st tx →
      ans.rc = none → Effect env portid p st { st with tx := none } ans

/-- The batch operations, by kind. -/
theorem txAdd_effect {ρ κ : Type} {k : BatchKind ρ κ} (hk : k.Lawful) {clock : Clock}
    {portid generation : ℕ} {wires : List ρ} {st st' : KState}
    (h : txAdd k clock portid generation wires st = (st', ans)) :
    (Quiet st st' ∧ ans.rc ≠ none) ∨ ∃ tx deadline, Loads k st portid generation wires tx ∧
      ans.rc = none ∧ st' = stagedMore k st tx wires deadline := by
  rcases txAdd_cases hk clock portid generation wires st h with
    href | ⟨tx, hown, hsound, ⟨hrc, r, d, hst⟩ | ⟨hrc, hroom, happ, hst⟩⟩
  · exact Or.inl ⟨quiet_of_refused href, href.1⟩
  · subst hst
    exact Or.inl ⟨⟨rfl, rfl, .inr (.inr ⟨tx, r, d, hown.staged, rfl⟩)⟩, hrc⟩
  · exact Or.inr ⟨tx, clock.renew + txTimeout clock.hz,
      ⟨hown.staged, hown.owner, hown.txGeneration, hsound, hroom, happ⟩, hrc, hst⟩

theorem perform_effect (env : Env) (portid : ℕ) (p : Parsed) (st : KState) {st' : KState}
    (h : perform env portid p st = (st', ans)) :
    Effect env portid p st st' ans := by
  unfold perform at h
  split at h
  · cases h
    exact .quiet (Quiet.refl st) (fun h => by simp at h)
  · next hreq =>
    cases h
    exact .quiet (Quiet.refl st) (fun _ => .inl hreq)
  · next hreq =>
    cases h
    exact .quiet (Quiet.refl st) (fun _ => .inr hreq)
  · next hreq =>
    rcases txCommit_cases env.commitAlloc env.clock portid p.generation st h with
      href | ⟨tx, hown, hsound, ⟨hrc, set, r, d, rfl⟩ | ⟨hrc, set, hval, rfl⟩⟩
    · exact .quiet (quiet_of_refused href) (fun hrc => absurd hrc href.1)
    · exact .invalid tx set r d hreq hown hrc
    · exact .committed tx set hreq hown hsound hval hrc
  · next hreq =>
    rcases txAbort_cases env.clock portid p.generation st h with href | ⟨tx, hown, hrc, rfl⟩
    · exact .quiet (quiet_of_refused href) (fun hrc => absurd hrc href.1)
    · exact .aborted tx hreq hown hrc
  · next b flags hreq =>
    rcases txBegin_cases env.beginAlloc env.clock portid p.generation b flags st h with
      href | ⟨hrc, hbad, hnone, hfresh, hst⟩
    · exact .quiet (quiet_of_refused href) (fun hrc => absurd hrc href.1)
    · have hstaged : st' = stagedFresh st portid p.generation
          (env.clock.renew + txTimeout env.clock.hz) b flags := by
        rw [hst, stagedFresh, ← expireStagingLocked_active env.clock.check st,
          ← expireStagingLocked_running env.clock.check st]
      rw [hstaged]
      exact .began b flags _ hreq hbad hnone hfresh hrc
  · next wires hreq =>
    rcases txAdd_effect BatchKind.ruleBatch_lawful h with
      ⟨hq, hrc⟩ | ⟨tx, deadline, hloads, hrc, rfl⟩
    · exact .quiet hq (fun h => absurd h hrc)
    · exact .loadedRules wires tx deadline hreq hloads hrc
  · next wires hreq =>
    rcases txAdd_effect BatchKind.stepBatch_lawful h with
      ⟨hq, hrc⟩ | ⟨tx, deadline, hloads, hrc, rfl⟩
    · exact .quiet hq (fun h => absurd h hrc)
    · exact .loadedSteps wires tx deadline hreq hloads hrc
  · next wires hreq =>
    rcases txAdd_effect BatchKind.portBatch_lawful h with
      ⟨hq, hrc⟩ | ⟨tx, deadline, hloads, hrc, rfl⟩
    · exact .quiet hq (fun h => absurd h hrc)
    · exact .loadedPorts wires tx deadline hreq hloads hrc

/-- **The step lemma.**  An event is quiet and, if it is accepted, a query; or it is a message whose
    operation had an effect, with quiet steps behind it. -/
theorem step_cases (st : KState) (e : Event) :
    (Quiet st (step st e).1 ∧ ∀ portid generation r, Takes st e portid generation r →
      r = .capability ∨ r = .status) ∨
    ∃ env m p st₁ ans, e = .message env m ∧ parse m.data = some p ∧
      ¬ (m.portid = 0 ∨ m.seq = 0) ∧ perform env m.portid p st = (st₁, ans) ∧
      Effect env m.portid p st st₁ ans ∧ Quiet st₁ (step st e).1 ∧
      (Accepted st e ↔ ans.rc = none) := by
  cases e with
  | tick now =>
    refine Or.inl ⟨quiet_expireWork now st, fun portid generation r h => ?_⟩
    simp [Takes, requestOf] at h
  | message env m =>
    cases hp : parse m.data with
    | none =>
      have hstep : step st (.message env m) = (st, none) := by simp [step, handle, hp]
      refine Or.inl ⟨by rw [hstep]; exact Quiet.refl st, fun portid generation r h => ?_⟩
      obtain ⟨_, r', hr', _⟩ := h
      rw [hstep] at hr'
      cases hr'
    | some p =>
      by_cases hsender : m.portid = 0 ∨ m.seq = 0
      · have hstep : step st (.message env m) = (st, none) := by
          simp [step, handle, hp, hsender]
        refine Or.inl ⟨by rw [hstep]; exact Quiet.refl st, fun portid generation r h => ?_⟩
        obtain ⟨_, r', hr', _⟩ := h
        rw [hstep] at hr'
        cases hr'
      · obtain ⟨hquiet, r, hr, hok⟩ := handle_eq env m st hp hsender
        refine Or.inr ⟨env, m, p, (perform env m.portid p st).1, (perform env m.portid p st).2,
          rfl, hp, hsender, rfl, perform_effect env m.portid p st rfl, hquiet, ?_⟩
        rw [← hok]
        constructor
        · rintro ⟨r', hr', hstatus⟩
          have : (handle env m st).2 = some r' := hr'
          rw [hr] at this
          cases this
          exact hstatus
        · exact fun hstatus => ⟨r, hr, hstatus⟩

/-! ### Sessions -/

def Request.rulesIn : Request → List NlRule
  | .rules wires => wires
  | _ => []

def Request.stepsIn : Request → List NlStep
  | .steps wires => wires
  | _ => []

def Request.portsIn : Request → List NlPort
  | .ports wires => wires
  | _ => []

/-- What an event contributes to a collection over the accepted events. -/
def contribution {ρ : Type} (part : Request → List ρ) (st : KState) (e : Event) : List ρ :=
  if Accepted st e then ((requestOf e).map fun q => part q.2.2).getD [] else []

/-- The records of the accepted events, in order. -/
def collect {ρ : Type} (part : Request → List ρ) : KState → List Event → List ρ
  | _, [] => []
  | st, e :: es => contribution part st e ++ collect part (step st e).1 es

theorem collect_concat {ρ : Type} (part : Request → List ρ) (es : List Event) (e : Event) :
    ∀ st, collect part st (es ++ [e]) = collect part st es ++ contribution part (run st es) e := by
  induction es with
  | nil => intro st; simp [collect]
  | cons e' es ih =>
    intro st
    simp only [cons_append, collect, ih, run_cons, append_assoc]

theorem contribution_of_takes {ρ : Type} (part : Request → List ρ) {st : KState} {e : Event}
    {portid generation : ℕ} {r : Request} (h : Takes st e portid generation r) :
    contribution part st e = part r := by
  rw [contribution, if_pos h.2, h.1]
  rfl

theorem contribution_of_not_accepted {ρ : Type} (part : Request → List ρ) {st : KState}
    {e : Event} (h : ¬ Accepted st e) : contribution part st e = [] :=
  if_neg h

/-- A stretch of a history: the events `pre`, an event that opens a transaction, and the events
    `mid` behind it. -/
structure Session where
  pre : List Event
  opening : Event
  mid : List Event
  (portid generation : ℕ)
  declared : NlBegin
  flags : UInt32

namespace Session

/-- The whole stretch. -/
def events (s : Session) : List Event := s.pre ++ s.opening :: s.mid

/-- The state in which the transaction has just been opened. -/
def start (s : Session) : KState := run rulesInit (s.pre ++ [s.opening])

/-- One more event. -/
def extend (s : Session) (e : Event) : Session := { s with mid := s.mid ++ [e] }

/-- The set that the accepted batches of the session build up. -/
def loaded (s : Session) : RuleSet :=
  { declaredSet s.generation s.declared s.flags with
    rules := (collect Request.rulesIn s.start s.mid).map ruleOfWire
    steps := (collect Request.stepsIn s.start s.mid).map stepOfWire
    ports := (collect Request.portsIn s.start s.mid).map portOfWire }

/-- The opening event is an accepted BEGIN; from it to the end of the stretch the staging
    transaction is the one of its sender and generation and has not failed; and nothing else is
    accepted within than queries and batches of this sender and generation. -/
structure Proper (s : Session) : Prop where
  opens : Takes (run rulesInit s.pre) s.opening s.portid s.generation
    (.begin s.declared s.flags)
  staged : ∀ mid', mid' <+: s.mid → ∃ tx, (run s.start mid').tx = some tx ∧
    tx.ownerPortid = s.portid ∧ tx.generation = s.generation ∧ tx.failed = false
  single : ∀ mid' e, mid' ++ [e] <+: s.mid → ∀ portid generation r,
    Takes (run s.start mid') e portid generation r → r = .capability ∨ r = .status ∨
      (r.IsBatch ∧ portid = s.portid ∧ generation = s.generation)

theorem run_events (s : Session) : run rulesInit s.events = run s.start s.mid := by
  rw [events, start, ← run_append, append_assoc, singleton_append]

theorem events_extend (s : Session) (e : Event) : (s.extend e).events = s.events ++ [e] := by
  simp [events, extend]

/-- A proper session goes on as long as its transaction stays staged and sound. -/
theorem Proper.extend {s : Session} (h : s.Proper) {e : Event} {tx : Transaction}
    (htx : (step (run rulesInit s.events) e).1.tx = some tx) (howner : tx.ownerPortid = s.portid)
    (hgen : tx.generation = s.generation) (hsound : tx.failed = false)
    (hsingle : ∀ portid generation r, Takes (run rulesInit s.events) e portid generation r →
      r = .capability ∨ r = .status ∨ (r.IsBatch ∧ portid = s.portid ∧ generation = s.generation)) :
    (s.extend e).Proper where
  opens := h.opens
  staged := by
    intro mid' hmid
    have hmid' : mid' <+: s.mid ++ [e] := hmid
    rcases prefix_concat_iff.mp hmid' with rfl | hpre
    · refine ⟨tx, ?_, howner, hgen, hsound⟩
      show (run s.start (s.mid ++ [e])).tx = some tx
      rw [run_append, ← run_events]
      exact htx
    · exact h.staged mid' hpre
  single := by
    intro mid' e' hmid portid generation r htakes
    have hmid' : mid' ++ [e'] <+: s.mid ++ [e] := hmid
    rcases prefix_concat_iff.mp hmid' with heq | hpre
    · obtain ⟨rfl, he⟩ := append_inj' heq rfl
      cases he
      refine hsingle portid generation r ?_
      rw [run_events]
      exact htakes
    · exact h.single mid' e' hpre portid generation r htakes

/-- What one more event loads. -/
theorem loaded_extend (s : Session) (e : Event) : (s.extend e).loaded = { s.loaded with
      rules := s.loaded.rules
        ++ (contribution Request.rulesIn (run rulesInit s.events) e).map ruleOfWire
      steps := s.loaded.steps
        ++ (contribution Request.stepsIn (run rulesInit s.events) e).map stepOfWire
      ports := s.loaded.ports
        ++ (contribution Request.portsIn (run rulesInit s.events) e).map portOfWire } := by
  simp only [loaded, extend, collect_concat, map_append, run_events]
  rfl

end Session

/-! ### Sound staged sets -/

/-- What holds of the records of a transaction that has not failed. -/
structure Sound (set : RuleSet) : Prop where
  rules : ∀ r ∈ set.rules, r.unindexed = r ∧ 0 < r.stepCount
  ascending : set.rules.IsChain (fun r r' => r.signatureRuleId < r'.signatureRuleId)
  steps : ∀ step ∈ set.steps, step.Valid
  ac : set.ac = none

theorem Sound.declared (generation : ℕ) (b : NlBegin) (flags : UInt32) :
    Sound (declaredSet generation b flags) where
  rules := by intro r hr; exact absurd hr not_mem_nil
  ascending := isChain_nil
  steps := by intro step hstep; exact absurd hstep not_mem_nil
  ac := rfl

theorem Sound.unindexed {set : RuleSet} (h : Sound set) : Unindexed set where
  fresh := fun r hr => (h.rules r hr).1
  ascending := isChain_iff_pairwise.mp h.ascending
  ac := h.ac

theorem checkRule_eq_none {set : RuleSet} {wire : NlRule} (h : checkRule set wire = none) :
    0 < wire.stepCount ∧ ∀ last ∈ set.rules.getLast?, last.signatureRuleId < wire.signatureRuleId := by
  simp only [checkRule] at h
  split at h
  · cases h
  · next hok =>
    simp only [not_or, not_exists, not_and, not_le] at hok
    exact ⟨by omega, hok.2.2.2.2.2.2.2.2.2⟩

variable {set set' : RuleSet}

theorem Sound.addRules (h : Sound set) {wires : List NlRule}
    (happ : ruleBatch.appendAll set wires = (set', none)) : Sound set' := by
  refine BatchKind.appendAll_induct (P := Sound) (fun s hs wire _ hcheck => ?_) h happ
  obtain ⟨hpos, hlast⟩ := checkRule_eq_none hcheck
  refine ⟨?_, ?_, hs.steps, hs.ac⟩
  · intro r hr
    rcases mem_append.mp hr with hr | hr
    · exact hs.rules r hr
    · rw [mem_singleton] at hr
      subst hr
      exact ⟨rfl, hpos⟩
  · refine isChain_append.mpr ⟨hs.ascending, isChain_singleton _, ?_⟩
    intro last hl first hf
    have hfirst : ruleOfWire wire = first := by simpa [ruleBatch] using hf
    rw [← hfirst]
    exact hlast last hl

theorem Sound.addSteps (h : Sound set) {wires : List NlStep}
    (hlen : ∀ wire ∈ wires, wire.payload.length = JMX_V3_PAYLOAD_MAX)
    (happ : stepBatch.appendAll set wires = (set', none)) : Sound set' := by
  refine BatchKind.appendAll_induct (P := Sound) (fun s hs wire hwire hcheck => ?_) h happ
  refine ⟨hs.rules, hs.ascending, ?_, hs.ac⟩
  intro step hstep
  rcases mem_append.mp hstep with hstep | hstep
  · exact hs.steps step hstep
  rw [mem_singleton] at hstep
  subst hstep
  simp only [stepBatch, checkStep] at hcheck
  cases hv : validStepWire wire with
  | error rc => simp [hv] at hcheck
  | ok step =>
    have heq := (validStepWire_eq_ok hv).1
    subst heq
    exact stepOfWire_valid (hlen wire hwire) hv

theorem Sound.addPorts (h : Sound set) {wires : List NlPort}
    (happ : portBatch.appendAll set wires = (set', none)) : Sound set' :=
  BatchKind.appendAll_induct (P := Sound)
    (fun _ hs _ _ _ => ⟨hs.rules, hs.ascending, hs.steps, hs.ac⟩) h happ

/-- An accepted sound set is installed. -/
theorem Sound.installed {alloc : CommitAlloc} (h : Sound set)
    (hval : validateAndIndexSet alloc set = (set', none)) :
    SameRecords set set' ∧ Installed set' := by
  obtain ⟨hwf, hsame, hac⟩ := validateAndIndexSet_wellFormed h.unindexed hval
  refine ⟨hsame, hwf, ?_, ?_, hac⟩
  · rw [hsame.steps]
    exact h.steps
  · intro r hr
    have hmem : r.unindexed ∈ set.rules := by
      rw [← hsame.rules]
      exact List.mem_map_of_mem hr
    exact (h.rules _ hmem).2

/-! ### Wire records of a parsed message -/

theorem records_payload {count : ℕ} : ∀ {bs : List UInt8}, count * sizeofStep ≤ bs.length →
    ∀ wire ∈ records NlStep.ofBytes sizeofStep count bs,
      wire.payload.length = JMX_V3_PAYLOAD_MAX := by
  induction count with
  | zero => intro bs _ wire hw; exact absurd hw not_mem_nil
  | succ count ih =>
    intro bs hlen wire hw
    have hsize : sizeofStep = 116 := rfl
    rw [Nat.succ_mul] at hlen
    rcases mem_cons.mp hw with rfl | hw
    · simp only [NlStep.ofBytes, Bytes.fieldBytes, length_take, length_drop, JMX_V3_PAYLOAD_MAX]
      omega
    · exact ih (by rw [length_drop]; omega) wire hw

/-- A step batch that parses holds whole records. -/
theorem parse_steps {data : List UInt8} {p : Parsed} (hp : parse data = some p)
    {wires : List NlStep} (hreq : p.request = .ok (.steps wires)) :
    ∀ wire ∈ wires, wire.payload.length = JMX_V3_PAYLOAD_MAX := by
  obtain ⟨_, _, hlen, ⟨_, hctl⟩ | hrec⟩ := parse_eq_ok hp hreq
  · rcases parseControl_eq_ok hctl with ⟨h, _⟩ | ⟨h, _⟩ | ⟨h, _⟩ | ⟨h, _⟩ <;> cases h
  obtain ⟨_, hsize, h⟩ := parseRecords_eq_ok hrec
  rcases h with ⟨_, h⟩ | ⟨_, h⟩ | ⟨hact, h⟩ | ⟨_, h⟩
  · cases h
  · cases h
  · cases h
    have hexp : expectedRecordSize (NlHdr.ofBytes data).action = sizeofStep := by
      rw [hact]
      rfl
    rw [hexp] at hsize
    apply records_payload
    rw [length_drop]
    omega
  · cases h

end DreamingOS.V3
