import DreamingOS.V3.PacketPath

namespace DreamingOS.V3

open Option

/-!
# v3 chain rules — acknowledgements under concurrency

Calls of `jmx_v3_nl_handle` section by section: waiting for `v3_nl_lock`, the operation, the failure
mark, the snapshot and the reply are separate steps, each one a section under `v3_update_lock`, and
any call of any sender or a tick of the expiry work may come between two of them.

* `Phase`, `System`, `sysStep`, `sysRun` — the calls and where each of them stands;
* `Report` — the active set as a reply reports it;
* `CallInv` — the invariant of one call: from the lock to the reply it alone holds `v3_nl_lock`, and
  the active set is the one its operation left;
* `commit_acknowledged` — **an acknowledged COMMIT is the truth**, for every interleaving.
-/

/-! ### The system -/

/-- The operation of a call: the state when the call took the lock, the state the operation left,
    and its outcome. -/
structure Work where
  (pre post : KState)
  ans : Answer

/-- Where a call of `jmx_v3_nl_handle` stands. -/
inductive Phase where
  | dropped
  | waiting (p : Parsed)
  | entered (p : Parsed) (pre : KState)
  | performed (p : Parsed) (w : Work)
  | marked (p : Parsed) (w : Work)
  | answered (p : Parsed) (w : Work) (reply : StatusReply)
  | finished (p : Parsed) (w : Work) (reply : StatusReply)

/-- The engine, the holder of `v3_nl_lock`, and the calls so far. -/
structure System where
  kernel : KState := rulesInit
  holder : Option ℕ := none
  calls : List (Message × Phase) := []

/-- What happens next: a message arrives, a call goes on by one section, or the expiry work runs. -/
inductive Choice where
  | arrive (m : Message)
  | advance (i : ℕ) (env : Env)
  | tick (now : BitVec 64)

/-- The first tests of a call, in front of the lock. -/
def arrival (m : Message) : Phase :=
  match parse m.data with
  | none => .dropped
  | some p => if m.portid = 0 ∨ m.seq = 0 then .dropped else .waiting p

/-- The next section of call `i`; a call that waits for the lock takes it only when it is free. -/
def advance (env : Env) (i : ℕ) (m : Message) (s : System) : Phase → System
  | .dropped => s
  | .waiting p =>
    if s.holder = none then
      { s with holder := some i, calls := s.calls.set i (m, .entered p s.kernel) }
    else s
  | .entered p pre =>
    let (st, ans) := perform env m.portid p s.kernel
    { s with kernel := st, calls := s.calls.set i (m, .performed p ⟨pre, st, ans⟩) }
  | .performed p w =>
    { s with
      kernel := markBatch env m.portid p w.ans s.kernel
      calls := s.calls.set i (m, .marked p w) }
  | .marked p w =>
    { s with calls := s.calls.set i (m, .answered p w (statusReply m p w.ans s.kernel)) }
  | .answered p w reply =>
    { s with holder := none, calls := s.calls.set i (m, .finished p w reply) }
  | .finished _ _ _ => s

def sysStep (s : System) : Choice → System
  | .arrive m => { s with calls := s.calls ++ [(m, arrival m)] }
  | .advance i env =>
    match s.calls[i]? with
    | none => s
    | some (m, phase) => advance env i m s phase
  | .tick now => { s with kernel := expireWork now s.kernel }

def sysRun (cs : List Choice) : System := cs.foldl sysStep {}

theorem sysRun_concat (cs : List Choice) (c : Choice) :
    sysRun (cs ++ [c]) = sysStep (sysRun cs) c := by
  simp [sysRun]

/-! ### What a call guarantees -/

/-- A snapshot reports this active set. -/
structure Report (active : Option RuleSet) (snap : Snapshot) : Prop where
  generation : snap.activeGeneration = (active.map RuleSet.generation).getD 0
  rules : snap.activeRules = (active.map fun set => set.rules.length).getD 0
  steps : snap.activeSteps = (active.map fun set => set.steps.length).getD 0
  ports : snap.activePorts = (active.map fun set => set.ports.length).getD 0
  mode : snap.activeMode = (active.map RuleSet.mode).getD 0
  digest : snap.activeCatalogDigest
    = (active.map RuleSet.catalogDigest).getD (List.replicate JMX_V3_CATALOG_DIGEST_LEN 0)

theorem report_getSnapshot (st : KState) : Report st.active (getSnapshot st) :=
  ⟨rfl, rfl, rfl, rfl, rfl, rfl⟩

/-- The outcome of a COMMIT: the generation it asked for is active, or the active set is the one
    before it. -/
structure Outcome (p : Parsed) (w : Work) : Prop where
  committed : p.action = JMX_NL_ACT_RULESET_COMMIT_V3 → w.ans.rc = none →
    ∃ set, w.post.active = some set ∧ set.generation = p.generation
  refused : p.action = JMX_NL_ACT_RULESET_COMMIT_V3 → w.ans.rc ≠ none → w.post.active = w.pre.active

/-- The reply of a call reports the active set its operation left. -/
structure Truthful (m : Message) (p : Parsed) (w : Work) (reply : StatusReply) : Prop where
  addressed : reply.portid = m.portid ∧ reply.seq = m.seq ∧ reply.generation = p.generation ∧
    reply.requestAction = p.action
  status : reply.status = JMX_V3_STATUS_OK ↔ w.ans.rc = none
  report : Report w.post.active reply.snapshot

/-- **The invariant of a call.**  Behind the lock the call alone holds it, and nothing but its own
    operation changes the active set. -/
def CallInv (s : System) (i : ℕ) (m : Message) : Phase → Prop
  | .dropped => True
  | .waiting p => parse m.data = some p
  | .entered p pre => parse m.data = some p ∧ s.holder = some i ∧ s.kernel.active = pre.active
  | .performed p w =>
    parse m.data = some p ∧ s.holder = some i ∧ s.kernel.active = w.post.active ∧ Outcome p w
  | .marked p w =>
    parse m.data = some p ∧ s.holder = some i ∧ s.kernel.active = w.post.active ∧ Outcome p w
  | .answered p w reply =>
    parse m.data = some p ∧ s.holder = some i ∧ Outcome p w ∧ Truthful m p w reply
  | .finished p w reply => parse m.data = some p ∧ Outcome p w ∧ Truthful m p w reply

def SysInv (s : System) : Prop := ∀ i m phase, s.calls[i]? = some (m, phase) → CallInv s i m phase

/-! ### The invariant -/

variable {phase : Phase} {m : Message} {i : ℕ}

/-- A call sees only the holder of the lock and the active set. -/
theorem CallInv.frame {s s' : System} (h : CallInv s i m phase) (hholder : s'.holder = s.holder)
    (hactive : s'.kernel.active = s.kernel.active) : CallInv s' i m phase := by
  cases phase with
  | dropped => trivial
  | waiting p => exact h
  | entered p pre => exact ⟨h.1, hholder.trans h.2.1, hactive.trans h.2.2⟩
  | performed p w => exact ⟨h.1, hholder.trans h.2.1, hactive.trans h.2.2.1, h.2.2.2⟩
  | marked p w => exact ⟨h.1, hholder.trans h.2.1, hactive.trans h.2.2.1, h.2.2.2⟩
  | answered p w reply => exact ⟨h.1, hholder.trans h.2.1, h.2.2⟩
  | finished p w reply => exact h

variable {s : System}

/-- A call that does not hold the lock is indifferent to everything. -/
theorem CallInv.outside (h : CallInv s i m phase) (hout : s.holder ≠ some i) (s' : System) :
    CallInv s' i m phase := by
  cases phase with
  | dropped => trivial
  | waiting p => exact h
  | entered p pre => exact absurd h.2.1 hout
  | performed p w => exact absurd h.2.1 hout
  | marked p w => exact absurd h.2.1 hout
  | answered p w reply => exact absurd h.2.1 hout
  | finished p w reply => exact h

/-- What the operation of a COMMIT does to the active set. -/
theorem perform_outcome (env : Env) (m : Message) {p : Parsed} (hp : parse m.data = some p)
    {st pre : KState} (hpre : st.active = pre.active) :
    Outcome p ⟨pre, (perform env m.portid p st).1, (perform env m.portid p st).2⟩ := by
  have hcommit : p.action = JMX_NL_ACT_RULESET_COMMIT_V3 → ∀ r, p.request = .ok r → r = .commit :=
    fun hact r hreq => parse_commit hp hact hreq
  constructor
  · intro hact hrc
    obtain ⟨action, generation, request⟩ := p
    cases request with
    | error reason => cases hrc
    | ok r =>
      cases hcommit hact r rfl
      rcases txCommit_cases env.commitAlloc env.clock m.portid generation st
        (Prod.mk.eta.symm : txCommit env.commitAlloc env.clock m.portid generation st = _) with
        href | ⟨tx, hown, _, ⟨hno, _⟩ | ⟨_, set, hval, hst⟩⟩
      · exact absurd hrc href.1
      · exact absurd hrc hno
      · refine ⟨set, ?_, ?_⟩
        · show (txCommit env.commitAlloc env.clock m.portid generation st).1.active = some set
          rw [hst]
        · have hgen := validateAndIndexSet_generation env.commitAlloc tx.set
          rw [hval] at hgen
          exact hgen.trans hown.setGeneration
  · intro hact hrc
    obtain ⟨action, generation, request⟩ := p
    show (perform env m.portid ⟨action, generation, request⟩ st).1.active = pre.active
    rw [← hpre]
    cases request with
    | error reason => rfl
    | ok r =>
      cases hcommit hact r rfl
      show (txCommit env.commitAlloc env.clock m.portid generation st).1.active = st.active
      rcases txCommit_cases env.commitAlloc env.clock m.portid generation st
        (Prod.mk.eta.symm : txCommit env.commitAlloc env.clock m.portid generation st = _) with
        href | ⟨tx, hown, _, ⟨_, set, r, d, hst⟩ | ⟨hok, _⟩⟩
      · exact (quiet_of_refused href).active
      · rw [hst]
      · exact absurd hok hrc

/-- The reply built now is truthful when the active set is still the one the operation left. -/
theorem truthful_statusReply (m : Message) (p : Parsed) (w : Work) {st : KState}
    (hactive : st.active = w.post.active) : Truthful m p w (statusReply m p w.ans st) where
  addressed := ⟨rfl, rfl, rfl, rfl⟩
  status := by
    show (if w.ans.rc = none then JMX_V3_STATUS_OK else JMX_V3_STATUS_ERROR) = _ ↔ _
    by_cases hrc : w.ans.rc = none
    · simp [hrc]
    · simp [hrc, JMX_V3_STATUS_OK, JMX_V3_STATUS_ERROR]
  report := hactive ▸ report_getSnapshot st

/-- Replacing the phase of a call: the others keep their invariant, the call gets the new one. -/
theorem SysInv.set {s s' : System} (h : SysInv s)
    (hcalls : s'.calls = s.calls.set i (m, phase)) (hself : CallInv s' i m phase)
    (hothers : ∀ j m' phase', j ≠ i → CallInv s j m' phase' → CallInv s' j m' phase') :
    SysInv s' := by
  intro j m' phase' hj
  rw [hcalls, List.getElem?_set] at hj
  by_cases hij : i = j
  · subst hij
    rw [if_pos rfl] at hj
    split at hj
    · cases hj
      exact hself
    · cases hj
  · rw [if_neg hij] at hj
    exact hothers j m' phase' (Ne.symm hij) (h j m' phase' hj)

/-- A call that has just arrived. -/
theorem arrival_inv (s : System) (i : ℕ) (m : Message) : CallInv s i m (arrival m) := by
  unfold arrival
  cases hp : parse m.data with
  | none => trivial
  | some p =>
    by_cases hsender : m.portid = 0 ∨ m.seq = 0
    · simp only [if_pos hsender]
      trivial
    · simp only [if_neg hsender]
      exact hp

/-- **One section of a call** keeps the invariant. -/
theorem SysInv.advance (h : SysInv s) (env : Env) (hi : s.calls[i]? = some (m, phase)) :
    SysInv (advance env i m s phase) := by
  have hcall := h i m phase hi
  -- while call `i` holds the lock the others are outside
  have hothers : s.holder = some i → ∀ s' : System, ∀ j m' phase', j ≠ i →
      CallInv s j m' phase' → CallInv s' j m' phase' := by
    intro hholder s' j m' phase' hji hj
    apply hj.outside
    rw [hholder]
    exact fun heq => hji (some.inj heq).symm
  cases phase with
  | dropped => exact h
  | finished p w reply => exact h
  | waiting p =>
    by_cases hfree : s.holder = none
    · have hstep : V3.advance env i m s (.waiting p)
          = { s with holder := some i, calls := s.calls.set i (m, .entered p s.kernel) } :=
        if_pos hfree
      rw [hstep]
      refine h.set rfl ⟨hcall, rfl, rfl⟩ (fun j m' phase' _ hj => ?_)
      apply hj.outside
      rw [hfree]
      exact some_ne_none j ∘ Eq.symm
    · have hstep : V3.advance env i m s (.waiting p) = s := if_neg hfree
      rw [hstep]
      exact h
  | entered p pre =>
    obtain ⟨hp, hholder, hactive⟩ := hcall
    exact h.set rfl ⟨hp, hholder, rfl, perform_outcome env m hp hactive⟩ (hothers hholder _)
  | performed p w =>
    obtain ⟨hp, hholder, hactive, hout⟩ := hcall
    refine h.set rfl ⟨hp, hholder, ?_, hout⟩ (hothers hholder _)
    exact (quiet_markBatch env m.portid p w.ans s.kernel).active.trans hactive
  | marked p w =>
    obtain ⟨hp, hholder, hactive, hout⟩ := hcall
    exact h.set rfl ⟨hp, hholder, hout, truthful_statusReply m p w hactive⟩ (hothers hholder _)
  | answered p w reply =>
    obtain ⟨hp, hholder, hout, htrue⟩ := hcall
    exact h.set rfl ⟨hp, hout, htrue⟩ (hothers hholder _)

theorem SysInv.step (h : SysInv s) (c : Choice) : SysInv (sysStep s c) := by
  cases c with
  | arrive m =>
    intro i m' phase hi
    have hi' : (s.calls ++ [(m, arrival m)])[i]? = some (m', phase) := hi
    rw [List.getElem?_append] at hi'
    split at hi'
    · exact (h i m' phase hi').frame rfl rfl
    -- the new call: it waits, or it is dropped
    have hmem := List.mem_of_getElem? hi'
    rw [List.mem_singleton, Prod.mk.injEq] at hmem
    obtain ⟨rfl, rfl⟩ := hmem
    exact arrival_inv _ i m'
  | advance i env =>
    show SysInv (match s.calls[i]? with | none => s | some (m, phase) => V3.advance env i m s phase)
    cases hi : s.calls[i]? with
    | none => exact h
    | some call => exact h.advance env hi
  | tick now =>
    intro i m phase hi
    exact (h i m phase hi).frame rfl (quiet_expireWork now s.kernel).active

/-- The invariant holds after every interleaving. -/
theorem sysInv (cs : List Choice) : SysInv (sysRun cs) := by
  induction cs using List.reverseRecOn with
  | nil =>
    intro i m phase hi
    simp [sysRun] at hi
  | append_singleton cs c ih =>
    rw [sysRun_concat]
    exact ih.step c

/-! ### The acknowledgement -/

/-- **An acknowledged COMMIT is the truth.**  Whatever other calls and ticks come between the
    sections of a COMMIT: an OK reply reports the generation the COMMIT asked for, with the digest,
    the counts and the mode of the set it activated; and a COMMIT answered with an error has left
    the active set as it was, and reports that one. -/
theorem commit_acknowledged (cs : List Choice) {i : ℕ} {m : Message} {p : Parsed} {w : Work}
    {reply : StatusReply} (hcall : (sysRun cs).calls[i]? = some (m, .finished p w reply))
    (hcommit : p.action = JMX_NL_ACT_RULESET_COMMIT_V3) :
    (reply.status = JMX_V3_STATUS_OK → ∃ set, w.post.active = some set ∧
      set.generation = p.generation ∧ reply.snapshot.activeGeneration = p.generation ∧
      reply.snapshot.activeCatalogDigest = set.catalogDigest ∧
      reply.snapshot.activeRules = set.rules.length ∧
      reply.snapshot.activeSteps = set.steps.length ∧
      reply.snapshot.activePorts = set.ports.length ∧ reply.snapshot.activeMode = set.mode) ∧
    (reply.status ≠ JMX_V3_STATUS_OK → w.post.active = w.pre.active ∧
      Report w.pre.active reply.snapshot) := by
  obtain ⟨_, hout, htrue⟩ := sysInv cs i m _ hcall
  have hreport := htrue.report
  constructor
  · intro hok
    obtain ⟨set, hset, hgen⟩ := hout.committed hcommit (htrue.status.mp hok)
    rw [hset] at hreport
    exact ⟨set, hset, hgen, hreport.generation.trans hgen, hreport.digest, hreport.rules,
      hreport.steps, hreport.ports, hreport.mode⟩
  · intro herr
    have hsame := hout.refused hcommit (fun hrc => herr (htrue.status.mpr hrc))
    rw [hsame] at hreport
    exact ⟨hsame, hreport⟩

/-- Port 7 loads a set while port 9 asks for the status: the sections of the COMMIT and of the query
    alternate. -/
def interleaved : List Choice :=
  let env : Env := .at 1000
  let call (i : ℕ) : List Choice := List.replicate 5 (.advance i env)
  let messages := (pairRun 0).filterMap fun e =>
    match e with
    | .message _ m => some m
    | .tick _ => none
  let query : Message := ⟨requestBytes JMX_NL_ACT_RULESET_STATUS_V3 0 0 0 0 [], 9, 1⟩
  (messages ++ [query]).map .arrive ++ call 0 ++ call 1 ++ call 2 ++
    [.advance 3 env, .advance 4 env, .advance 3 env, .tick 1000, .advance 4 env, .advance 3 env,
      .advance 4 env, .advance 3 env, .advance 3 env] ++ call 4

/-- The action and the status of a finished call. -/
def Phase.result : Phase → Option (ℕ × ℕ)
  | .finished p _ reply => some (p.action, reply.status)
  | _ => none

theorem commit_acknowledged_interleaved : ∃ m p w reply,
    (sysRun interleaved).calls[3]? = some (m, .finished p w reply) ∧
    p.action = JMX_NL_ACT_RULESET_COMMIT_V3 ∧ reply.status = JMX_V3_STATUS_OK ∧
    (reply.status = JMX_V3_STATUS_OK → ∃ set, w.post.active = some set ∧
      set.generation = p.generation ∧ reply.snapshot.activeGeneration = p.generation ∧
      reply.snapshot.activeCatalogDigest = set.catalogDigest ∧
      reply.snapshot.activeRules = set.rules.length ∧
      reply.snapshot.activeSteps = set.steps.length ∧
      reply.snapshot.activePorts = set.ports.length ∧ reply.snapshot.activeMode = set.mode) ∧
    (reply.status ≠ JMX_V3_STATUS_OK → w.post.active = w.pre.active ∧
      Report w.pre.active reply.snapshot) := by
  have hresult : ((sysRun interleaved).calls[3]?.bind fun call => call.2.result)
      = some (JMX_NL_ACT_RULESET_COMMIT_V3, JMX_V3_STATUS_OK) := by decide +kernel
  obtain ⟨⟨m, phase⟩, hcall, hphase⟩ := bind_eq_some_iff.mp hresult
  cases phase with
  | finished p w reply =>
    obtain ⟨haction, hstatus⟩ := Prod.mk.inj (some.inj hphase)
    exact ⟨m, p, w, reply, hcall, haction, hstatus, commit_acknowledged interleaved hcall haction⟩
  | dropped => cases hphase
  | waiting p => cases hphase
  | entered p pre => cases hphase
  | performed p w => cases hphase
  | marked p w => cases hphase
  | answered p w reply => cases hphase

end DreamingOS.V3
