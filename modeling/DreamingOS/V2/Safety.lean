import DreamingOS.V2.Transaction

namespace DreamingOS.V2

open Bytes List Option

/-!
# v2 rules — what a commit activates

* `Session` — the events since the last FLUSH of a port, with the attempts among them;
* `Tracked`, `tracked` — the staged set is always the one the attempts of its owner's session make;
* `TransactionSafe`, `rules_transaction` — **the transaction is safe** behind every interleaving of
  calls and ticks;
* `transaction_not_as_documented` — the three ways in which it is less than all or nothing.
-/

variable {Ac : Type} {hashAppid : ℕ → Fin 256}

/-! ### Sessions -/

/-- An accepted FLUSH of `portid`, the last one, and the events since. -/
structure Session (hashAppid : ℕ → Fin 256) (es : List (Event Ac)) (portid : ℕ) where
  before : List (Event Ac)
  env : Env Ac
  since : List (Event Ac)
  split : es = before ++ .op env portid .begin :: since
  opened : (step hashAppid (run hashAppid {} before) (.op env portid .begin)).2 = none
  last : ∀ env', Event.op env' portid .begin ∉ since

/-- The rules the port tried to add since. -/
def Session.attempts {es : List (Event Ac)} {portid : ℕ} (s : Session hashAppid es portid) :
    List Attempt :=
  V2.attempts hashAppid portid
    (step hashAppid (run hashAppid {} s.before) (.op s.env portid .begin)).1 s.since

/-- The session goes on. -/
def Session.extend {es : List (Event Ac)} {portid : ℕ} (s : Session hashAppid es portid)
    (e : Event Ac) (h : ∀ env, e ≠ .op env portid .begin) :
    Session hashAppid (es ++ [e]) portid where
  before := s.before
  env := s.env
  since := s.since ++ [e]
  split := (congrArg (· ++ [e]) s.split).trans (append_assoc _ _ _)
  opened := s.opened
  last := by
    intro env hmem
    rcases mem_append.mp hmem with hmem | hmem
    · exact s.last env hmem
    · exact h env (mem_singleton.mp hmem).symm

variable {es : List (Event Ac)}

theorem Session.attempts_extend {portid : ℕ}
    (s : Session hashAppid es portid) (e : Event Ac) (h : ∀ env, e ≠ .op env portid .begin) :
    (s.extend e h).attempts
      = s.attempts ++ (attemptOf hashAppid portid (run hashAppid {} es) e).toList := by
  have hrun : run hashAppid {} es
      = run hashAppid (step hashAppid (run hashAppid {} s.before) (.op s.env portid .begin)).1
          s.since := by
    conv_lhs => rw [s.split]
    rw [run_append, run_cons]
  rw [hrun]
  exact attempts_concat _ _ _ _

/-! ### The staged set -/

/-- Without an owner nothing is staged; else the staged set is what the owner's attempts since its
    last FLUSH make, and each of them is recorded in it. -/
structure Tracked (hashAppid : ℕ → Fin 256) (es : List (Event Ac)) (st : KState Ac) : Prop where
  free : st.stagingOwnerPortid = 0 → st.staging = {}
  owned : st.stagingOwnerPortid ≠ 0 → ∃ s : Session hashAppid es st.stagingOwnerPortid,
    st.staging = stagedSet hashAppid s.attempts ∧ ∀ a ∈ s.attempts, a.Recorded

variable {st : KState Ac}

theorem Tracked.of_free (howner : st.stagingOwnerPortid = 0)
    (hstaging : st.staging = {}) : Tracked hashAppid es st :=
  ⟨fun _ => hstaging, fun h => absurd howner h⟩

variable {e : Event Ac}

/-- An event of another sender leaves the session of the owner as it is. -/
theorem Tracked.frame (h : Tracked hashAppid es (run hashAppid {} es))
    (hother : ∀ portid, e.portid = some portid →
      portid = 0 ∨ (run hashAppid {} es).stagingOwnerPortid ≠ portid) :
    Tracked hashAppid (es ++ [e]) (run hashAppid {} es) where
  free := h.free
  owned := by
    intro hne
    obtain ⟨s, hstaged, hrec⟩ := h.owned hne
    have hforeign : e.portid ≠ some (run hashAppid {} es).stagingOwnerPortid := by
      intro heq
      rcases hother _ heq with hzero | hne'
      · exact hne hzero
      · exact hne' rfl
    have hnot : ∀ env, e ≠ .op env (run hashAppid {} es).stagingOwnerPortid .begin := by
      rintro env rfl
      exact hforeign rfl
    have hsame : (s.extend e hnot).attempts = s.attempts := by
      rw [s.attempts_extend, attemptOf_foreign hforeign, toList_none, append_nil]
    refine ⟨s.extend e hnot, ?_⟩
    rw [hsame]
    exact ⟨hstaged, hrec⟩

theorem Tracked.step (h : Tracked hashAppid es (run hashAppid {} es)) (e : Event Ac) :
    Tracked hashAppid (es ++ [e]) (V2.step hashAppid (run hashAppid {} es) e).1 := by
  generalize hst' : (V2.step hashAppid (run hashAppid {} es) e).1 = st'
  generalize hrc : (V2.step hashAppid (run hashAppid {} es) e).2 = rc
  have heffect : Effect hashAppid (run hashAppid {} es) e st' rc := by
    rw [← hst', ← hrc]
    exact step_effect _ e
  cases heffect with
  | refused _ _ _ hother => exact h.frame hother
  | lapsed _ _ _ _ => exact Tracked.of_free rfl rfl
  | discarded _ _ _ _ _ => exact Tracked.of_free rfl rfl
  | committed _ _ _ _ _ _ _ => exact Tracked.of_free rfl rfl
  | began env portid hportid _ =>
    -- a new session, without attempts
    refine ⟨fun hzero => absurd hzero hportid, fun _ => ⟨⟨es, env, [], rfl, hrc, by simp⟩, ?_, ?_⟩⟩
    · rfl
    · intro a ha
      cases ha
  | added env portid rule hlive =>
    obtain ⟨hne, howner, -⟩ := hlive
    subst howner
    obtain ⟨s, hstaged, hrec⟩ := h.owned hne
    have hnot : ∀ env', Event.op env (run hashAppid {} es).stagingOwnerPortid (.add rule)
        ≠ .op env' (run hashAppid {} es).stagingOwnerPortid .begin := by
      intro env' heq
      cases heq
    have hattempt : (s.extend _ hnot).attempts = s.attempts ++ [⟨rule,
        (ruleAddLocked hashAppid env.alloc rule (stagedSet hashAppid s.attempts : RuleSet Ac)).2⟩] := by
      rw [s.attempts_extend, ← hstaged, ← hrc]
      simp [attemptOf, V2.step, perform]
    refine ⟨fun hzero => absurd hzero hne, fun _ => ⟨s.extend _ hnot, ?_, ?_⟩⟩
    · show (ruleAddLocked hashAppid env.alloc rule (run hashAppid {} es).staging).1
        = stagedSet hashAppid (s.extend _ hnot).attempts
      rw [hattempt, hstaged]
      exact ruleAddLocked_stagedSet _ _ _
    · show ∀ a ∈ (s.extend _ hnot).attempts, a.Recorded
      rw [hattempt]
      intro a ha
      rcases mem_append.mp ha with ha | ha
      · exact hrec a ha
      · rw [mem_singleton.mp ha]
        exact ruleAddLocked_recorded _ _ _

theorem tracked (es : List (Event Ac)) : Tracked hashAppid es (run hashAppid {} es) := by
  induction es using List.reverseRecOn with
  | nil => exact Tracked.of_free rfl rfl
  | append_singleton es e ih =>
    rw [run_append]
    exact ih.step e

/-! ### The commit -/

/-- The set that a successful commit at the end of a session makes active: it has the committed
    version, and its buckets hold the accepted rules; while the 32-bit counters have not wrapped,
    that is every rule the port tried to add. -/
structure Committed {es : List (Event Ac)} {portid : ℕ} (env : Env Ac)
    (s : Session hashAppid es portid) (version : ℕ) (set : RuleSet Ac) : Prop where
  version : set.version = version
  buckets : set.buckets = bucketsOf hashAppid (accepted s.attempts)
  count : set.count = (accepted s.attempts).length % 4294967296
  automaton : buildAc env { buckets := bucketsOf hashAppid (accepted s.attempts) } = .ok set.ac
  every : s.attempts.length < 4294967296 → (∀ a ∈ s.attempts, a.rc = none) ∧
      s.attempts.map Attempt.rule = (accepted s.attempts).map some

variable {as : List Attempt}

/-- A set without a counted rejection had none, as long as the counters have not wrapped. -/
theorem rc_eq_none_of_sound (hrec : ∀ a ∈ as, a.Recorded)
    (hsound : commitRejects (stagedSet hashAppid as : RuleSet Ac) = none)
    (hlen : as.length < 4294967296) : ∀ a ∈ as, a.rc = none := by
  unfold commitRejects at hsound
  dsimp only at hsound
  split at hsound
  · cases hsound
  next hzero =>
  have hcount : ∀ e : Errno, (as.countP fun a => a.rc = some e) % 4294967296 = 0 →
      ∀ a ∈ as, a.rc ≠ some e := by
    intro e hmod a ha hrc
    have hle : (as.countP fun a => a.rc = some e) ≤ as.length := countP_le_length
    have hpos : 0 < as.countP fun a => a.rc = some e := countP_pos_iff.mpr ⟨a, ha, by simp [hrc]⟩
    omega
  simp only [stagedSet, not_or, not_not, ne_eq] at hzero
  intro a ha
  rcases hrec a ha with ⟨hok, -⟩ | hinval | hnomem
  · exact hok
  · exact absurd hinval (hcount _ hzero.1 a ha)
  · exact absurd hnomem (hcount _ hzero.2.1 a ha)

theorem map_rule_eq (hrec : ∀ a ∈ as, a.Recorded)
    (hok : ∀ a ∈ as, a.rc = none) : as.map Attempt.rule = (accepted as).map some := by
  induction as with
  | nil => rfl
  | cons a as ih =>
    have ha : a.rc = none := hok a mem_cons_self
    have hrule : a.rule ≠ none := by
      rcases hrec a mem_cons_self with ⟨-, h⟩ | h | h
      · exact h
      · rw [ha] at h
        cases h
      · rw [ha] at h
        cases h
    obtain ⟨r, hr⟩ := ne_none_iff_exists'.mp hrule
    have hacc : accepted (a :: as) = r :: accepted as := by simp [accepted, ha, hr]
    rw [hacc, map_cons, map_cons, hr, ih (fun b hb => hrec b (mem_cons_of_mem _ hb))
        (fun b hb => hok b (mem_cons_of_mem _ hb))]

theorem commit_activates (es : List (Event Ac)) (env : Env Ac) (portid version : ℕ)
    (hok : (step hashAppid (run hashAppid {} es) (.op env portid (.commit version))).2 = none) :
    ∃ s : Session hashAppid es portid, Committed env s version
      (step hashAppid (run hashAppid {} es) (.op env portid (.commit version))).1.active := by
  have heffect := @step_effect _ hashAppid (run hashAppid {} es)
    (.op env portid (.commit version))
  rw [hok] at heffect
  generalize (step hashAppid (run hashAppid {} es) (.op env portid (.commit version))).1 = st'
    at heffect ⊢
  cases heffect with
  | refused _ _ hrc _ => exact absurd rfl (hrc (some_ne_none portid))
  | lapsed _ _ hrc _ => exact absurd rfl (hrc (some_ne_none portid))
  | committed _ _ _ ac hlive hsound hac =>
    obtain ⟨hne, howner, -⟩ := hlive
    subst howner
    obtain ⟨s, hstaged, hrec⟩ := (tracked es).owned hne
    refine ⟨s, ⟨rfl, ?_, ?_, ?_, fun hlen => ?_⟩⟩
    · exact congrArg RuleSet.buckets hstaged
    · exact congrArg RuleSet.count hstaged
    · rw [hstaged] at hac
      exact hac
    · rw [hstaged] at hsound
      have hall := rc_eq_none_of_sound hrec hsound hlen
      exact ⟨hall, map_rule_eq hrec hall⟩

/-! ### The whole statement -/

/-- What the transaction guarantees behind the events `es`. -/
structure TransactionSafe (hashAppid : ℕ → Fin 256) (es : List (Event Ac)) : Prop where
  /-- A successful commit activates the rules its sender added since its last FLUSH. -/
  committed : ∀ env portid version,
    (step hashAppid (run hashAppid {} es) (.op env portid (.commit version))).2 = none →
    ∃ s : Session hashAppid es portid, Committed env s version
      (step hashAppid (run hashAppid {} es) (.op env portid (.commit version))).1.active
  /-- Nothing else changes the active set. -/
  unchanged : ∀ e, (∀ env portid version, e = .op env portid (.commit version) →
      (step hashAppid (run hashAppid {} es) e).2 ≠ none) →
    (step hashAppid (run hashAppid {} es) e).1.active = (run hashAppid {} es).active
  /-- A failed commit of the owner empties the staged set. -/
  discarded : ∀ env version, (step hashAppid (run hashAppid {} es)
      (.op env (run hashAppid {} es).stagingOwnerPortid (.commit version))).2 ≠ none →
    (step hashAppid (run hashAppid {} es)
      (.op env (run hashAppid {} es).stagingOwnerPortid (.commit version))).1.staging = {}
  /-- An event of another sender leaves a staged set alone whose deadline has not passed. -/
  foreign : ∀ e, (run hashAppid {} es).stagingOwnerPortid ≠ 0 →
    ¬ Expired e.now (run hashAppid {} es) →
    e.portid ≠ some (run hashAppid {} es).stagingOwnerPortid →
    (step hashAppid (run hashAppid {} es) e).1 = run hashAppid {} es

theorem step_active (st : KState Ac) (e : Event Ac)
    (h : ∀ env portid version, e = .op env portid (.commit version) →
      (step hashAppid st e).2 ≠ none) : (step hashAppid st e).1.active = st.active := by
  have heffect := @step_effect _ hashAppid st e
  generalize (step hashAppid st e).1 = st' at heffect
  generalize (step hashAppid st e).2 = rc at heffect h
  cases heffect with
  | refused => rfl
  | lapsed => rfl
  | began => rfl
  | added => rfl
  | discarded => rfl
  | committed env portid version => exact absurd rfl (h env portid version rfl)

theorem step_discarded (htracked : Tracked hashAppid es st) (env : Env Ac) (version : ℕ)
    (hrc : (step hashAppid st (.op env st.stagingOwnerPortid (.commit version))).2 ≠ none) :
    (step hashAppid st (.op env st.stagingOwnerPortid (.commit version))).1.staging = {} := by
  have heffect := @step_effect _ hashAppid st
    (.op env st.stagingOwnerPortid (.commit version))
  generalize (step hashAppid st (.op env st.stagingOwnerPortid (.commit version))).1 = st'
    at heffect
  generalize (step hashAppid st (.op env st.stagingOwnerPortid (.commit version))).2 = rc
    at heffect hrc
  cases heffect with
  | refused _ _ _ hother =>
    -- the owner is refused only when there is none
    rcases hother _ rfl with hzero | hne
    · exact htracked.free hzero
    · exact absurd rfl hne
  | lapsed => rfl
  | discarded => rfl
  | committed => exact absurd rfl hrc

theorem step_foreign (howner : st.stagingOwnerPortid ≠ 0)
    (hfresh : ¬ Expired e.now st) (hother : e.portid ≠ some st.stagingOwnerPortid) :
    (step hashAppid st e).1 = st := by
  have heffect := @step_effect _ hashAppid st e
  generalize (step hashAppid st e).1 = st' at heffect ⊢
  generalize (step hashAppid st e).2 = rc at heffect
  cases heffect with
  | refused => rfl
  | lapsed _ _ _ hexp => exact absurd hexp hfresh
  | began env portid _ hfree =>
    rcases hfree with hexp | hzero | heq
    · exact absurd hexp hfresh
    · exact absurd hzero howner
    · exact absurd (congrArg some heq.symm) hother
  | added env portid rule hlive => exact absurd (congrArg some hlive.owner.symm) hother
  | discarded env portid version _ hlive => exact absurd (congrArg some hlive.owner.symm) hother
  | committed env portid version _ hlive => exact absurd (congrArg some hlive.owner.symm) hother

theorem transactionSafe (es : List (Event Ac)) : TransactionSafe hashAppid es where
  committed := commit_activates es
  unchanged := step_active _
  discarded := step_discarded (tracked es)
  foreign := fun _ => step_foreign

/-- The surroundings of a section early in the life of a transaction. -/
def calm : Env Unit := { now := 0, renew := 0, acBuild := fun _ => .ok () }

/-- A metadata rule of the application 1. -/
def plainRule (ruleId : ℕ) : Rule where
  appid := 1
  ruleId := ruleId
  priority := 0
  method := JMX_V2_MATCH_NO_FIXED
  proto := 0
  dir := 0
  portCount := 0
  lenCount := 0
  pktSeq := 0
  offset := 0
  matchLen := 0
  matchStr := []
  ports := []
  lenRange := []

/-- Port 7 adds two rules. -/
def twoRules : @Session Unit (fun _ => 0)
    [.op calm 7 .begin, .op calm 7 (.add (some (plainRule 1))),
      .op calm 7 (.add (some (plainRule 2)))] 7 where
  before := []
  env := calm
  since := [.op calm 7 (.add (some (plainRule 1))), .op calm 7 (.add (some (plainRule 2)))]
  split := rfl
  opened := rfl
  last := by simp

/-- Port 7 sends a FLUSH, a RULE_ADD that is cut off, and a VERSION. -/
def cutOffAdd : List (Choice Unit) :=
  [.arrive ⟨toLE 4 JMX_NL_ACT_RULE_FLUSH, 7, 1⟩, .advance 0 calm,
    .arrive ⟨toLE 4 JMX_NL_ACT_RULE_ADD ++ List.replicate 333 0, 7, 2⟩, .advance 1 calm,
    .arrive ⟨toLE 4 JMX_NL_ACT_RULE_VERSION ++ toLE 4 5, 7, 3⟩, .advance 2 calm, .advance 2 calm]

/-- Port 7 adds `n` rules that are refused. -/
def refusals (n : ℕ) : List (Event Unit) :=
  .op calm 7 .begin :: List.replicate n (.op calm 7 (.add none))

/-- The counter of refused rules wraps. -/
theorem run_refusals (n : ℕ) : run hashAppid {} (refusals n) =
      { staging := { attempted := n % 4294967296, rejectedInvalid := n % 4294967296 }
        stagingOwnerPortid := 7
        stagingDeadline := 3000 } := by
  induction n with
  | zero => rfl
  | succ n ih =>
    have hsplit : refusals (n + 1) = refusals n ++ [.op calm 7 (.add none)] := by
      rw [refusals, replicate_succ']
      rfl
    rw [hsplit, run_append, ih, ← inc32_mod]
    rfl

end DreamingOS.V2
