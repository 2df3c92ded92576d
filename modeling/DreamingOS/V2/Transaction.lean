import DreamingOS.V2.Handler

namespace DreamingOS.V2

/-!
# v2 rules — the staging transaction over runs

What one section can do to the rule sets, and what follows for every run.

* `Effect`, `step_effect` — **the step lemma**: what an event does, and what it returns;
* `Attempt`, `attempts` — the rules a port tried to add, with what came of each;
* `Session` — the events since the last FLUSH of the owner; `tracked` — the staged set is always
  the one its attempts make.
-/

/-! ### One step -/

variable {Ac : Type} {hashAppid : ℕ → Fin 256} {st : KState Ac}

def Event.portid : Event Ac → Option ℕ
  | .op _ portid _ => some portid
  | .tick _ => none

/-- The reading of `jiffies` by the expiry test. -/
def Event.now : Event Ac → BitVec 64
  | .op env _ _ => env.now
  | .tick now => now

/-- The port owns the staged set, and its deadline has not passed. -/
structure Live (now : BitVec 64) (portid : ℕ) (st : KState Ac) : Prop where
  sender : portid ≠ 0
  owner : st.stagingOwnerPortid = portid
  fresh : ¬ Expired now st

/-- The state a FLUSH leaves. -/
def flushed (env : Env Ac) (portid : ℕ) (st : KState Ac) : KState Ac :=
  { st with
    staging := {}
    stagingOwnerPortid := portid
    stagingDeadline := env.renew + txTimeout env.hz }

/-- The state a successful commit leaves. -/
def activated (version : ℕ) (ac : Option Ac) (st : KState Ac) : KState Ac where
  active := { st.staging with ac := ac, version := version }
  staging := {}
  stagingOwnerPortid := 0
  stagingDeadline := 0

/-- What an event can do to a state, with what it returns. -/
inductive Effect (hashAppid : ℕ → Fin 256) (st : KState Ac) :
    Event Ac → KState Ac → Option Errno → Prop
  | refused (e : Event Ac) (rc : Option Errno) (hrc : e.portid ≠ none → rc ≠ none)
      (hother : ∀ portid, e.portid = some portid → portid = 0 ∨ st.stagingOwnerPortid ≠ portid) :
      Effect hashAppid st e st rc
  | lapsed (e : Event Ac) (rc : Option Errno) (hrc : e.portid ≠ none → rc ≠ none)
      (hexp : Expired e.now st) : Effect hashAppid st e (txResetLocked true st) rc
  | began (env : Env Ac) (portid : ℕ) (hportid : portid ≠ 0)
      (hfree : Expired env.now st ∨ st.stagingOwnerPortid = 0 ∨ st.stagingOwnerPortid = portid) :
      Effect hashAppid st (.op env portid .begin) (flushed env portid st) none
  | added (env : Env Ac) (portid : ℕ) (rule : Option Rule) (hlive : Live env.now portid st) :
      Effect hashAppid st (.op env portid (.add rule))
        (txRefreshLocked env
          { st with staging := (ruleAddLocked hashAppid env.alloc rule st.staging).1 })
        (ruleAddLocked hashAppid env.alloc rule st.staging).2
  | discarded (env : Env Ac) (portid version : ℕ) (e : Errno) (hlive : Live env.now portid st) :
      Effect hashAppid st (.op env portid (.commit version)) (txResetLocked true st) (some e)
  | committed (env : Env Ac) (portid version : ℕ) (ac : Option Ac)
      (hlive : Live env.now portid st) (hsound : commitRejects st.staging = none)
      (hac : buildAc env st.staging = .ok ac) :
      Effect hashAppid st (.op env portid (.commit version)) (activated version ac st) none

/-- The owner check: it refuses, or it loses an expired set, or the port owns a live one. -/
theorem txCheckOwnerLocked_cases (now : BitVec 64) (portid : ℕ) (st : KState Ac) :
    (∃ e, txCheckOwnerLocked now portid st = (st, some e) ∧
        (portid = 0 ∨ st.stagingOwnerPortid ≠ portid)) ∨
      (txCheckOwnerLocked now portid st = (txResetLocked true st, some .ETIMEDOUT) ∧
        Expired now st) ∨
      (txCheckOwnerLocked now portid st = (st, none) ∧ Live now portid st) := by
  unfold txCheckOwnerLocked
  by_cases hzero : portid = 0
  · rw [if_pos hzero]
    exact .inl ⟨_, rfl, .inl hzero⟩
  rw [if_neg hzero, txExpireLocked]
  by_cases hexp : Expired now st
  · rw [if_pos hexp]
    exact .inr (.inl ⟨rfl, hexp⟩)
  rw [if_neg hexp]
  dsimp only
  by_cases hnone : st.stagingOwnerPortid = 0
  · rw [if_pos hnone]
    exact .inl ⟨_, rfl, .inr fun h => hzero (h ▸ hnone)⟩
  rw [if_neg hnone]
  by_cases howner : st.stagingOwnerPortid = portid
  · rw [if_neg (not_not.mpr howner)]
    exact .inr (.inr ⟨rfl, hzero, howner, hexp⟩)
  · rw [if_pos howner]
    exact .inl ⟨_, rfl, .inr howner⟩

theorem rulesBegin_effect (env : Env Ac) (portid : ℕ) (st : KState Ac) :
    Effect hashAppid st (.op env portid .begin) (rulesBegin env portid st).1
      (rulesBegin env portid st).2 := by
  unfold rulesBegin
  by_cases hzero : portid = 0
  · rw [if_pos hzero]
    refine Effect.refused _ _ (fun _ => by simp) ?_
    rintro _ ⟨⟩
    exact .inl hzero
  rw [if_neg hzero, txExpireLocked]
  by_cases hexp : Expired env.now st
  · rw [if_pos hexp]
    dsimp only
    -- the expired owner is gone, so nobody is in the way
    rw [if_neg (by simp [txResetLocked])]
    exact Effect.began env portid hzero (.inl hexp)
  rw [if_neg hexp]
  dsimp only
  by_cases hbusy : st.stagingOwnerPortid ≠ 0 ∧ st.stagingOwnerPortid ≠ portid
  · rw [if_pos hbusy]
    refine Effect.refused _ _ (fun _ => by simp) ?_
    rintro _ ⟨⟩
    exact .inr hbusy.2
  · rw [if_neg hbusy]
    refine Effect.began env portid hzero (.inr ?_)
    by_cases hnone : st.stagingOwnerPortid = 0
    · exact .inl hnone
    · exact .inr (not_not.mp fun h => hbusy ⟨hnone, h⟩)

theorem ruleAdd_effect (env : Env Ac) (portid : ℕ) (rule : Option Rule) (st : KState Ac) :
    Effect hashAppid st (.op env portid (.add rule)) (ruleAdd hashAppid env portid rule st).1
      (ruleAdd hashAppid env portid rule st).2 := by
  unfold ruleAdd
  rcases txCheckOwnerLocked_cases env.now portid st with
    ⟨e, heq, hother⟩ | ⟨heq, hexp⟩ | ⟨heq, hlive⟩ <;> rw [heq]
  · refine Effect.refused _ _ (fun _ => by simp) ?_
    rintro _ ⟨⟩
    exact hother
  · exact Effect.lapsed _ _ (fun _ => by simp) hexp
  · exact Effect.added env portid rule hlive

theorem rulesCommit_effect (env : Env Ac) (portid version : ℕ) (st : KState Ac) :
    Effect hashAppid st (.op env portid (.commit version)) (rulesCommit env portid version st).1
      (rulesCommit env portid version st).2 := by
  unfold rulesCommit
  rcases txCheckOwnerLocked_cases env.now portid st with
    ⟨e, heq, hother⟩ | ⟨heq, hexp⟩ | ⟨heq, hlive⟩ <;> rw [heq] <;> dsimp only
  · refine Effect.refused _ _ (fun _ => by simp) ?_
    rintro _ ⟨⟩
    exact hother
  · exact Effect.lapsed _ _ (fun _ => by simp) hexp
  · cases hrej : commitRejects st.staging with
    | some e => exact Effect.discarded env portid version e hlive
    | none =>
      cases hac : buildAc env st.staging with
      | error e => exact Effect.discarded env portid version e hlive
      | ok ac => exact Effect.committed env portid version ac hlive hrej hac

/-- **The step lemma.** -/
theorem step_effect (st : KState Ac) (e : Event Ac) :
    Effect hashAppid st e (step hashAppid st e).1 (step hashAppid st e).2 := by
  cases e with
  | tick now =>
    show Effect hashAppid st (.tick now) (txExpireLocked now st).1 none
    unfold txExpireLocked
    by_cases hexp : Expired now st
    · rw [if_pos hexp]
      exact Effect.lapsed _ _ (fun h => absurd rfl h) hexp
    · rw [if_neg hexp]
      exact Effect.refused _ _ (fun h => absurd rfl h) (fun _ h => by cases h)
  | op env portid op =>
    cases op with
    | begin => exact rulesBegin_effect env portid st
    | add rule => exact ruleAdd_effect env portid rule st
    | commit version => exact rulesCommit_effect env portid version st

/-! ### Attempts -/

/-- A rule a port tried to add, and what that returned. -/
structure Attempt where
  rule : Option Rule
  rc : Option Errno

section
variable (hashAppid)

/-- The attempt of `portid` that an event is. -/
def attemptOf (portid : ℕ) (st : KState Ac) : Event Ac → Option Attempt
  | .op env sender (.add rule) =>
    if sender = portid then some ⟨rule, (ruleAdd hashAppid env sender rule st).2⟩ else none
  | _ => none

/-- The attempts of `portid` among the events. -/
def attempts (portid : ℕ) : KState Ac → List (Event Ac) → List Attempt
  | _, [] => []
  | st, e :: es =>
    (attemptOf hashAppid portid st e).toList ++ attempts portid (step hashAppid st e).1 es

/-- The nodes of the rules, each bucket with the last one first. -/
def bucketsOf (rules : List Rule) : Fin 256 → List Rule := fun b =>
  ((rules.filter fun r => hashAppid r.appid = b).map Rule.node).reverse

/-- The rules that were accepted. -/
def accepted (as : List Attempt) : List Rule :=
  as.filterMap fun a => if a.rc = none then a.rule else none

/-- The staged set the attempts make. -/
def stagedSet (as : List Attempt) : RuleSet Ac where
  buckets := bucketsOf hashAppid (accepted as)
  count := (accepted as).length % 4294967296
  attempted := as.length % 4294967296
  rejectedInvalid := (as.countP fun a => a.rc = some .EINVAL) % 4294967296
  rejectedNomem := (as.countP fun a => a.rc = some .ENOMEM) % 4294967296

end

theorem attempts_concat (portid : ℕ) (st : KState Ac) (es : List (Event Ac)) (e : Event Ac) :
    attempts hashAppid portid st (es ++ [e])
      = attempts hashAppid portid st es
        ++ (attemptOf hashAppid portid (run hashAppid st es) e).toList := by
  induction es generalizing st with
  | nil => simp [attempts]
  | cons e' es ih => simp [attempts, ih]

theorem attemptOf_foreign {portid : ℕ} {e : Event Ac} (h : e.portid ≠ some portid) :
    attemptOf hashAppid portid st e = none := by
  cases e with
  | tick now => rfl
  | op env sender op =>
    cases op with
    | begin => rfl
    | commit version => rfl
    | add rule => exact if_neg fun heq => h (congrArg some heq)

theorem inc32_mod (n : ℕ) : inc32 (n % 4294967296) = (n + 1) % 4294967296 := by
  rw [inc32, Nat.mod_add_mod]

theorem accepted_concat (as : List Attempt) (a : Attempt) :
    accepted (as ++ [a]) = accepted as ++ if a.rc = none then a.rule.toList else [] := by
  unfold accepted
  rw [List.filterMap_append]
  by_cases h : a.rc = none
  · cases hrule : a.rule <;> simp [h, hrule]
  · simp [h]

theorem bucketsOf_concat (rules : List Rule) (r : Rule) : bucketsOf hashAppid (rules ++ [r])
      = Function.update (bucketsOf hashAppid rules) (hashAppid r.appid)
          (r.node :: bucketsOf hashAppid rules (hashAppid r.appid)) := by
  ext1 b
  by_cases hb : b = hashAppid r.appid
  · subst hb
    simp [bucketsOf, List.filter_append]
  · rw [Function.update_of_ne hb]
    simp [bucketsOf, List.filter_append, Ne.symm hb]

/-- A section that adds a rule extends the staged set by that attempt. -/
theorem ruleAddLocked_stagedSet (alloc : Bool) (rule : Option Rule) (as : List Attempt) :
    (ruleAddLocked hashAppid alloc rule (stagedSet hashAppid as : RuleSet Ac)).1
      = stagedSet hashAppid (as ++ [⟨rule, (ruleAddLocked hashAppid alloc rule
          (stagedSet hashAppid as : RuleSet Ac)).2⟩]) := by
  unfold ruleAddLocked
  cases rule with
  | none => simp [stagedSet, accepted_concat, inc32_mod]
  | some r =>
    dsimp only
    split
    · simp [stagedSet, accepted_concat, inc32_mod]
    split
    · simp [stagedSet, accepted_concat, inc32_mod]
    have hacc : accepted (as ++ [⟨some r, none⟩]) = accepted as ++ [r] := by
      rw [accepted_concat]
      rfl
    simp [stagedSet, hacc, RuleSet.insert, inc32_mod, bucketsOf_concat, Rule.node]

/-- What an attempt returns in a transaction: it is accepted, or counted as rejected. -/
def Attempt.Recorded (a : Attempt) : Prop :=
  (a.rc = none ∧ a.rule ≠ none) ∨ a.rc = some .EINVAL ∨ a.rc = some .ENOMEM

theorem ruleAddLocked_recorded (alloc : Bool) (rule : Option Rule) (s : RuleSet Ac) :
    Attempt.Recorded ⟨rule, (ruleAddLocked hashAppid alloc rule s).2⟩ := by
  unfold ruleAddLocked
  cases rule with
  | none => exact .inr (.inl rfl)
  | some r =>
    dsimp only
    split
    · exact .inr (.inl rfl)
    split
    · exact .inr (.inr rfl)
    · exact .inl ⟨rfl, Option.some_ne_none r⟩

end DreamingOS.V2
