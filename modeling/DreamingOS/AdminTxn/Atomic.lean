import DreamingOS.AdminTxn.Execute

namespace DreamingOS.AdminTxn

open List Option

/-!
# The admin transaction runner — all or nothing

* `WellFormed`, `validate_ok` — the lists that are accepted;
* `rollback_cases`, `applyLoop_spec` — what the loops call and what they leave;
* `Lawful` — what is asked of the callbacks;
* `execute_atomic` — the runner is all or nothing around one irreversible step.
-/

variable {σ η τ : Type} {step : Step σ η} {l : List (Step σ η)} {checked : List (Checked σ η)}
  {count i : ℕ} {s : σ} {r : Run σ η}

/-! ### Validation -/

/-- A step that has what it needs. -/
structure StepOk (count i : ℕ) (step : Step σ η) : Prop where
  name : nameOk (step.name.getD []) = true
  flags : step.flags &&& ~~~IRREVERSIBLE = 0
  apply : step.apply.isSome
  final : step.irreversible = true → i + 1 = count ∧ step.snapshot = none ∧ step.restore = none
  undo : step.irreversible = false →
    step.snapshot.isSome ∧ step.restore.isSome ∧ step.snapshotFree = true

/-- A list of one to eight steps; at most one of them is irreversible, and it is the last one. -/
structure WellFormed (steps : List (Step σ η)) : Prop where
  length : 0 < steps.length ∧ steps.length ≤ MAX_STEPS
  step : ∀ i step, steps[i]? = some step → StepOk steps.length i step

/-- What is left of a step that has been validated. -/
def Step.validated (step : Step σ η) : Checked σ η where
  name := step.name.getD []
  preflight := step.preflight
  apply := step.apply.getD fun s => (⟨0, []⟩, s)
  undo := if step.irreversible then none else
    step.snapshot.bind fun snapshot => step.restore.map fun restore => ⟨snapshot, restore⟩

theorem validateStep_ok {c : Checked σ η} :
    validateStep count 0 i step = .ok c ↔ StepOk count i step ∧ c = step.validated := by
  unfold validateStep Step.validated
  cases happly : step.apply with
  | none =>
    constructor
    · nofun
    · rintro ⟨h, -⟩
      have hsome := h.apply
      rw [happly] at hsome
      cases hsome
  | some apply =>
    dsimp only
    by_cases hplain : nameOk (step.name.getD []) = true ∧ step.flags &&& ~~~IRREVERSIBLE = 0
    · rw [if_neg (by simp [hplain.1, hplain.2])]
      cases hirr : step.irreversible with
      | true =>
        rw [if_pos rfl]
        by_cases hlast : i + 1 = count ∧ step.snapshot = none ∧ step.restore = none
        · rw [if_neg (by simp [hlast.1, hlast.2.1, hlast.2.2])]
          constructor
          · intro h
            obtain rfl := Except.ok.inj h
            have hok : StepOk count i step :=
              { name := hplain.1, flags := hplain.2, apply := happly ▸ rfl
                final := fun _ => hlast, undo := fun hno => absurd (hirr.symm.trans hno) nofun }
            exact ⟨hok, rfl⟩
          · rintro ⟨-, rfl⟩
            rfl
        · rw [if_pos]
          · constructor
            · nofun
            · rintro ⟨h, -⟩
              exact absurd (h.final hirr) hlast
          · simp only [not_and_or, ← ne_eq, ne_none_iff_isSome] at hlast
            obtain hlast | hlast | hlast := hlast
            · exact .inl hlast
            · exact .inr (.inr (.inl hlast))
            · exact .inr (.inr (.inr hlast))
      | false =>
        rw [if_neg Bool.false_ne_true]
        constructor
        · intro h
          split at h
          · next snapshot restore hsnapshot hrestore hfree =>
            obtain rfl := Except.ok.inj h
            have hundo : step.snapshot.isSome ∧ step.restore.isSome ∧ step.snapshotFree = true := by
              rw [hsnapshot, hrestore]
              exact ⟨rfl, rfl, hfree⟩
            have hok : StepOk count i step :=
              { name := hplain.1, flags := hplain.2, apply := happly ▸ rfl
                final := fun hno => absurd (hirr.symm.trans hno) nofun, undo := fun _ => hundo }
            refine ⟨hok, ?_⟩
            rw [hsnapshot, hrestore]
            rfl
          · cases h
        · rintro ⟨h, rfl⟩
          obtain ⟨hsnapshot, hrestore, hfree⟩ := h.undo hirr
          obtain ⟨snapshot, hsnapshot⟩ := isSome_iff_exists.mp hsnapshot
          obtain ⟨restore, hrestore⟩ := isSome_iff_exists.mp hrestore
          rw [hsnapshot, hrestore, hfree]
          rfl
    · rw [if_pos (by simpa [imp_iff_not_or] using hplain)]
      constructor
      · nofun
      · rintro ⟨h, -⟩
        exact absurd ⟨h.name, h.flags⟩ hplain

theorem validateLoop_ok {steps : List (Step σ η)} (hcount : i + steps.length = count) :
    validateLoop count i 0 steps = .ok checked ↔
      (∀ k step, steps[k]? = some step → StepOk count (i + k) step) ∧
        checked = steps.map Step.validated := by
  induction steps generalizing i checked with
  | nil =>
    unfold validateLoop
    constructor
    · intro h
      exact ⟨nofun, (Except.ok.inj h).symm⟩
    · rintro ⟨-, rfl⟩
      rfl
  | cons step steps ih =>
    rw [length_cons] at hcount
    unfold validateLoop
    constructor
    · intro h
      split at h
      · cases h
      rename_i c hc
      obtain ⟨hok, rfl⟩ := validateStep_ok.mp hc
      have htail : ∃ cs, validateLoop count (i + 1) 0 steps = .ok cs ∧
          checked = step.validated :: cs := by
        cases hirr : step.irreversible with
        | true =>
          -- behind an irreversible step there is nothing
          have hend : steps = [] := by
            have hlast := (hok.final hirr).1
            exact eq_nil_of_length_eq_zero (by omega)
          rw [hend] at h ⊢
          exact ⟨[], rfl, (Except.ok.inj h).symm⟩
        | false =>
          rw [hirr] at h
          cases hrest : validateLoop count (i + 1) 0 steps with
          | error e =>
            rw [Bool.toNat_false, Nat.add_zero, hrest] at h
            cases h
          | ok cs =>
            rw [Bool.toNat_false, Nat.add_zero, hrest] at h
            exact ⟨cs, rfl, (Except.ok.inj h).symm⟩
      obtain ⟨cs, hcs, rfl⟩ := htail
      obtain ⟨hall, rfl⟩ := (ih (by omega)).mp hcs
      refine ⟨fun k step' hk => ?_, rfl⟩
      cases k with
      | zero =>
        obtain rfl := some.inj hk
        exact hok
      | succ k =>
        rw [← Nat.add_assoc, Nat.add_right_comm]
        exact hall k step' hk
    · rintro ⟨hall, rfl⟩
      have hok : StepOk count i step := hall 0 step rfl
      rw [validateStep_ok.mpr ⟨hok, rfl⟩]
      dsimp only
      have hlater : ∀ k step, steps[k]? = some step → StepOk count (i + 1 + k) step := by
        intro k step' hk
        rw [Nat.add_right_comm]
        exact hall (k + 1) step' hk
      have htail := (@ih (steps.map Step.validated) (i + 1) (by omega)).mpr ⟨hlater, rfl⟩
      cases hirr : step.irreversible with
      | true =>
        have hend : steps = [] := by
          have hlast := (hok.final hirr).1
          exact eq_nil_of_length_eq_zero (by omega)
        rw [hend]
        rfl
      | false =>
        rw [Bool.toNat_false, Nat.add_zero, htail]
        rfl

variable {found : ℕ}

theorem validateStep_error {e : Status × Text}
    (h : validateStep count found i step = .error e) : e.1 ≠ .ok := by
  unfold validateStep at h
  repeat' split at h
  all_goals first | (cases h; done) | (obtain rfl := Except.error.inj h; nofun)

theorem validateLoop_error {steps : List (Step σ η)} {e : ℕ × Text × Status × Text}
    (h : validateLoop count i found steps = .error e) : e.2.2.1 ≠ .ok := by
  induction steps generalizing i found with
  | nil => cases h
  | cons step steps ih =>
    unfold validateLoop at h
    split at h
    · next heq =>
      obtain rfl := Except.error.inj h
      exact validateStep_error heq
    cases hrest : validateLoop count (i + 1) (found + step.irreversible.toNat) steps with
    | error e' =>
      rw [hrest] at h
      obtain rfl := Except.error.inj h
      exact ih hrest
    | ok cs =>
      rw [hrest] at h
      cases h

/-- **The lists that are accepted.** -/
theorem validate_ok {steps : Option (List (Step σ η))} : validate steps = .ok checked ↔
      ∃ l, steps = some l ∧ WellFormed l ∧ checked = l.map Step.validated := by
  unfold validate
  cases steps with
  | none =>
    constructor
    · nofun
    · rintro ⟨l, hl, -⟩
      cases hl
  | some l =>
    dsimp only
    by_cases hlen : 0 < l.length ∧ l.length ≤ MAX_STEPS
    · rw [if_neg (by omega)]
      have hloop := @validateLoop_ok σ η checked l.length 0 l (Nat.zero_add _)
      simp only [Nat.zero_add] at hloop
      cases hresult : validateLoop l.length 0 0 l with
      | error e =>
        rw [hresult] at hloop
        constructor
        · nofun
        · rintro ⟨l', hl', hwell, rfl⟩
          obtain rfl := some.inj hl'
          cases hloop.mpr ⟨hwell.step, rfl⟩
      | ok cs =>
        rw [hresult] at hloop
        constructor
        · intro h
          obtain rfl := Except.ok.inj h
          obtain ⟨hall, rfl⟩ := hloop.mp rfl
          exact ⟨l, rfl, ⟨hlen, hall⟩, rfl⟩
        · rintro ⟨l', hl', hwell, rfl⟩
          obtain rfl := some.inj hl'
          rw [Except.ok.inj (hloop.mpr ⟨hwell.step, rfl⟩)]
          rfl
    · rw [if_pos (by omega)]
      constructor
      · nofun
      · rintro ⟨l', hl', hwell, -⟩
        obtain rfl := some.inj hl'
        exact absurd hwell.length hlen

/-! ### Calls in order -/

/-- Calls in order, until one fails, and the state behind them. -/
def through {α : Type} (call : α → σ → Bool × σ) : List α → σ → Bool × σ
  | [], s => (true, s)
  | a :: as, s => if (call a s).1 then through call as (call a s).2 else call a s

/-- The preflight of a step, if it has one. -/
def Step.tryPreflight (step : Step σ η) (s : σ) : Bool × σ :=
  match step.preflight with
  | none => (true, s)
  | some preflight => ((preflight s).1.ok, (preflight s).2)

/-- The snapshot of a reversible step; without a handle it has failed. -/
def Step.trySnapshot (step : Step σ η) (s : σ) : Bool × σ :=
  match step.validated.undo with
  | none => (true, s)
  | some undo => ((undo.snapshot s).1.ok && (undo.snapshot s).2.1.isSome, (undo.snapshot s).2.2)

/-- The apply of a step. -/
def Step.tryApply (step : Step σ η) (s : σ) : Bool × σ :=
  ((step.validated.apply s).1.ok, (step.validated.apply s).2)

/-! ### What the calls are -/

def Event.attempted : Event η → Option (ℕ × Bool)
  | .apply i ok => some (i, ok)
  | _ => none

def Event.restored : Event η → Option (ℕ × η)
  | .restore i handle _ => some (i, handle)
  | _ => none

def Event.obtained : Event η → Option (ℕ × η)
  | .snapshot i _ handle => handle.map (i, ·)
  | _ => none

def Event.freed : Event η → Option (ℕ × η)
  | .free i handle => some (i, handle)
  | _ => none

theorem preflightLoop_spec :
    (preflightLoop i (l.map Step.validated) r).1 = (through Step.tryPreflight l r.state).1 ∧
      (preflightLoop i (l.map Step.validated) r).2.state = (through Step.tryPreflight l r.state).2 ∧
      ∃ P, (preflightLoop i (l.map Step.validated) r).2.events = r.events ++ P ∧
        ∀ e ∈ P, ∃ k ok, e = .preflight k ok := by
  induction l generalizing i r with
  | nil => exact ⟨rfl, rfl, [], (append_nil _).symm, nofun⟩
  | cons step l ih =>
    rw [map_cons]
    unfold preflightLoop through Step.tryPreflight
    rw [show step.validated.preflight = step.preflight from rfl]
    cases step.preflight with
    | none => exact ih
    | some preflight =>
      dsimp only
      split
      · next hok =>
        obtain ⟨hvalue, hstate, P, hevents, hP⟩ :=
          @ih (i + 1) ((r.enter .preflight).called (.preflight i (preflight r.state).1.ok)
            (preflight r.state).2)
        refine ⟨hvalue, hstate, _, hevents.trans (append_assoc ..), fun e he => ?_⟩
        obtain he | he := mem_append.mp he
        · exact ⟨i, _, mem_singleton.mp he⟩
        · exact hP e he
      · next hfailed =>
        refine ⟨(by simpa using hfailed : _ = false).symm, rfl, _, rfl, fun e he => ?_⟩
        exact ⟨i, _, mem_singleton.mp he⟩

/-- The step that an armed one has been made of. -/
structure ArmedOf (P : σ → Prop) (handles : List (ℕ × η)) (i : ℕ) (step : Step σ η)
    (a : Armed σ η) : Prop where
  apply : a.apply = step.validated.apply
  undo : ∀ handle restore, a.undo = some (handle, restore) → (i, handle) ∈ handles ∧
    step.restore = some restore ∧ ∃ snapshot s, step.snapshot = some snapshot ∧ P s ∧
      (snapshot s).1.ok = true ∧ (snapshot s).2.1 = some handle
  reversible : a.undo.isSome = !step.irreversible

variable {P : σ → Prop} {handles handles' : List (ℕ × η)} {a : Armed σ η}

theorem ArmedOf.more (h : ArmedOf P handles i step a) (hsub : ∀ x ∈ handles, x ∈ handles') :
    ArmedOf P handles' i step a where
  apply := h.apply
  undo handle restore ha := by
    obtain ⟨hmem, hrest⟩ := h.undo handle restore ha
    exact ⟨hsub _ hmem, hrest⟩
  reversible := h.reversible

/-- What the snapshots of some steps leave. -/
structure Snapshotted (P : σ → Prop) (i : ℕ) (l : List (Step σ η)) (r : Run σ η)
    (out : (Option (List (Armed σ η)) × List (ℕ × η)) × Run σ η) : Prop where
  value : out.1.1.isSome = (through Step.trySnapshot l r.state).1
  state : out.2.state = (through Step.trySnapshot l r.state).2
  kept : P out.2.state
  events : ∃ S, out.2.events = r.events ++ S ∧ S.filterMap Event.obtained = out.1.2 ∧
    ∀ e ∈ S, ∃ k ok handle, e = .snapshot k ok handle
  armed : ∀ armed, out.1.1 = some armed → armed.length = l.length ∧
    ∀ k step a, l[k]? = some step → armed[k]? = some a → ArmedOf P out.1.2 (i + k) step a

/-- What the rest arms is armed behind a first step as well. -/
theorem armedOf_cons {armed : List (Armed σ η)} (hsub : ∀ x ∈ handles, x ∈ handles')
    (ha : ArmedOf P handles' i step a)
    (hrest : ∀ k step a, l[k]? = some step → armed[k]? = some a →
      ArmedOf P handles (i + 1 + k) step a) (k : ℕ) (step' : Step σ η) (b : Armed σ η)
    (hk : (step :: l)[k]? = some step') (hb : (a :: armed)[k]? = some b) :
    ArmedOf P handles' (i + k) step' b := by
  cases k with
  | zero =>
    obtain rfl := some.inj hk
    obtain rfl := some.inj hb
    exact ha
  | succ k =>
    rw [← Nat.add_assoc, Nat.add_right_comm]
    exact (hrest k step' b hk hb).more hsub

/-- **The snapshots**: every step is armed with its own, or one of them has failed. -/
theorem snapshotLoop_spec {P : σ → Prop}
    (hok : ∀ k step, l[k]? = some step → StepOk count (i + k) step)
    (hP : ∀ step ∈ l, ∀ f, step.snapshot = some f → ∀ s, P s → P (f s).2.2) (hr : P r.state) :
    Snapshotted P i l r (snapshotLoop i (l.map Step.validated) r) := by
  induction l generalizing i r with
  | nil =>
    refine ⟨rfl, rfl, hr, ⟨[], (append_nil _).symm, rfl, nofun⟩, fun armed harmed => ?_⟩
    obtain rfl := some.inj harmed
    exact ⟨rfl, nofun⟩
  | cons step l ih =>
    have hlater : ∀ k step, l[k]? = some step → StepOk count (i + 1 + k) step := by
      intro k step' hk
      rw [Nat.add_right_comm]
      exact hok (k + 1) step' hk
    replace ih := fun r hr =>
      @ih (i + 1) r hlater (fun step' h => hP step' (mem_cons_of_mem _ h)) hr
    have hstep : StepOk count i step := hok 0 step rfl
    rw [map_cons]
    unfold snapshotLoop
    cases hirr : step.irreversible with
    | true =>
      have hundo : step.validated.undo = none := by
        unfold Step.validated
        rw [hirr]
        rfl
      have hcall : ∀ s, through Step.trySnapshot (step :: l) s = through Step.trySnapshot l s := by
        intro s
        rw [through]
        unfold Step.trySnapshot
        rw [hundo]
        rfl
      rw [hundo]
      dsimp only
      have hrest := ih r hr
      refine ⟨?_, ?_, hrest.kept, hrest.events, ?_⟩
      · rw [hcall, ← hrest.value, isSome_map]
      · rw [hcall, ← hrest.state]
      · intro armed harmed
        obtain ⟨armed', harmed', rfl⟩ := map_eq_some_iff.mp harmed
        obtain ⟨hlen, hall⟩ := hrest.armed armed' harmed'
        refine ⟨by rw [length_cons, length_cons, hlen], ?_⟩
        refine armedOf_cons (fun _ h => h) ⟨rfl, nofun, ?_⟩ hall
        rw [hirr]
        rfl
    | false =>
      obtain ⟨hsnapshot, hrestore, -⟩ := hstep.undo hirr
      obtain ⟨snapshot, hsnapshot⟩ := isSome_iff_exists.mp hsnapshot
      obtain ⟨restore, hrestore⟩ := isSome_iff_exists.mp hrestore
      have hundo : step.validated.undo = some ⟨snapshot, restore⟩ := by
        unfold Step.validated
        rw [hirr, hsnapshot, hrestore]
        rfl
      have hcall : ∀ s, step.trySnapshot s =
          ((snapshot s).1.ok && (snapshot s).2.1.isSome, (snapshot s).2.2) := by
        intro s
        unfold Step.trySnapshot
        rw [hundo]
      have hkept : P (snapshot r.state).2.2 := hP step mem_cons_self snapshot hsnapshot _ hr
      rw [hundo]
      dsimp only
      cases hanswer : (snapshot r.state).1.ok with
      | false =>
        dsimp only
        have hfailed : through Step.trySnapshot (step :: l) r.state =
            (false, (snapshot r.state).2.2) := by
          rw [through, hcall, hanswer]
          rfl
        refine ⟨?_, ?_, hkept, ⟨_, rfl, ?_, ?_⟩, nofun⟩
        · rw [hfailed]
          rfl
        · rw [hfailed]
          rfl
        · show [Event.snapshot i false (snapshot r.state).2.1].filterMap Event.obtained = _
          cases (snapshot r.state).2.1 <;> rfl
        · exact fun e he => ⟨i, _, _, mem_singleton.mp he⟩
      | true =>
        cases hhandle : (snapshot r.state).2.1 with
        | none =>
          dsimp only
          have hfailed : through Step.trySnapshot (step :: l) r.state =
              (false, (snapshot r.state).2.2) := by
            rw [through, hcall, hanswer, hhandle]
            rfl
          refine ⟨?_, ?_, hkept, ⟨_, rfl, rfl, ?_⟩, nofun⟩
          · rw [hfailed]
            rfl
          · rw [hfailed]
            rfl
          · exact fun e he => ⟨i, _, _, mem_singleton.mp he⟩
        | some handle =>
          dsimp only
          have hcalls : through Step.trySnapshot (step :: l) r.state =
              through Step.trySnapshot l (snapshot r.state).2.2 := by
            rw [through, hcall, hanswer, hhandle]
            rfl
          have hrest := ih ((r.enter .snapshot).called (.snapshot i true (some handle))
            (snapshot r.state).2.2) hkept
          obtain ⟨S, hevents, hobtained, hS⟩ := hrest.events
          refine ⟨?_, ?_, hrest.kept, ⟨_, hevents.trans (append_assoc ..), ?_, ?_⟩, ?_⟩
          · rw [hcalls, isSome_map]
            exact hrest.value
          · rw [hcalls]
            exact hrest.state
          · rw [filterMap_append, hobtained]
            rfl
          · intro e he
            obtain he | he := mem_append.mp he
            · exact ⟨i, _, _, mem_singleton.mp he⟩
            · exact hS e he
          · intro armed harmed
            obtain ⟨armed', harmed', rfl⟩ := map_eq_some_iff.mp harmed
            obtain ⟨hlen, hall⟩ := hrest.armed armed' harmed'
            refine ⟨by rw [length_cons, length_cons, hlen], ?_⟩
            refine armedOf_cons (fun _ h => mem_cons_of_mem _ h) ⟨rfl, ?_, ?_⟩ hall
            · intro handle' restore' ha
              obtain ⟨rfl, rfl⟩ := Prod.mk.inj (some.inj ha)
              exact ⟨mem_cons_self, hrestore, snapshot, r.state, hsnapshot, hr, hanswer, hhandle⟩
            · rw [hirr]
              rfl

/-! ### The rollback -/

/-- A restore puts its part of the state back, or reports a failure; it touches no other part. -/
def Undoes (part : ℕ → σ → τ) (v : ℕ → τ) (i : ℕ) (a : Armed σ η) : Prop :=
  ∀ handle restore, a.undo = some (handle, restore) → ∀ s,
    ((restore handle s).1.ok = true → part i (restore handle s).2 = v i) ∧
      ∀ j, j ≠ i → part j (restore handle s).2 = part j s

/-- What a rollback calls. -/
def restores (steps : List (ℕ × Armed σ η)) : List (ℕ × η) :=
  steps.filterMap fun x => x.2.undo.map fun undo => (x.1, undo.1)

theorem rollbackLoop_calls {steps : List (ℕ × Armed σ η)} {first : Option (ℕ × Text × Text)} :
    ∃ R, (rollbackLoop steps r first).2.events = r.events ++ R ∧
      R.filterMap Event.restored = restores steps ∧
      ∀ e ∈ R, ∃ i handle ok, e = .restore i handle ok := by
  induction steps generalizing r first with
  | nil => exact ⟨[], (append_nil _).symm, rfl, nofun⟩
  | cons x steps ih =>
    obtain ⟨i, a⟩ := x
    unfold rollbackLoop restores
    rw [filterMap_cons]
    cases hundo : a.undo with
    | none => exact ih
    | some undo =>
      obtain ⟨handle, restore⟩ := undo
      dsimp only [map_some]
      -- whatever the restore returns, the next ones are called
      have hnext : ∀ (r' : Run σ η) (first : Option (ℕ × Text × Text)) ok,
          r'.events = r.events ++ [.restore i handle ok] →
          ∃ R, (rollbackLoop steps r' first).2.events = r.events ++ R ∧
            R.filterMap Event.restored = (i, handle) :: restores steps ∧
            ∀ e ∈ R, ∃ i handle ok, e = .restore i handle ok := by
        intro r' first ok hr'
        obtain ⟨R, hevents, hR, hkind⟩ := @ih r' first
        refine ⟨.restore i handle ok :: R, ?_, ?_, ?_⟩
        · rw [hevents, hr', append_assoc]
          rfl
        · rw [filterMap_cons, hR]
          rfl
        · intro e he
          obtain rfl | he := mem_cons.mp he
          · exact ⟨i, handle, ok, rfl⟩
          · exact hkind e he
      split
      · exact hnext _ _ _ rfl
      · exact hnext _ _ _ rfl

variable {steps : List (ℕ × Armed σ η)}

theorem rollbackLoop_failed {first : Option (ℕ × Text × Text)}
    (h : first ≠ none) : (rollbackLoop steps r first).1 ≠ none := by
  induction steps generalizing r first with
  | nil => exact h
  | cons x steps ih =>
    unfold rollbackLoop
    split
    · exact ih h
    dsimp only
    split
    · exact ih h
    · refine ih ?_
      cases first <;> nofun

variable {part : ℕ → σ → τ}

/-- **The rollback** puts every part back whose step is undone, when no restore fails. -/
theorem rollbackLoop_parts {v : ℕ → τ} (hlawful : ∀ x ∈ steps, Undoes part v x.1 x.2)
    (h : (rollbackLoop steps r none).1 = none) {j : ℕ}
    (hj : part j r.state = v j ∨ ∃ x ∈ steps, x.1 = j ∧ x.2.undo.isSome = true) :
    part j (rollbackLoop steps r none).2.state = v j := by
  induction steps generalizing r with
  | nil =>
    obtain hj | ⟨x, hx, -⟩ := hj
    · exact hj
    · cases hx
  | cons x steps ih =>
    obtain ⟨i, a⟩ := x
    replace ih := fun r => @ih r fun x hx => hlawful x (mem_cons_of_mem _ hx)
    unfold rollbackLoop at h ⊢
    cases hundo : a.undo with
    | none =>
      rw [hundo] at h
      refine ih r h ?_
      obtain hj | ⟨x, hx, hxj, hsome⟩ := hj
      · exact .inl hj
      · obtain rfl | hx := mem_cons.mp hx
        · rw [hundo] at hsome
          cases hsome
        · exact .inr ⟨x, hx, hxj, hsome⟩
    | some undo =>
      obtain ⟨handle, restore⟩ := undo
      obtain ⟨hown, hothers⟩ := hlawful _ mem_cons_self handle restore hundo r.state
      rw [hundo] at h
      dsimp only at h ⊢
      cases hok : (restore handle r.state).1.ok with
      | false =>
        rw [hok, if_neg Bool.false_ne_true] at h
        exact absurd h (rollbackLoop_failed nofun)
      | true =>
        rw [hok, if_pos rfl] at h
        rw [if_pos rfl]
        refine ih _ h ?_
        by_cases heq : j = i
        · rw [heq]
          exact .inl (hown hok)
        obtain hj | ⟨x, hx, hxj, hsome⟩ := hj
        · exact .inl ((hothers j heq).trans hj)
        · obtain rfl | hx := mem_cons.mp hx
          · exact absurd hxj.symm heq
          · exact .inr ⟨x, hx, hxj, hsome⟩

/-- A rollback succeeds, or reports its first failure. -/
theorem rollback_cases (steps : List (ℕ × Armed σ η)) (r : Run σ η) :
    ((rollback steps r).1 = .ok ∧ (rollbackLoop steps (r.enter .rollback) none).1 = none ∧
      (rollback steps r).2 = (rollbackLoop steps (r.enter .rollback) none).2) ∨
    ((rollback steps r).1 = .rollbackFailed ∧
      (rollback steps r).2.events = (rollbackLoop steps (r.enter .rollback) none).2.events) := by
  unfold rollback
  generalize rollbackLoop steps (r.enter .rollback) none = out
  obtain ⟨first, r'⟩ := out
  cases first with
  | none => exact .inl ⟨rfl, rfl, rfl⟩
  | some _ => exact .inr ⟨rfl, rfl⟩

/-! ### The applies -/

/-- The steps that can be undone, by their indices. -/
def reversibleAt (l : List (Step σ η)) (j : ℕ) : Bool := l[j]?.any fun step => !step.irreversible

/-- The applies from `i` on that have succeeded in front of `n`. -/
def applied (i n : ℕ) : List (Event η) := (List.range' i (n - i)).map fun k => .apply k true

theorem applied_succ {i n : ℕ} (h : i < n) :
    (applied i n : List (Event η)) = .apply i true :: applied (i + 1) n := by
  unfold applied
  obtain ⟨k, hk⟩ : ∃ k, n - i = k + 1 := ⟨n - i - 1, by omega⟩
  rw [hk, range'_succ, show n - (i + 1) = k by omega]
  rfl

/-- What the applies of the steps from `i` on leave, of the steps `all`. -/
structure Applied (part : ℕ → σ → τ) (v : ℕ → τ) (handles : List (ℕ × η))
    (all : List (Step σ η)) (i : ℕ) (l : List (Step σ η)) (r : Run σ η)
    (out : Status × Run σ η) : Prop where
  value : out.1 = .ok ↔ (through Step.tryApply l r.state).1 = true
  events : (out.1 = .ok ∧ out.2.events = r.events ++ applied i all.length) ∨
    ((out.1 = .applyFailed ∨ out.1 = .rollbackFailed) ∧ ∃ n R, i ≤ n ∧ n < all.length ∧
        out.2.events = r.events ++ (applied i n ++ .apply n false :: R) ∧
        (R.filterMap Event.restored).map Prod.fst =
          ((List.range (n + 1)).filter (reversibleAt all)).reverse ∧
        (∀ x ∈ R.filterMap Event.restored, x ∈ handles) ∧
        ∀ e ∈ R, ∃ i handle ok, e = .restore i handle ok)
  parts : out.1 = .applyFailed → ∀ j, reversibleAt all j = true → part j out.2.state = v j

theorem restores_indices {p : ℕ → Bool} (h : ∀ x ∈ steps, x.2.undo.isSome = p x.1) :
    (restores steps).map Prod.fst = (steps.map Prod.fst).filter p := by
  induction steps with
  | nil => rfl
  | cons x steps ih =>
    have hrest := ih fun y hy => h y (mem_cons_of_mem _ hy)
    have hx := h x mem_cons_self
    unfold restores at hrest ⊢
    rw [filterMap_cons, map_cons, filter_cons, ← hx]
    cases x.2.undo with
    | none => exact hrest
    | some undo =>
      dsimp only [map_some, isSome_some]
      rw [map_cons, hrest, if_pos rfl]

/-- The steps in front of `i`, the last one first. -/
structure Done (P : σ → Prop) (handles : List (ℕ × η)) (all : List (Step σ η)) (i : ℕ)
    (done : List (ℕ × Armed σ η)) : Prop where
  order : done.map Prod.fst = (List.range i).reverse
  step : ∀ x ∈ done, ∃ step, all[x.1]? = some step ∧ ArmedOf P handles x.1 step x.2

theorem Done.cons {P : σ → Prop} {handles : List (ℕ × η)} {all : List (Step σ η)}
    {done : List (ℕ × Armed σ η)} {a : Armed σ η} (h : Done P handles all i done)
    (hstep : all[i]? = some step) (ha : ArmedOf P handles i step a) :
    Done P handles all (i + 1) ((i, a) :: done) where
  order := by
    rw [map_cons, h.order, range_succ, reverse_append]
    rfl
  step x hx := by
    obtain rfl | hx := mem_cons.mp hx
    · exact ⟨step, hstep, ha⟩
    · exact h.step x hx

variable {done : List (ℕ × Armed σ η)} {all : List (Step σ η)}

theorem Done.reversible (h : Done P handles all i done) {x : ℕ × Armed σ η}
    (hx : x ∈ done) : x.2.undo.isSome = reversibleAt all x.1 := by
  obtain ⟨step, hstep, ha⟩ := h.step x hx
  unfold reversibleAt
  rw [hstep, ha.reversible]
  rfl

/-- **What the rollback of the steps in front of `i` calls**, and what it leaves. -/
theorem Done.rollback {v : ℕ → τ} (h : Done P handles all i done)
    (hundoes : ∀ k step a, all[k]? = some step → ArmedOf P handles k step a → Undoes part v k a)
    (hparts : ∀ j, i ≤ j → reversibleAt all j = true → part j r.state = v j) :
    (∃ R, (rollback done r).2.events = r.events ++ R ∧ (R.filterMap Event.restored).map Prod.fst =
        ((List.range i).filter (reversibleAt all)).reverse ∧
      (∀ x ∈ R.filterMap Event.restored, x ∈ handles) ∧
      ∀ e ∈ R, ∃ i handle ok, e = .restore i handle ok) ∧
    ((rollback done r).1 = .rollbackFailed ∨ (rollback done r).1 = .ok ∧
      ∀ j, reversibleAt all j = true → part j (rollback done r).2.state = v j) := by
  constructor
  · obtain ⟨R, hevents, hR, hkind⟩ := @rollbackLoop_calls σ η (r.enter .rollback) done none
    refine ⟨R, ?_, ?_, ?_, hkind⟩
    · obtain ⟨-, -, hsame⟩ | ⟨-, hsame⟩ := rollback_cases done r
      · rw [hsame, hevents]
        rfl
      · rw [hsame, hevents]
        rfl
    · rw [hR, restores_indices (fun x hx => h.reversible hx), h.order, filter_reverse]
    · intro x hx
      rw [hR] at hx
      obtain ⟨y, hy, hxy⟩ := mem_filterMap.mp hx
      obtain ⟨⟨handle, restore⟩, hundo, rfl⟩ := map_eq_some_iff.mp hxy
      obtain ⟨step, -, ha⟩ := h.step y hy
      exact (ha.undo handle restore hundo).1
  · obtain ⟨hok, hnone, hsame⟩ | ⟨hfailed, -⟩ := rollback_cases done r
    · refine .inr ⟨hok, fun j hj => ?_⟩
      rw [hsame]
      refine rollbackLoop_parts ?_ hnone ?_
      · intro x hx
        obtain ⟨step, hstep, ha⟩ := h.step x hx
        exact hundoes x.1 step x.2 hstep ha
      · by_cases hij : i ≤ j
        · exact .inl (hparts j hij hj)
        have hmem : j ∈ done.map Prod.fst := by
          rw [h.order, mem_reverse, mem_range]
          omega
        obtain ⟨x, hx, hxj⟩ := List.mem_map.mp hmem
        exact .inr ⟨x, hx, hxj, by rw [h.reversible hx, hxj, hj]⟩
    · exact .inl hfailed

/-- An apply that succeeds. -/
theorem applyLoop_ok {done : List (ℕ × Armed σ η)} {a : Armed σ η} {armed : List (Armed σ η)}
    (h : (a.apply r.state).1.ok = true) :
    ∃ r' : Run σ η, r'.state = (a.apply r.state).2 ∧ r'.events = r.events ++ [.apply i true] ∧
      applyLoop i done (a :: armed) r = applyLoop (i + 1) ((i, a) :: done) armed r' := by
  refine ⟨_, ?_, ?_, if_pos h⟩
  · rfl
  · show r.events ++ [.apply i (a.apply r.state).1.ok] = _
    rw [h]

/-- A rollback that goes well leaves the failure of its apply. -/
def failed (i : ℕ) (name error : Text) : Status × Run σ η → Status × Run σ η
  | (.ok, r) => (.applyFailed, { r with result := r.result.failure .applyFailed .apply i name error })
  | (status, r) => (status, r)

/-- An apply that fails is undone with those before it, if it can be undone. -/
theorem applyLoop_failed {done : List (ℕ × Armed σ η)} {a : Armed σ η} {armed : List (Armed σ η)}
    (h : (a.apply r.state).1.ok = false) :
    ∃ r' : Run σ η, r'.state = (a.apply r.state).2 ∧ r'.events = r.events ++ [.apply i false] ∧
      let undone := rollback (if a.undo.isNone then done else (i, a) :: done) r'
      let out := applyLoop i done (a :: armed) r
      out.2.state = undone.2.state ∧ out.2.events = undone.2.events ∧
        (undone.1 = .ok ∧ out.1 = .applyFailed ∨ undone.1 = .rollbackFailed ∧ out.1 = undone.1) := by
  have hloop : ∃ (r' : Run σ η) (error : Text), r'.state = (a.apply r.state).2 ∧
      r'.events = r.events ++ [.apply i (a.apply r.state).1.ok] ∧
      applyLoop i done (a :: armed) r =
        failed i a.name error (rollback (if a.undo.isNone then done else (i, a) :: done) r') :=
    ⟨_, _, rfl, rfl, if_neg (Bool.eq_false_iff.mp h)⟩
  obtain ⟨r', error, hstate, hevents, hloop⟩ := hloop
  rw [h] at hevents
  refine ⟨r', hstate, hevents, ?_⟩
  dsimp only
  rw [hloop]
  have hcases := rollback_cases (if a.undo.isNone then done else (i, a) :: done) r'
  generalize rollback (if a.undo.isNone then done else (i, a) :: done) r' = undone at hcases ⊢
  obtain ⟨status, r''⟩ := undone
  obtain ⟨rfl, -⟩ | ⟨rfl, -⟩ := hcases
  · exact ⟨rfl, rfl, .inl ⟨rfl, rfl⟩⟩
  · exact ⟨rfl, rfl, .inr ⟨rfl, rfl⟩⟩

/-- **The applies**: all of them, or those in front of a failed one, which are then undone with it. -/
theorem applyLoop_spec {P : σ → Prop} {handles : List (ℕ × η)} {all : List (Step σ η)}
    {armed : List (Armed σ η)} {done : List (ℕ × Armed σ η)} {part : ℕ → σ → τ} {v : ℕ → τ}
    (hall : ∀ k step, l[k]? = some step → all[i + k]? = some step)
    (hlen : i + l.length = all.length) (hsame : armed.length = l.length)
    (harmed : ∀ k step a, l[k]? = some step → armed[k]? = some a → ArmedOf P handles (i + k) step a)
    (hdone : Done P handles all i done)
    (happly : ∀ k step, all[k]? = some step →
      ∀ s j, j ≠ k → part j (step.validated.apply s).2 = part j s)
    (hundoes : ∀ k step a, all[k]? = some step → ArmedOf P handles k step a → Undoes part v k a)
    (hparts : ∀ j, i ≤ j → part j r.state = v j) :
    Applied part v handles all i l r (applyLoop i done armed r) := by
  induction l generalizing i armed done r with
  | nil =>
    obtain rfl : armed = [] := eq_nil_of_length_eq_zero hsame
    refine ⟨⟨fun _ => rfl, fun _ => rfl⟩, .inl ⟨rfl, ?_⟩, nofun⟩
    unfold applied
    rw [← hlen, length_nil, Nat.add_zero, Nat.sub_self]
    exact (append_nil _).symm
  | cons step l ih =>
    obtain ⟨a, armed, rfl⟩ : ∃ a armed', armed = a :: armed' :=
      exists_cons_of_length_eq_add_one hsame
    have hstep : all[i]? = some step := hall 0 step rfl
    have ha : ArmedOf P handles i step a := harmed 0 step a rfl rfl
    have hlt : i < all.length := by
      rw [← hlen, length_cons]
      omega
    have hothers := happly i step hstep r.state
    have hcall : through Step.tryApply (step :: l) r.state =
        if (step.validated.apply r.state).1.ok then
          through Step.tryApply l (step.validated.apply r.state).2
        else ((step.validated.apply r.state).1.ok, (step.validated.apply r.state).2) := rfl
    rw [← ha.apply] at hothers hcall
    have hnext := hdone.cons hstep ha
    cases hok : (a.apply r.state).1.ok with
    | true =>
      obtain ⟨r', hstate, hevents, hloop⟩ := @applyLoop_ok σ η i r done a armed hok
      rw [hok, if_pos rfl] at hcall
      rw [hloop]
      have hrest := @ih (i + 1) r' armed ((i, a) :: done)
        (fun k step' hk => by rw [Nat.add_right_comm]; exact hall (k + 1) step' hk)
        (by rw [← hlen, length_cons]; omega) (Nat.succ.inj hsame)
        (fun k step' b hk hb => by
          rw [Nat.add_right_comm]
          exact harmed (k + 1) step' b hk hb)
        hnext (fun j hj => by rw [hstate, hothers j (by omega)]; exact hparts j (by omega))
      refine ⟨?_, ?_, hrest.parts⟩
      · rw [hcall, ← hstate]
        exact hrest.value
      · obtain ⟨hdone, heq⟩ | ⟨hstatus, n, R, hin, hn, heq, hR⟩ := hrest.events
        · refine .inl ⟨hdone, ?_⟩
          rw [heq, hevents, applied_succ hlt, append_assoc]
          rfl
        · refine .inr ⟨hstatus, n, R, by omega, hn, ?_, hR⟩
          rw [heq, hevents, applied_succ (by omega : i < n), append_assoc]
          rfl
    | false =>
      obtain ⟨r', hstate, hevents, hrest⟩ := @applyLoop_failed σ η i r done a armed hok
      rw [hok, if_neg Bool.false_ne_true] at hcall
      dsimp only at hrest
      have hrev : reversibleAt all i = a.undo.isSome := (hnext.reversible mem_cons_self).symm
      have hkept : ∀ j, i + 1 ≤ j → part j r'.state = v j := by
        intro j hj
        rw [hstate, hothers j (by omega)]
        exact hparts j (by omega)
      -- what is undone are the steps before, and this one if it is reversible
      have hundone : (∃ R, (rollback (if a.undo.isNone then done else (i, a) :: done) r').2.events =
            r'.events ++ R ∧
          (R.filterMap Event.restored).map Prod.fst =
            ((List.range (i + 1)).filter (reversibleAt all)).reverse ∧
          (∀ x ∈ R.filterMap Event.restored, x ∈ handles) ∧
          ∀ e ∈ R, ∃ i handle ok, e = .restore i handle ok) ∧
          ((rollback (if a.undo.isNone then done else (i, a) :: done) r').1 = .rollbackFailed ∨
            (rollback (if a.undo.isNone then done else (i, a) :: done) r').1 = .ok ∧
              ∀ j, reversibleAt all j = true → part j
                (rollback (if a.undo.isNone then done else (i, a) :: done) r').2.state = v j) := by
        cases hundo : a.undo with
        | none =>
          rw [hundo] at hrev
          have hsame : (List.range (i + 1)).filter (reversibleAt all) =
              (List.range i).filter (reversibleAt all) := by
            simp [range_succ, filter_append, hrev]
          rw [hsame]
          refine hdone.rollback hundoes fun j hj hreversible => hkept j ?_
          have hne : j ≠ i := by
            rintro rfl
            rw [hrev] at hreversible
            cases hreversible
          omega
        | some undo => exact hnext.rollback hundoes fun j hj _ => hkept j hj
      obtain ⟨⟨R, hR, hrestored⟩, hparts'⟩ := hundone
      obtain ⟨hsame, hsame', hstatus⟩ := hrest
      refine ⟨?_, .inr ⟨?_, i, R, Nat.le_refl i, hlt, ?_, hrestored⟩, ?_⟩
      · rw [hcall]
        constructor
        · intro hno
          obtain ⟨-, hno'⟩ | ⟨hno', hno''⟩ := hstatus
          · rw [hno'] at hno
            cases hno
          · rw [hno'', hno'] at hno
            cases hno
        · nofun
      · obtain ⟨-, h⟩ | ⟨h, h'⟩ := hstatus
        · exact .inl h
        · exact .inr (h'.trans h)
      · rw [hsame', hR, hevents, append_assoc]
        unfold applied
        rw [Nat.sub_self]
        rfl
      · intro hfailed j hj
        rw [hsame]
        obtain h | ⟨-, h⟩ := hparts'
        · obtain ⟨hno, -⟩ | ⟨-, hno⟩ := hstatus
          · rw [h] at hno
            cases hno
          · rw [hfailed, h] at hno
            cases hno
        · exact h j hj

/-! ### The runner -/

/-- What is asked of the callbacks; each step has a part of the shared state. A restore of its own
    snapshot puts that part back as it was then, or reports a failure, and touches no other part; an
    apply touches no other part; the rest touches nothing. -/
structure Lawful (part : ℕ → σ → τ) (l : List (Step σ η)) : Prop where
  preflight : ∀ step ∈ l, ∀ f, step.preflight = some f → ∀ s j, part j (f s).2 = part j s
  snapshot : ∀ step ∈ l, ∀ f, step.snapshot = some f → ∀ s j, part j (f s).2.2 = part j s
  apply : ∀ i step, l[i]? = some step → ∀ f, step.apply = some f →
    ∀ s j, j ≠ i → part j (f s).2 = part j s
  restore : ∀ i step, l[i]? = some step → ∀ f g, step.snapshot = some f → step.restore = some g →
    ∀ s handle, (f s).1.ok = true → (f s).2.1 = some handle → ∀ s',
      ((g handle s').1.ok = true → part i (g handle s').2 = part i s) ∧
        ∀ j, j ≠ i → part j (g handle s').2 = part j s'

/-- All preflights, then all snapshots, then all applies succeed. -/
def Succeeds (l : List (Step σ η)) (s : σ) : Prop :=
  (through Step.tryPreflight l s).1 = true ∧
    (through Step.trySnapshot l (through Step.tryPreflight l s).2).1 = true ∧
    (through Step.tryApply l
      (through Step.trySnapshot l (through Step.tryPreflight l s).2).2).1 = true

/-- What the runner does with the steps `l`, from the state `s` on. -/
structure Atomic (part : ℕ → σ → τ) (l : List (Step σ η)) (s : σ) (out : Outcome σ η) : Prop where
  ok : out.status = .ok ↔ WellFormed l ∧ Succeeds l s
  unchanged : out.status ≠ .ok → out.status ≠ .rollbackFailed →
    ∀ j, reversibleAt l j = true → part j out.state = part j s
  order : ∃ n, n ≤ l.length ∧ (out.events.filterMap Event.attempted).map Prod.fst = List.range n
  irreversible : ∀ before n ok after, out.events = before ++ .apply n ok :: after →
    reversibleAt l n = false → n + 1 = l.length ∧ ∀ j < n, .apply j true ∈ before
  restored : (∃ n, .apply n false ∈ out.events) →
    (out.events.filterMap Event.restored).map Prod.fst =
      (((out.events.filterMap Event.attempted).map Prod.fst).filter (reversibleAt l)).reverse
  notRestored : (∀ n, .apply n false ∉ out.events) → out.events.filterMap Event.restored = []
  handles : ∀ x ∈ out.events.filterMap Event.restored, x ∈ out.events.filterMap Event.obtained
  freed : out.events.filterMap Event.freed = (out.events.filterMap Event.obtained).reverse

variable {out : Outcome σ η}

/-- Nothing is called before a list is accepted. -/
theorem atomic_of_refused (hl : ¬ WellFormed l)
    (hstatus : out.status ≠ .ok) (hstate : out.state = s) (hevents : out.events = []) :
    Atomic part l s out where
  ok := ⟨fun h => absurd h hstatus, fun h => absurd h.1 hl⟩
  unchanged _ _ _ _ := by rw [hstate]
  order := ⟨0, Nat.zero_le _, by rw [hevents]; rfl⟩
  irreversible before n ok after h := by
    rw [hevents] at h
    cases append_eq_nil_iff.mp h.symm |>.2
  restored := by
    rintro ⟨n, hn⟩
    rw [hevents] at hn
    cases hn
  notRestored _ := by rw [hevents]; rfl
  handles x hx := by
    rw [hevents] at hx
    cases hx
  freed := by rw [hevents]; rfl

variable {α : Type}

/-- A place in a list that is numbered. -/
theorem index_of_range {B C : List (ℕ × α)} {k m : ℕ} {a : α}
    (h : (B ++ (k, a) :: C).map Prod.fst = List.range m) : k = B.length ∧ B.length < m := by
  have hget : (List.range m)[B.length]? = some k := by
    rw [← h, getElem?_map, getElem?_append_right (Nat.le_refl _), Nat.sub_self]
    rfl
  obtain ⟨hlt, heq⟩ := List.getElem?_eq_some_iff.mp hget
  rw [length_range] at hlt
  rw [getElem_range] at heq
  exact ⟨heq.symm, hlt⟩

theorem mem_attempted {es : List (Event η)} {k : ℕ} {ok : Bool} :
    (k, ok) ∈ es.filterMap Event.attempted ↔ .apply k ok ∈ es := by
  rw [mem_filterMap]
  refine ⟨?_, fun h => ⟨_, h, rfl⟩⟩
  rintro ⟨e, he, hattempt⟩
  cases e with
  | apply k' ok' =>
    obtain ⟨rfl, rfl⟩ := Prod.mk.inj (some.inj hattempt)
    exact he
  | _ => cases hattempt

/-- The calls of a transaction that has come to its applies: preflights, snapshots, applies, restores
    and frees. -/
theorem atomic_of_trace {P S A R F : List (Event η)} (n : ℕ)
    (failed : Bool) (hl : WellFormed l) (hevents : out.events = P ++ S ++ A ++ R ++ F)
    (hP : ∀ e ∈ P, ∃ k ok, e = .preflight k ok)
    (hS : ∀ e ∈ S, ∃ k ok handle, e = .snapshot k ok handle)
    (hA : A = applied 0 n ++ if failed then [.apply n false] else [])
    (hn : n + failed.toNat ≤ l.length)
    (hR : ∀ e ∈ R, ∃ k handle ok, e = .restore k handle ok)
    (hrestored : if failed then (R.filterMap Event.restored).map Prod.fst =
        ((List.range (n + 1)).filter (reversibleAt l)).reverse else R = [])
    (hhandles : ∀ x ∈ R.filterMap Event.restored, x ∈ S.filterMap Event.obtained)
    (hF : F = (S.filterMap Event.obtained).reverse.map fun h => .free h.1 h.2)
    (hok : out.status = .ok ↔ Succeeds l s)
    (hunchanged : out.status ≠ .ok → out.status ≠ .rollbackFailed →
      ∀ j, reversibleAt l j = true → part j out.state = part j s) : Atomic part l s out := by
  have hAkind : ∀ e ∈ A, ∃ k ok, e = .apply k ok := by
    intro e he
    rw [hA] at he
    unfold applied at he
    obtain he | he := mem_append.mp he
    · obtain ⟨k, -, rfl⟩ := List.mem_map.mp he
      exact ⟨k, true, rfl⟩
    · split at he
      · exact ⟨n, false, mem_singleton.mp he⟩
      · cases he
  have hFkind : ∀ e ∈ F, ∃ k handle, e = .free k handle := by
    intro e he
    rw [hF] at he
    obtain ⟨h, -, rfl⟩ := List.mem_map.mp he
    exact ⟨h.1, h.2, rfl⟩
  -- each kind of call has its own segment
  have hsplit : ∀ {α : Type} (f : Event η → Option α), out.events.filterMap f =
      P.filterMap f ++ S.filterMap f ++ A.filterMap f ++ R.filterMap f ++ F.filterMap f := by
    intro α f
    simp only [hevents, filterMap_append]
  have hnoP {α : Type} {f : Event η → Option α} (hf : ∀ k ok, f (.preflight k ok) = none) :
      P.filterMap f = [] := by
    refine filterMap_eq_nil_iff.mpr fun e he => ?_
    obtain ⟨k, ok, rfl⟩ := hP e he
    exact hf k ok
  have hnoS {α : Type} {f : Event η → Option α} (hf : ∀ k ok h, f (.snapshot k ok h) = none) :
      S.filterMap f = [] := by
    refine filterMap_eq_nil_iff.mpr fun e he => ?_
    obtain ⟨k, ok, h, rfl⟩ := hS e he
    exact hf k ok h
  have hnoA {α : Type} {f : Event η → Option α} (hf : ∀ k ok, f (.apply k ok) = none) :
      A.filterMap f = [] := by
    refine filterMap_eq_nil_iff.mpr fun e he => ?_
    obtain ⟨k, ok, rfl⟩ := hAkind e he
    exact hf k ok
  have hnoR {α : Type} {f : Event η → Option α} (hf : ∀ k h ok, f (.restore k h ok) = none) :
      R.filterMap f = [] := by
    refine filterMap_eq_nil_iff.mpr fun e he => ?_
    obtain ⟨k, h, ok, rfl⟩ := hR e he
    exact hf k h ok
  have hnoF {α : Type} {f : Event η → Option α} (hf : ∀ k h, f (.free k h) = none) :
      F.filterMap f = [] := by
    refine filterMap_eq_nil_iff.mpr fun e he => ?_
    obtain ⟨k, h, rfl⟩ := hFkind e he
    exact hf k h
  have hattempted : out.events.filterMap Event.attempted =
      (List.range n).map (·, true) ++ if failed then [(n, false)] else [] := by
    rw [hsplit, hnoP fun _ _ => rfl, hnoS fun _ _ _ => rfl, hnoR fun _ _ _ => rfl,
      hnoF fun _ _ => rfl, hA]
    simp only [nil_append, append_nil, filterMap_append]
    congr 1
    · unfold applied
      rw [Nat.sub_zero, ← range_eq_range', filterMap_map]
      exact congrFun (filterMap_eq_map (f := fun k => (k, true))) (List.range n)
    · cases failed <;> rfl
  have hobtained : out.events.filterMap Event.obtained = S.filterMap Event.obtained := by
    rw [hsplit, hnoP fun _ _ => rfl, hnoA fun _ _ => rfl, hnoR fun _ _ _ => rfl,
      hnoF fun _ _ => rfl, append_nil, append_nil, append_nil, nil_append]
  have hundone : out.events.filterMap Event.restored = R.filterMap Event.restored := by
    rw [hsplit, hnoP fun _ _ => rfl, hnoS fun _ _ _ => rfl, hnoA fun _ _ => rfl,
      hnoF fun _ _ => rfl, append_nil, append_nil, append_nil, nil_append]
  have hfreed : out.events.filterMap Event.freed = (S.filterMap Event.obtained).reverse := by
    have hsome : Event.freed ∘ (fun h : ℕ × η => Event.free h.1 h.2) = some := rfl
    rw [hsplit, hnoP fun _ _ => rfl, hnoS fun _ _ _ => rfl, hnoA fun _ _ => rfl,
      hnoR fun _ _ _ => rfl, append_nil, append_nil, append_nil, nil_append,
      hF, filterMap_map, hsome, filterMap_some]
  have horder : (out.events.filterMap Event.attempted).map Prod.fst =
      List.range (n + failed.toNat) := by
    rw [hattempted, map_append, List.map_map]
    cases failed with
    | true =>
      rw [Bool.toNat_true, range_succ]
      exact congrArg (· ++ [n]) (List.map_id _)
    | false => exact (append_nil _).trans (List.map_id _)
  have hfailed : (∃ k, .apply k false ∈ out.events) ↔ failed = true := by
    simp only [← mem_attempted, hattempted]
    cases failed <;> simp
  refine
    { ok := hok.trans ⟨fun h => ⟨hl, h⟩, fun h => h.2⟩, unchanged := hunchanged
      order := ⟨_, hn, horder⟩, irreversible := ?_, restored := ?_, notRestored := ?_
      handles := ?_, freed := hfreed.trans (by rw [hobtained]) }
  · intro before k ok after hbefore hirr
    -- the applies are made in order, so those before the `k`th are those of the steps before it
    have hcalls : out.events.filterMap Event.attempted =
        before.filterMap Event.attempted ++ (k, ok) :: after.filterMap Event.attempted := by
      rw [hbefore, filterMap_append]
      rfl
    have hmem := fun j => @mem_attempted η before j true
    generalize before.filterMap Event.attempted = B at hcalls hmem
    have hB : k = B.length ∧ B.length < n + failed.toNat := index_of_range (hcalls ▸ horder)
    obtain ⟨rfl, hlt⟩ := hB
    have hthere : B.length < l.length := by omega
    constructor
    · unfold reversibleAt at hirr
      rw [getElem?_eq_getElem hthere] at hirr
      have hstep := hl.step B.length _ (getElem?_eq_getElem hthere)
      exact (hstep.final (by simpa using hirr)).1
    · intro j hj
      refine (hmem j).mp (mem_of_getElem? (i := j) ?_)
      have hget := congrArg (·[j]?) hcalls
      rw [hattempted, getElem?_append_left hj] at hget
      have hjn : j < n := by
        cases failed
        · rw [Bool.toNat_false] at hlt
          omega
        · rw [Bool.toNat_true] at hlt
          omega
      rw [← hget, getElem?_append_left (by simpa using hjn), getElem?_map, getElem?_range hjn]
      rfl
  · intro hany
    rw [hfailed.mp hany] at hrestored horder
    rw [hundone, horder]
    exact hrestored
  · intro hno
    have hnot : failed = false := by
      by_contra hyes
      obtain ⟨k, hk⟩ := hfailed.mpr (by simpa using hyes)
      exact hno k hk
    rw [hnot] at hrestored
    rw [hundone, show R = [] from hrestored]
    rfl
  · intro x hx
    rw [hundone] at hx
    rw [hobtained]
    exact hhandles x hx

theorem through_keeps {call : α → σ → Bool × σ} {as : List α}
    (h : ∀ a ∈ as, ∀ s, P s → P (call a s).2) (hs : P s) : P (through call as s).2 := by
  induction as generalizing s with
  | nil => exact hs
  | cons a as ih =>
    have hnext := h a mem_cons_self s hs
    unfold through
    split
    · exact ih (fun b hb => h b (mem_cons_of_mem _ hb)) hnext
    · exact hnext

/-- **The transaction runner is all or nothing** around one irreversible step. -/
theorem execute_atomic {part : ℕ → σ → τ} {steps : Option (List (Step σ η))} {s : σ}
    (hlawful : Lawful part (steps.getD [])) :
    Atomic part (steps.getD []) s (execute steps s) := by
  cases hv : validate steps with
  | error e =>
    have hl : ¬ WellFormed (steps.getD []) := by
      intro hwell
      cases steps with
      | none => exact absurd hwell.length.1 (Nat.lt_irrefl 0)
      | some l =>
        have hok := validate_ok.mpr ⟨l, rfl, hwell, rfl⟩
        rw [hok] at hv
        cases hv
    unfold execute
    rw [hv]
    cases e with
    | none => exact atomic_of_refused hl nofun rfl rfl
    | some e =>
      refine atomic_of_refused hl ?_ rfl rfl
      cases steps with
      | none => cases hv
      | some l =>
        unfold validate at hv
        dsimp only at hv
        split at hv
        · cases hv
        cases hloop : validateLoop l.length 0 0 l with
        | ok cs =>
          rw [hloop] at hv
          cases hv
        | error e' =>
          rw [hloop] at hv
          obtain rfl := some.inj (Except.error.inj hv)
          exact validateLoop_error hloop
  | ok checked =>
    obtain ⟨l, rfl, hl, rfl⟩ := validate_ok.mp hv
    change Atomic part l s _
    replace hlawful : Lawful part l := hlawful
    unfold execute
    rw [hv]
    dsimp only
    obtain ⟨hvalue, hstate, P, hP, hPkind⟩ := @preflightLoop_spec σ η l 0 { state := s }
    have hkept : ∀ j, part j (through Step.tryPreflight l s).2 = part j s := by
      refine through_keeps (P := fun s' => ∀ j, part j s' = part j s) ?_ fun _ => rfl
      intro step hstep s' hs' j
      unfold Step.tryPreflight
      split
      · exact hs' j
      · next f hf => exact (hlawful.preflight step hstep f hf s' j).trans (hs' j)
    generalize preflightLoop 0 (l.map Step.validated) { state := s } = out at hvalue hstate hP ⊢
    obtain ⟨ok, r⟩ := out
    dsimp only at hvalue hstate hP ⊢
    have hPn : r.events = P := hP
    cases ok with
    | false =>
      refine atomic_of_trace (P := P) (S := []) (A := []) (R := []) (F := []) 0 false hl ?_ hPkind
        nofun rfl (Nat.zero_le _) nofun rfl nofun rfl ⟨nofun, fun hno => ?_⟩ fun _ _ j _ => ?_
      · rw [append_nil, append_nil, append_nil, append_nil]
        exact hPn
      · rw [hno.1] at hvalue
        cases hvalue
      · show part j r.state = _
        rw [hstate]
        exact hkept j
    | true =>
      dsimp only
      have hsnap := @snapshotLoop_spec σ η l l.length 0 r (fun s' => ∀ j, part j s' = part j s)
        (fun k step hk => by rw [Nat.zero_add]; exact hl.step k step hk)
        (fun step hstep f hf s' hs' j => (hlawful.snapshot step hstep f hf s' j).trans (hs' j))
        (by rw [hstate]; exact hkept)
      generalize snapshotLoop 0 (l.map Step.validated) r = out at hsnap ⊢
      obtain ⟨⟨armed, handles⟩, r₁⟩ := out
      obtain ⟨S, hS, hobtained, hSkind⟩ := hsnap.events
      have hvalue₁ := hsnap.value
      have hstate₁ := hsnap.state
      rw [hstate] at hvalue₁ hstate₁
      have hkept₁ := hsnap.kept
      dsimp only at hS hobtained hvalue₁ hstate₁ hkept₁ ⊢
      cases armed with
      | none =>
        refine atomic_of_trace (P := P) (S := S) (A := []) (R := []) 0 false hl ?_ hPkind
          hSkind rfl (Nat.zero_le _) nofun rfl nofun rfl ⟨nofun, fun hno => ?_⟩ fun _ _ j _ => ?_
        · show r₁.events ++ _ = _
          rw [hS, hPn, hobtained, append_nil, append_nil, map_reverse]
        · rw [hno.2.1] at hvalue₁
          cases hvalue₁
        · exact hkept₁ j
      | some armed =>
        dsimp only
        obtain ⟨hlen, harmed⟩ := hsnap.armed armed rfl
        simp only [Nat.zero_add] at harmed
        have hloop := @applyLoop_spec σ η τ l 0 r₁ (fun s' => ∀ j, part j s' = part j s) handles l
          armed [] part (fun j => part j s)
          (fun k step hk => by rw [Nat.zero_add]; exact hk) (Nat.zero_add _) hlen
          (fun k step a hk ha => by rw [Nat.zero_add]; exact harmed k step a hk ha)
          ⟨rfl, nofun⟩ ?_ ?_ (fun j _ => hkept₁ j)
        rotate_left
        · intro k step hk s' j hj
          obtain ⟨f, hf⟩ := isSome_iff_exists.mp (hl.step k step hk).apply
          have hcall : step.validated.apply = f := by
            unfold Step.validated
            rw [hf]
            rfl
          rw [hcall]
          exact hlawful.apply k step hk f hf s' j hj
        · intro k step a hk ha handle restore hundo s'
          obtain ⟨-, hrestore, f, s₀, hf, hs₀, hok, hhandle⟩ := ha.undo handle restore hundo
          obtain ⟨hown, hothers⟩ := hlawful.restore k step hk f restore hf hrestore s₀ handle hok
            hhandle s'
          exact ⟨fun h => (hown h).trans (hs₀ k), hothers⟩
        have hvalue₂ := hloop.value
        rw [hstate₁] at hvalue₂
        have hsucceeds : (applyLoop 0 [] armed r₁).1 = .ok ↔ Succeeds l s :=
          hvalue₂.trans ⟨fun h => ⟨hvalue.symm, hvalue₁.symm, h⟩, fun h => h.2.2⟩
        have hevents := hloop.events
        have hparts := hloop.parts
        generalize applyLoop 0 [] armed r₁ = out at hsucceeds hevents hparts ⊢
        obtain ⟨status, r₂⟩ := out
        dsimp only at hsucceeds hevents hparts ⊢
        have hfree : ∀ events, r₂.events = r₁.events ++ events →
            (snapshotsFree handles r₂).events = P ++ S ++ events ++
              (S.filterMap Event.obtained).reverse.map fun h => .free h.1 h.2 := by
          intro events h
          show r₂.events ++ _ = _
          rw [h, hS, hPn, hobtained, map_reverse]
        obtain ⟨rfl, heq⟩ | ⟨hstatus, n, R, -, hn, heq, hrestored, hhandles, hRkind⟩ := hevents
        · refine atomic_of_trace (P := P) (S := S) (A := applied 0 l.length) (R := []) l.length false
            hl ?_ hPkind hSkind (append_nil _).symm (Nat.le_refl _) nofun rfl nofun rfl ?_
            fun hno => absurd rfl hno
          · rw [append_nil]
            exact hfree _ heq
          · exact ⟨fun _ => hsucceeds.mp rfl, fun _ => rfl⟩
        · have hatomic : Atomic part l s ((snapshotsFree handles r₂).ends status) := by
            refine atomic_of_trace (P := P) (S := S) (A := applied 0 n ++ [.apply n false]) (R := R) n
              true hl ?_ hPkind hSkind rfl hn hRkind hrestored ?_ rfl hsucceeds ?_
            · have hall := hfree _ heq
              simp only [append_assoc, cons_append, nil_append] at hall ⊢
              exact hall
            · rw [hobtained]
              exact hhandles
            · intro _ hno j hj
              exact hparts (hstatus.resolve_right hno) j hj
          obtain rfl | rfl := hstatus <;> exact hatomic

/-- A step that writes one cell of the shared state, and then returns `rc`. -/
def cellStep (i : ℕ) (rc : ℤ) : Step (ℕ → ℕ) ℕ where
  name := some "cell".toList
  flags := 0
  preflight := none
  snapshot := some fun s => (⟨0, []⟩, some (s i), s)
  apply := some fun s => (⟨rc, []⟩, Function.update s i 9)
  restore := some fun v s => (⟨0, []⟩, Function.update s i v)
  snapshotFree := true

/-- Two cells are written; the second write fails behind its effect. -/
def cellSteps : List (Step (ℕ → ℕ) ℕ) := [cellStep 0 0, cellStep 1 (-1)]

theorem cellSteps_lawful : Lawful (fun i s => s i) cellSteps := by
  have hat : ∀ i step, cellSteps[i]? = some step → ∃ rc, step = cellStep i rc := by
    intro i step h
    match i, h with
    | 0, h => exact ⟨0, (some.inj h).symm⟩
    | 1, h => exact ⟨-1, (some.inj h).symm⟩
  have hmem : ∀ step ∈ cellSteps, ∃ i rc, step = cellStep i rc := by
    intro step h
    obtain ⟨i, hi⟩ := getElem?_of_mem h
    exact ⟨i, hat i step hi⟩
  constructor
  · intro step h f hf
    obtain ⟨i, rc, rfl⟩ := hmem step h
    cases hf
  · intro step h f hf s j
    obtain ⟨i, rc, rfl⟩ := hmem step h
    obtain rfl := some.inj hf
    rfl
  · intro i step h f hf s j hj
    obtain ⟨rc, rfl⟩ := hat i step h
    obtain rfl := some.inj hf
    exact Function.update_of_ne hj 9 s
  · intro i step h f g hf hg s handle _ hhandle s'
    obtain ⟨rc, rfl⟩ := hat i step h
    obtain rfl := some.inj hf
    obtain rfl := some.inj hg
    obtain rfl := some.inj hhandle
    exact ⟨fun _ => Function.update_self i (s i) s', fun j hj => Function.update_of_ne hj (s i) s'⟩

theorem execute_atomic_cells :
    Atomic (fun i s => s i) cellSteps (fun _ => 2) (execute (some cellSteps) fun _ => 2) ∧
      (execute (some cellSteps) fun _ => 2).status = .applyFailed ∧
      (execute (some cellSteps) fun _ => 2).state 1 = 2 :=
  ⟨@execute_atomic _ _ _ _ (some cellSteps) _ cellSteps_lawful, by decide, by decide⟩

end DreamingOS.AdminTxn
