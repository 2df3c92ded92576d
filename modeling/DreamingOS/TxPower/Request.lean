import DreamingOS.TxPower.Mode

namespace DreamingOS.TxPower

open Option

/-!
# Transmit power — what a request leaves behind

A request that succeeds has passed the gates, and the knob, the boot option and the selection name
the mode.  A request for the regulatory mode that fails leaves neither file newly at that mode, nor
the knob.  **Exactly three courses break this** (`kept_iff`):

* the calibrated mode is asked for, the knob is set, and the one read of the knob fails: the mode
  reads as calibrated, and the request succeeds at once (`Misread`);
* at the label `persist` of a request for the regulatory mode, the boot file is replaced but its
  directory not synchronised, or the selection is not written and what was written not taken back
  (`Lingers`).
-/

def Reply.state : Reply → Option State
  | .failed _ state => state
  | .applied _ _ state => some state

/-- The knob, the boot option and the selection all name the mode. -/
def AllName (regulatory : Bool) (sys : System) : Prop :=
  sys.knob = some regulatory ∧ Names regulatory sys.files.boot ∧
    selected sys.files.selection = some (modeText regulatory)

/-- A state with live power that its ceiling allows, and a ceiling that is required. -/
def LiveOk (state : State) : Prop :=
  REQUIRED_REG_CEILING_X10 ≤ state.ceiling ∧ state.active ≠ [] ∧
    ∀ iface ∈ state.active, iface.2 ≤ state.ceiling

/-- What a success promises. -/
structure Granted (run : Run) (sys : System) (regulatory confirmed : Bool)
    (after : System × Reply) : Prop where
  board : boardAllowed run.first.boardName = true
  present : sys.knob.isSome = true
  confirmed : regulatory = true → confirmed = true
  ceiling : regulatory = true → REQUIRED_REG_CEILING_X10 ≤ (collect run.first sys).regulatoryCeiling
  live : regulatory = true → ∃ state, after.2.state = some state ∧ LiveOk state
  names : AllName regulatory after.1

/-- What a failure of a request for the regulatory mode promises. -/
structure Refused (sys : System) (after : System × Reply) : Prop where
  files : ¬ NewlyRegulatory sys.files after.1.files
  knob : after.2.reason ≠ NOT_RESTORED → sys.knob ≠ some true → after.1.knob ≠ some true

/-- The request keeps both promises. -/
def Kept (run : Run) (sys : System) (mode : Option (List Char)) (confirmed : Bool) : Prop :=
  ((setJson run sys mode confirmed).2.ok = true → ∃ regulatory, mode = some (modeText regulatory) ∧
        Granted run sys regulatory confirmed (setJson run sys mode confirmed)) ∧
    ((setJson run sys mode confirmed).2.ok = false → mode = some REGULATORY →
      Refused sys (setJson run sys mode confirmed))

/-- The knob is set, but the calibrated mode is read, proved and persisted. -/
def Misread (run : Run) (sys : System) (confirmed : Bool) : Prop :=
  sys.knob = some true ∧ run.first.paramRead = false ∧ ∃ state,
    gates run sys false confirmed = .ok state ∧ calibratedStateOk state = true ∧
      (persistSelection run.persist sys.files false state.persistedMode).2 = true

/-- The regulatory mode is to be persisted, and a file is not taken back. -/
def Lingers (run : Run) (sys : System) (confirmed : Bool) : Prop :=
  ∃ sys' state already, attempt run sys true confirmed = (sys', .inr (state, already)) ∧
    (Unsynced run.persist sys.files ∨ Unreverted run.persist sys.files state.persistedMode)

/-! ### The parts of a request -/

variable {run : Run} {sys sys' : System} {regulatory confirmed already : Bool} {state : State}

theorem request_eq_ok {mode : Option (List Char)} :
    request mode = .ok regulatory ↔ mode = some (modeText regulatory) := by
  constructor
  · intro h
    unfold request at h
    split at h
    · cases h
    rename_i mode
    split at h
    · cases h
    split at h
    · next hreg =>
      cases h
      rw [hreg]
      rfl
    · split at h
      · next hcal =>
        cases h
        rw [hcal]
        rfl
      · cases h
  · rintro rfl
    cases regulatory <;> rfl

theorem setJson_of_failed {mode : Option (List Char)} {reply : Reply}
    (hmode : mode = some (modeText regulatory))
    (h : attempt run sys regulatory confirmed = (sys', .inl reply)) :
    setJson run sys mode confirmed = (sys', reply) := by
  unfold setJson
  rw [request_eq_ok.mpr hmode]
  dsimp only
  rw [h]

theorem setJson_of_reached {mode : Option (List Char)}
    (hmode : mode = some (modeText regulatory))
    (h : attempt run sys regulatory confirmed = (sys', .inr (state, already))) :
    setJson run sys mode confirmed =
      if (persistSelection run.persist sys'.files regulatory state.persistedMode).2 then
        ({ sys' with
            files := (persistSelection run.persist sys'.files regulatory state.persistedMode).1 },
          .applied (modeText regulatory) already
            { state with persistedMode := modeText regulatory })
      else if already then
        ({ sys' with
            files := (persistSelection run.persist sys'.files regulatory state.persistedMode).1 },
          .failed "persistence_write_failed" (some state))
      else
        rollback run.restore
          { sys' with
            files := (persistSelection run.persist sys'.files regulatory state.persistedMode).1 }
          (run.country.getD []) (collect run.first sys) state "persistence_write_failed" := by
  unfold setJson
  rw [request_eq_ok.mpr hmode]
  dsimp only
  rw [h]

/-- The selection that is known at the label is true. -/
theorem Reached.persisted (h : Reached run sys regulatory confirmed sys' state already) :
    (state.persistedMode = [] ∨ state.persistedMode = CALIBRATED ∨
      state.persistedMode = REGULATORY) ∧
    (state.persistedMode = modeText regulatory →
      selected sys'.files.selection = some (modeText regulatory)) := by
  obtain ⟨r, -, hpersisted⟩ := h.collected
  obtain ⟨hmodes, hselected⟩ := persistedMode_collect (r := r)
  rw [hpersisted]
  exact ⟨hmodes, hselected regulatory⟩

theorem Reached.clear (h : Reached run sys regulatory confirmed sys' state already) :
    Clear (fileLines sys.files.boot) := by
  obtain ⟨first, hpassed⟩ := h.passed
  exact hpassed.clear

/-- **The knob at the label**, but for a read that has failed. -/
theorem Reached.knob (h : Reached run sys regulatory confirmed sys' state already) :
    sys'.knob = some regulatory ∨ (regulatory = false ∧ already = true ∧ sys.knob = some true ∧
        run.first.paramRead = false) := by
  cases already with
  | false => exact .inl (h.written rfl).1
  | true =>
    obtain ⟨rfl, hmode, -⟩ := h.untouched rfl
    have hproved := mode_of_stateOk h.proved
    cases regulatory with
    | true => exact .inl (knob_of_collect_regulatory (hmode.symm.trans hproved))
    | false =>
      obtain ⟨first, hpassed⟩ := h.passed
      rcases misread_of_collect_calibrated (hmode.symm.trans hproved) hpassed.present with
        hknob | ⟨hknob, hread⟩
      · exact .inl hknob
      · exact .inr ⟨rfl, rfl, hknob, hread⟩

/-- What stands at the label is what the gates have let pass. -/
theorem attempt_already (hgates : gates run sys regulatory confirmed = .ok state)
    (hstate : stateOk regulatory state = true) :
    attempt run sys regulatory confirmed = (sys, .inr (state, true)) := by
  unfold attempt
  rw [hgates]
  dsimp only
  rw [if_pos hstate]

theorem gates_of_already {sys' : System}
    (h : attempt run sys regulatory confirmed = (sys', .inr (state, true))) :
    gates run sys regulatory confirmed = .ok state := by
  unfold attempt at h
  split at h
  · cases h
  rename_i first hgates
  dsimp only at h
  split at h
  · cases h
    exact hgates
  split at h
  · cases h
  split at h
  · cases h
  split at h
  · cases h
  · split at h
    · cases h
    · split at h <;> cases h

/-! ### Both promises -/

/-- A success of a request that has reached the label. -/
theorem granted_iff (hreach : Reached run sys regulatory confirmed sys' state already)
    (hok : (persistSelection run.persist sys'.files regulatory state.persistedMode).2 = true) :
    Granted run sys regulatory confirmed
      ({ sys' with
          files := (persistSelection run.persist sys'.files regulatory state.persistedMode).1 },
        .applied (modeText regulatory) already
          { state with persistedMode := modeText regulatory }) ↔
      sys'.knob = some regulatory := by
  obtain ⟨first, hpassed⟩ := hreach.passed
  constructor
  · exact fun h => h.names.1
  · intro hknob
    refine ⟨hpassed.board, knob_ne_none_of_present hpassed.present, hpassed.confirmed,
      hpassed.ceiling, ?_, hknob, ?_⟩
    · rintro rfl
      have hproved := hreach.proved
      unfold stateOk at hproved
      rw [if_pos rfl] at hproved
      exact ⟨_, rfl, (regulatoryStateOk_spec hproved).2⟩
    · exact persistSelection_ok
        (fun hprev => hprev ▸ hreach.persisted.2 hprev) hok

section

variable {mode : Option (List Char)} (hmode : mode = some (modeText regulatory))
  (hattempt : attempt run sys regulatory confirmed = (sys', .inr (state, already)))
include hmode hattempt

/-- A mode that is persisted: the promise is about the knob. -/
theorem kept_of_persisted
    (hok : (persistSelection run.persist sys'.files regulatory state.persistedMode).2 = true) :
    Kept run sys mode confirmed ↔ sys'.knob = some regulatory := by
  have hreach := attempt_reached hattempt
  have hset := setJson_of_reached hmode hattempt
  rw [if_pos hok] at hset
  rw [← granted_iff hreach hok]
  unfold Kept
  rw [hset]
  constructor
  · rintro ⟨hgranted, -⟩
    obtain ⟨which, hwhich, h⟩ := hgranted rfl
    have heq : which = regulatory := modeText_injective (some.inj (hwhich.symm.trans hmode))
    exact heq ▸ h
  · exact fun h => ⟨fun _ => ⟨regulatory, hmode, h⟩, fun hfail => by cases hfail⟩

/-- A mode that is not persisted: the promise is about the files. -/
theorem kept_of_not_persisted
    (hfail : (persistSelection run.persist sys'.files regulatory state.persistedMode).2 = false) :
    Kept run sys mode confirmed ↔ (regulatory = true →
      ¬ (Unsynced run.persist sys.files ∨ Unreverted run.persist sys.files state.persistedMode)) := by
  have hreach := attempt_reached hattempt
  have hset := setJson_of_reached hmode hattempt
  rw [if_neg (by rw [hfail]; exact Bool.false_ne_true)] at hset
  -- the reply is a failure, the files are as persisting has left them
  have hreply : (setJson run sys mode confirmed).2.ok = false ∧
      (setJson run sys mode confirmed).1.files =
        (persistSelection run.persist sys'.files regulatory state.persistedMode).1 ∧
      (regulatory = true → (setJson run sys mode confirmed).2.reason ≠ NOT_RESTORED →
        sys.knob ≠ some true → (setJson run sys mode confirmed).1.knob ≠ some true) := by
    rw [hset]
    cases already with
    | true =>
      rw [if_pos rfl]
      refine ⟨rfl, rfl, ?_⟩
      rintro rfl - hbefore
      rw [(hreach.untouched rfl).1]
      exact hbefore
    | false =>
      rw [if_neg Bool.false_ne_true]
      obtain ⟨hok, hfiles, hknob⟩ := rollback_spec run.restore
        { sys' with
          files := (persistSelection run.persist sys'.files regulatory state.persistedMode).1 }
        (run.country.getD []) (collect run.first sys) state "persistence_write_failed"
      refine ⟨hok, hfiles, fun _ hreason _ => ?_⟩
      rw [hknob hreason]
      exact fun h => by cases h
  obtain ⟨hok, hfiles, hknob⟩ := hreply
  unfold Kept
  rw [hok]
  constructor
  · rintro ⟨-, hrefused⟩ rfl
    rw [hreach.files] at hfail hfiles
    rw [← persistSelection_failed hreach.clear hreach.persisted.1 hfail, ← hfiles]
    exact (hrefused rfl hmode).files
  · intro h
    refine ⟨fun hfalse => (by cases hfalse), fun _ hreg => ?_⟩
    have heq : regulatory = true := modeText_injective (some.inj (hmode.symm.trans hreg))
    subst heq
    refine ⟨?_, hknob rfl⟩
    rw [hreach.files] at hfail hfiles
    rw [hfiles, persistSelection_failed hreach.clear hreach.persisted.1 hfail]
    exact h rfl

omit hmode in
/-- The knob disagrees with a mode that is persisted only where it was misread. -/
theorem knob_iff
    (hok : (persistSelection run.persist sys'.files regulatory state.persistedMode).2 = true) :
    ¬ (regulatory = false ∧ Misread run sys confirmed) ↔ sys'.knob = some regulatory := by
  have hreach := attempt_reached hattempt
  constructor
  · intro hnot
    rcases hreach.knob with hknob | ⟨rfl, rfl, hknob, hread⟩
    · exact hknob
    · have hsame := (hreach.untouched rfl).1
      subst hsame
      exact absurd ⟨rfl, hknob, hread, state, gates_of_already hattempt, hreach.proved, hok⟩ hnot
  · rintro hknob ⟨rfl, hset, -, state₂, hgates, hstate, -⟩
    rw [attempt_already hgates hstate] at hattempt
    cases hattempt
    rw [hset] at hknob
    cases hknob

end

/-- **A request keeps both promises exactly where none of the three courses is taken.** -/
theorem kept_iff (run : Run) (sys : System) (mode : Option (List Char)) (confirmed : Bool) :
    Kept run sys mode confirmed ↔ ¬ (mode = some CALIBRATED ∧ Misread run sys confirmed) ∧
        ¬ (mode = some REGULATORY ∧ Lingers run sys confirmed) := by
  cases hrequest : request mode with
  | error reason =>
    -- neither mode is asked for, and nothing is done
    have hnone : ∀ regulatory, mode ≠ some (modeText regulatory) := by
      intro regulatory hmode
      rw [request_eq_ok.mpr hmode] at hrequest
      cases hrequest
    have hreply : (setJson run sys mode confirmed).2.ok = false := by
      unfold setJson
      rw [hrequest]
      rfl
    refine iff_of_true ⟨fun h => ?_, fun _ hmode => absurd hmode (hnone true)⟩
      ⟨fun h => hnone false h.1, fun h => hnone true h.1⟩
    rw [hreply] at h
    cases h
  | ok regulatory =>
    have hmode := request_eq_ok.mp hrequest
    cases hattempt : attempt run sys regulatory confirmed with
    | mk sys' outcome =>
      cases outcome with
      | inl reply =>
        have hset := setJson_of_failed hmode hattempt
        obtain ⟨hok, hfiles, hknob⟩ := attempt_failed (by rw [hattempt])
        rw [hattempt] at hfiles hknob
        refine iff_of_true ⟨fun h => ?_, fun _ _ => ?_⟩ ⟨?_, ?_⟩
        · rw [hset, hok] at h
          cases h
        · rw [hset]
          refine ⟨?_, fun hreason hbefore => ?_⟩
          · rw [hfiles]
            exact not_newlyRegulatory_self _
          · rcases hknob hreason with heq | heq
            · rw [heq]
              exact hbefore
            · rw [heq]
              exact fun h => by cases h
        · rintro ⟨hcal, -, -, state, hgates, hstate, -⟩
          have heq : regulatory = false := modeText_injective (some.inj (hmode.symm.trans hcal))
          subst heq
          rw [attempt_already hgates hstate] at hattempt
          cases hattempt
        · rintro ⟨hreg, sys₂, state, already, hlabel, -⟩
          have heq : regulatory = true := modeText_injective (some.inj (hmode.symm.trans hreg))
          subst heq
          rw [hattempt] at hlabel
          cases hlabel
      | inr label =>
        obtain ⟨state, already⟩ := label
        have hreach := attempt_reached hattempt
        have hset := setJson_of_reached hmode hattempt
        by_cases hok :
            (persistSelection run.persist sys'.files regulatory state.persistedMode).2 = true
        · have hlingers : ¬ (mode = some REGULATORY ∧ Lingers run sys confirmed) := by
            rintro ⟨hreg, sys₂, state₂, already₂, hlabel, hcourse⟩
            have heq : regulatory = true := modeText_injective (some.inj (hmode.symm.trans hreg))
            subst heq
            rw [hattempt] at hlabel
            cases hlabel
            rw [hreach.files, persistSelection_of_course hreach.clear hcourse] at hok
            cases hok
          rw [and_iff_left hlingers, kept_of_persisted hmode hattempt hok, ← knob_iff hattempt hok]
          refine not_congr (and_congr_left' ?_)
          rw [hmode]
          exact ⟨fun h => congrArg some (congrArg modeText h),
            fun h => modeText_injective (some.inj h)⟩
        · rw [Bool.not_eq_true] at hok
          have hread : ¬ (mode = some CALIBRATED ∧ Misread run sys confirmed) := by
            rintro ⟨hcal, -, -, state₂, hgates, hstate, hpersisted⟩
            have heq : regulatory = false := modeText_injective (some.inj (hmode.symm.trans hcal))
            subst heq
            rw [attempt_already hgates hstate] at hattempt
            cases hattempt
            rw [hpersisted] at hok
            cases hok
          rw [and_iff_right hread, kept_of_not_persisted hmode hattempt hok, hmode]
          constructor
          · rintro h ⟨hreg, sys₂, state₂, already₂, hlabel, hcourse⟩
            have heq : regulatory = true := modeText_injective (some.inj hreg)
            subst heq
            rw [hattempt] at hlabel
            cases hlabel
            exact h rfl hcourse
          · rintro h rfl hcourse
            exact h ⟨rfl, sys', state, already, hattempt, hcourse⟩

/-! ### A directory that is not synchronised -/

def replaced : Replace := ⟨true, true, true, true, true, true, true⟩

def bootRun (replace : Replace) : BootRun := ⟨true, true, true, true, replace⟩

/-- A qualified board whose knob reads, with one access point at the given power. -/
def readings (ceiling power : ℤ) : Readings where
  boardName := "gemtek,w1700k-ubi".toList
  iw := true
  paramOpen := true
  paramRead := true
  persist := .done
  regCeiling := 360
  ceiling := ceiling
  dev := some ⟨true, [("wlan2".toList, power)]⟩

/-- A transaction all of whose steps succeed. -/
def applied : Apply where
  wifi := true
  down := true
  inventory := fun _ => some ⟨false, []⟩
  write := .done
  world := true
  restore := true
  country := some "US".toList
  up := true

/-- Every step succeeds, but for the synchronisation of the boot file's directory. -/
def unsyncedRun : Run where
  uci := true
  first := readings 300 230
  iw := true
  radio := some "radio2".toList
  check := bootRun replaced
  singlePhy := true
  country := some "US".toList
  apply := applied
  after := fun _ => readings 360 350
  restore := ⟨applied, fun _ => readings 300 230⟩
  persist := ⟨bootRun { replaced with syncDir := false }, replaced, replaced, true,
    bootRun replaced⟩

def calibratedSystem : System := ⟨some false, ⟨none, some (CALIBRATED ++ ['\n'])⟩⟩

/-- The request fails and the radios are calibrated again, but the next boot arms the high power. -/
theorem boot_left_armed : ¬ Kept unsyncedRun calibratedSystem (some REGULATORY) true := by
  have hreply : (setJson unsyncedRun calibratedSystem (some REGULATORY) true).2.ok = false := by
    decide +kernel
  have harmed : Armed (setJson unsyncedRun calibratedSystem (some REGULATORY) true).1.files.boot := by
    decide +kernel
  have hbefore : ¬ Armed calibratedSystem.files.boot := by decide
  exact fun h => (h.2 hreply rfl).files (.inl ⟨harmed, hbefore⟩)

end DreamingOS.TxPower
