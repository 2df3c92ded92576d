import DreamingOS.TxPower.State
import DreamingOS.Lib.Outcome

namespace DreamingOS.TxPower

/-!
# Transmit power — a request for a mode

`apd_txpower_mode_set_json`: the gates, the transaction on the quiesced radios, the rollback, and
what is persisted.

* `applyQuiesced` — the radios are stopped, the knob written, the country set again;
* `restoreCalibrated` — the one rollback of a request;
* `gates`, `attempt` — everything up to the label `persist`;
* `setJson` — the whole request, with its reply.
-/

/-! ### The transaction -/

inductive ApplyResult where
  | ok
  | stopFailed
  | paramFailed
  | regFailed
  | startFailed
deriving DecidableEq

/-- What the steps of `apd_txpower_apply_quiesced` return: the command is found, the radios go down,
    the inventories afterwards, the write of the knob, the two settings of the country and the
    country that is read back, the radios come up. -/
structure Apply where
  (wifi down : Bool)
  inventory : ℕ → Option Inventory
  write : WriteRun
  (world restore : Bool)
  country : Option (List Char)
  up : Bool

/-- No interface is left. -/
def isQuiet (dev : Option Inventory) : Bool :=
  (collectActive dev {}).inventoryOk && !(collectActive dev {}).interfacesPresent

/-- `apd_txpower_reapply`. -/
def reapply (run : Apply) (country : List Char) : Bool :=
  country ≠ [] && run.world && run.restore && run.country = some country

/-- `apd_txpower_apply_quiesced`. -/
def applyQuiesced (run : Apply) (knob : Option Bool) (country : List Char) (regulatory : Bool) :
    Option Bool × ApplyResult :=
  if !run.wifi then (knob, .stopFailed)
  else
    let quiet := run.down && (List.range 8).any fun attempt => isQuiet (run.inventory attempt)
    let (knob, rc) :=
      if !quiet then (knob, ApplyResult.stopFailed)
      else
        match paramWrite run.write knob regulatory with
        | (knob, false) => (knob, .paramFailed)
        | (knob, true) => (knob, if reapply run country then .ok else .regFailed)
    -- the radios are started also after a stop that has failed
    (knob, if !run.up && rc = .ok then .startFailed else rc)

/-- The attempts of `apd_txpower_collect_after_apply` that are left. -/
def collectAttempts (after : ℕ → Readings) (sys : System) (attempt : ℕ) : ℕ → State
  | 0 => collect (after attempt) sys
  | left + 1 =>
    let out := collect (after attempt) sys
    if out.readbackOk then out else collectAttempts after sys (attempt + 1) left

/-- `apd_txpower_collect_after_apply`: ten collections at most. -/
def collectAfter (after : ℕ → Readings) (sys : System) : State := collectAttempts after sys 0 9

/-- What the steps of `apd_txpower_restore_calibrated` return. -/
structure Restore where
  apply : Apply
  after : ℕ → Readings

/-- `apd_txpower_restore_calibrated`: the knob, the state, and whether 0 is returned. -/
def restoreCalibrated (run : Restore) (sys : System) (radio country : List Char)
    (expected out : State) : System × State × Bool :=
  if radio = [] then (sys, out, false)
  else
    let (knob, rc) := applyQuiesced run.apply sys.knob country false
    let sys := { sys with knob := knob }
    let out := collectAfter run.after sys
    let ok := rc = .ok && calibratedStateOk out
    let ok :=
      if ok && expected.mode = CALIBRATED && expected.readbackOk then activeMatches expected out
      else ok
    let out := { out with
      radio := radio
      radioReloadPerformed := true
      radioReloadOk := rc = .ok
      rollbackPerformed := true
      rollbackOk := ok }
    (sys, out, ok)

/-! ### The request -/

/-- The reply, less the fields that are the same in every failure or every success. -/
inductive Reply where
  | failed (reason : String) (state : Option State)
  | applied (requestedMode : List Char) (alreadyApplied : Bool) (state : State)

def Reply.ok : Reply → Bool
  | .failed _ _ => false
  | .applied _ _ _ => true

def Reply.reason : Reply → String
  | .failed reason _ => reason
  | .applied _ _ _ => ""

/-- What the steps of `apd_txpower_mode_set_json` return.  At most one of its exits restores the
    calibrated mode. -/
structure Run where
  uci : Bool
  first : Readings
  iw : Bool
  radio : Option (List Char)
  check : BootRun
  singlePhy : Bool
  country : Option (List Char)
  apply : Apply
  after : ℕ → Readings
  restore : Restore
  persist : PersistRun

/-- The mode that is asked for. -/
def request (mode : Option (List Char)) : Except String Bool :=
  match mode with
  | none => .error "mode_required"
  | some mode =>
    if mode = [] then .error "mode_required"
    else if mode = REGULATORY then .ok true
    else if mode = CALIBRATED then .ok false
    else .error "unknown_mode"

/-- The gates before anything is changed. -/
def gates (run : Run) (sys : System) (regulatory confirmed : Bool) : Except (String × State) State :=
  let state := collect run.first sys
  if !run.iw then .error ("iw_unavailable", state)
  else
    match (if run.uci then run.radio else none) with
    | none => .error ("six_ghz_radio_not_found", state)
    | some radio =>
      let state := { state with radio := radio }
      if !state.boardAllowed then .error ("board_not_standard_power_capable", state)
      else if !state.paramPresent then .error ("driver_txpower_param_absent", state)
      else if regulatory && state.regulatoryCeiling < 0 then
        .error ("regdb_ceiling_unavailable", state)
      else if regulatory && !state.regdbReady then .error ("regdb_ceiling_insufficient", state)
      else if regulatory && !confirmed then .error ("confirmation_required", state)
      else if !state.inventoryOk then .error ("wireless_inventory_unavailable", state)
      else if !(bootConfig run.check sys.files.boot regulatory false).2 then
        .error ("boot_module_config_conflict", state)
      else .ok state

/-- The failure of a transaction. -/
def applyReason (regulatory : Bool) : ApplyResult → String
  | .paramFailed => "param_write_failed"
  | .regFailed => if regulatory then "regulatory_reapply_failed" else "calibrated_reapply_failed"
  | .stopFailed => "wireless_quiesce_failed"
  | _ => "radio_reload_failed"

def NOT_RESTORED : String := "calibrated_interface_not_restored"

/-- A failure after the transaction: the calibrated mode is restored, and the reply says whether
    that has succeeded. -/
def rollback (run : Restore) (sys : System) (country : List Char) (baseline state : State)
    (reason : String) : System × Reply :=
  let (sys, state, ok) := restoreCalibrated run sys state.radio country baseline state
  (sys, .failed (if ok then reason else NOT_RESTORED) (some state))

/-- A request up to the label `persist`: a failure, or the state that is persisted and whether it
    was there already. -/
def attempt (run : Run) (sys : System) (regulatory confirmed : Bool) :
    System × (Reply ⊕ State × Bool) :=
  match gates run sys regulatory confirmed with
  | .error (reason, state) => (sys, .inl (.failed reason (some state)))
  | .ok state =>
    if stateOk regulatory state then (sys, .inr (state, true))
    else if !confirmed then (sys, .inl (.failed "confirmation_required" (some state)))
    else if !run.singlePhy then (sys, .inl (.failed "shared_phy_scope_unavailable" (some state)))
    else
      match run.country with
      | none => (sys, .inl (.failed "operating_country_unavailable" (some state)))
      | some country =>
        let baseline := collect run.first sys
        let (knob, rc) := applyQuiesced run.apply sys.knob country regulatory
        let sys := { sys with knob := knob }
        let state := { state with radioReloadPerformed := true, radioReloadOk := rc = .ok }
        if rc ≠ .ok then
          let (sys, reply) :=
            rollback run.restore sys country baseline state (applyReason regulatory rc)
          (sys, .inl reply)
        else
          let state := { collectAfter run.after sys with
            radio := state.radio
            radioReloadPerformed := true
            radioReloadOk := true }
          if !stateOk regulatory state then
            let (sys, reply) := rollback run.restore sys country baseline state
              (if regulatory then "active_interface_txpower_not_applied"
                else "calibrated_mode_not_applied")
            (sys, .inl reply)
          else (sys, .inr (state, false))

/-- `apd_txpower_mode_set_json`. -/
def setJson (run : Run) (sys : System) (mode : Option (List Char)) (confirmed : Bool) :
    System × Reply :=
  match request mode with
  | .error reason => (sys, .failed reason none)
  | .ok regulatory =>
    let baseline := collect run.first sys
    match attempt run sys regulatory confirmed with
    | (sys, .inl reply) => (sys, reply)
    | (sys, .inr (state, already)) =>
      let (files, ok) := persistSelection run.persist sys.files regulatory state.persistedMode
      let sys := { sys with files := files }
      if ok then
        (sys, .applied (modeText regulatory) already
          { state with persistedMode := modeText regulatory })
      else if already then (sys, .failed "persistence_write_failed" (some state))
      else
        rollback run.restore sys (run.country.getD []) baseline state "persistence_write_failed"

/-! ### What the steps do to the knob -/

variable {knob : Option Bool}

theorem paramWrite_eq_true {run : WriteRun} {knob' : Option Bool} {on : Bool}
    (h : paramWrite run knob on = (knob', true)) : knob' = some on ∧ knob.isSome = true := by
  unfold paramWrite at h
  split at h
  · cases h
  · cases h
    exact ⟨rfl, rfl⟩
  · cases h
  · cases h

variable {regulatory : Bool} {country : List Char}

/-- **A transaction that succeeds has written the knob.** -/
theorem applyQuiesced_ok {run : Apply} (h : (applyQuiesced run knob country regulatory).2 = .ok) :
    (applyQuiesced run knob country regulatory).1 = some regulatory := by
  unfold applyQuiesced at h ⊢
  split at h
  · cases h
  rename_i hwifi
  rw [if_neg hwifi]
  dsimp only at h ⊢
  by_cases hquiet : (!(run.down && (List.range 8).any fun attempt =>
      isQuiet (run.inventory attempt))) = true
  · rw [if_pos hquiet] at h
    split at h <;> cases h
  rw [if_neg hquiet] at h ⊢
  cases hwrite : paramWrite run.write knob regulatory with
  | mk knob' done =>
    rw [hwrite] at h
    cases done with
    | true => exact (paramWrite_eq_true hwrite).1
    | false =>
      dsimp only at h
      split at h <;> cases h

variable {sys : System}

/-- **A rollback that succeeds has cleared the knob.** -/
theorem restoreCalibrated_ok {run : Restore} {radio : List Char}
    {expected out : State} (h : (restoreCalibrated run sys radio country expected out).2.2 = true) :
    (restoreCalibrated run sys radio country expected out).1.knob = some false := by
  unfold restoreCalibrated at h ⊢
  split at h
  · cases h
  rename_i hradio
  rw [if_neg hradio]
  dsimp only at h ⊢
  apply applyQuiesced_ok
  by_contra hrc
  rw [decide_eq_false hrc, Bool.false_and] at h
  simp at h

/-- A rollback does not touch the files. -/
theorem restoreCalibrated_files (run : Restore) (sys : System) (radio country : List Char)
    (expected out : State) :
    (restoreCalibrated run sys radio country expected out).1.files = sys.files := by
  unfold restoreCalibrated
  split <;> rfl

/-- The reply of a rollback, and the files and the knob after it. -/
theorem rollback_spec (run : Restore) (sys : System) (country : List Char) (baseline state : State)
    (reason : String) :
    (rollback run sys country baseline state reason).2.ok = false ∧
      (rollback run sys country baseline state reason).1.files = sys.files ∧
      ((rollback run sys country baseline state reason).2.reason ≠ NOT_RESTORED →
        (rollback run sys country baseline state reason).1.knob = some false) := by
  unfold rollback
  dsimp only
  refine ⟨rfl, restoreCalibrated_files _ _ _ _ _ _, fun hreason => restoreCalibrated_ok ?_⟩
  by_contra hok
  apply hreason
  unfold Reply.reason
  dsimp only
  rw [if_neg hok]

/-- Ten collections read one system. -/
theorem collectAfter_eq (after : ℕ → Readings) (sys : System) :
    ∃ attempt, collectAfter after sys = collect (after attempt) sys := by
  suffices h : ∀ left start, ∃ attempt,
      collectAttempts after sys start left = collect (after attempt) sys from h 9 0
  intro left
  induction left with
  | zero => exact fun start => ⟨start, rfl⟩
  | succ left ih =>
    intro start
    unfold collectAttempts
    dsimp only
    split
    · exact ⟨start, rfl⟩
    · exact ih (start + 1)

/-! ### The gates -/

/-- What the gates have checked. -/
structure Passed (run : Run) (sys : System) (regulatory confirmed : Bool) (state : State) :
    Prop where
  collected : ∃ radio, state = { collect run.first sys with radio := radio }
  board : boardAllowed run.first.boardName = true
  present : (collect run.first sys).paramPresent = true
  ceiling : regulatory = true → REQUIRED_REG_CEILING_X10 ≤ (collect run.first sys).regulatoryCeiling
  confirmed : regulatory = true → confirmed = true
  clear : Clear (fileLines sys.files.boot)

variable {run : Run} {confirmed : Bool} {state : State}

theorem gates_ok (h : gates run sys regulatory confirmed = .ok state) :
    Passed run sys regulatory confirmed state := by
  obtain ⟨-, -, hboard, -, -, hready⟩ := collect_fields (r := run.first)
  unfold gates at h
  dsimp only at h
  replace h := (Outcome.passed h nofun).2
  split at h
  · cases h
  rename_i radio _
  obtain ⟨hallowed, h⟩ := Outcome.passed h nofun
  obtain ⟨hpresent, h⟩ := Outcome.passed h nofun
  replace h := (Outcome.passed h nofun).2
  obtain ⟨hregdb, h⟩ := Outcome.passed h nofun
  obtain ⟨hconfirmed, h⟩ := Outcome.passed h nofun
  replace h := (Outcome.passed h nofun).2
  obtain ⟨hboot, h⟩ := Outcome.passed h nofun
  refine ⟨⟨radio, (Except.ok.inj h).symm⟩, ?_, by simpa using hpresent, ?_, ?_, ?_⟩
  · rw [← hboard]
    simpa using hallowed
  · rintro rfl
    rw [hready] at hregdb
    simpa using hregdb
  · rintro rfl
    simpa using hconfirmed
  · by_contra hclear
    rw [bootConfig_of_not_clear hclear] at hboot
    exact hboot rfl

/-! ### Up to the label -/

/-- What a request has done to the system when it fails before the label. -/
theorem attempt_failed {reply : Reply} (h : (attempt run sys regulatory confirmed).2 = .inl reply) :
    reply.ok = false ∧ (attempt run sys regulatory confirmed).1.files = sys.files ∧
      (reply.reason ≠ NOT_RESTORED → (attempt run sys regulatory confirmed).1.knob = sys.knob ∨
          (attempt run sys regulatory confirmed).1.knob = some false) := by
  unfold attempt at h ⊢
  split at h
  · cases h
    exact ⟨rfl, rfl, fun _ => .inl rfl⟩
  rename_i state _
  dsimp only at h ⊢
  split at h
  · cases h
  rename_i hstate
  rw [if_neg hstate]
  split at h
  · next hconf =>
    rw [if_pos hconf]
    cases h
    exact ⟨rfl, rfl, fun _ => .inl rfl⟩
  · next hconf =>
    rw [if_neg hconf]
    split at h
    · next hphy =>
      rw [if_pos hphy]
      cases h
      exact ⟨rfl, rfl, fun _ => .inl rfl⟩
    · next hphy =>
      rw [if_neg hphy]
      split at h
      · cases h
        exact ⟨rfl, rfl, fun _ => .inl rfl⟩
      rename_i country _
      split at h
      · next hrc =>
        rw [if_pos hrc]
        cases h
        obtain ⟨hok, hfiles, hknob⟩ := rollback_spec run.restore
          { sys with knob := (applyQuiesced run.apply sys.knob country regulatory).1 }
          country (collect run.first sys)
          { state with
            radioReloadPerformed := true
            radioReloadOk := decide ((applyQuiesced run.apply sys.knob country
              regulatory).2 = .ok) }
          (applyReason regulatory (applyQuiesced run.apply sys.knob country regulatory).2)
        exact ⟨hok, hfiles, fun hreason => .inr (hknob hreason)⟩
      · next hrc =>
        rw [if_neg hrc]
        split at h
        · next hproved =>
          rw [if_pos hproved]
          cases h
          obtain ⟨hok, hfiles, hknob⟩ := rollback_spec run.restore
            { sys with knob := (applyQuiesced run.apply sys.knob country regulatory).1 }
            country (collect run.first sys)
            { collectAfter run.after { sys with
                knob := (applyQuiesced run.apply sys.knob country regulatory).1 } with
              radio := state.radio
              radioReloadPerformed := true
              radioReloadOk := true }
            (if regulatory then "active_interface_txpower_not_applied"
              else "calibrated_mode_not_applied")
          exact ⟨hok, hfiles, fun hreason => .inr (hknob hreason)⟩
        · cases h

/-- What is known at the label. -/
structure Reached (run : Run) (sys : System) (regulatory confirmed : Bool) (sys' : System)
    (state : State) (already : Bool) : Prop where
  passed : ∃ first, Passed run sys regulatory confirmed first
  files : sys'.files = sys.files
  /-- The state is one that a collection has read, and passes the check. -/
  collected : ∃ r, state.mode = (collect r sys').mode ∧
    state.persistedMode = (collect r sys').persistedMode
  proved : stateOk regulatory state = true
  untouched : already = true → sys' = sys ∧ state.mode = (collect run.first sys).mode ∧
    state.persistedMode = (collect run.first sys).persistedMode
  written : already = false → sys'.knob = some regulatory ∧ run.country.isSome = true

theorem attempt_reached {sys' : System} {already : Bool}
    (h : attempt run sys regulatory confirmed = (sys', .inr (state, already))) :
    Reached run sys regulatory confirmed sys' state already := by
  unfold attempt at h
  split at h
  · cases h
  rename_i first hgates
  have hpassed := gates_ok hgates
  obtain ⟨radio, hfirst⟩ := hpassed.collected
  dsimp only at h
  split at h
  · next hstate =>
    cases h
    refine ⟨⟨_, hpassed⟩, rfl, ⟨run.first, ?_, ?_⟩, hstate, fun _ => ⟨rfl, ?_, ?_⟩,
      fun h => by cases h⟩ <;> rw [hfirst]
  · replace h := (Outcome.passed h nofun).2
    replace h := (Outcome.passed h nofun).2
    split at h
    · cases h
    rename_i country hcountry
    obtain ⟨hrc, h⟩ := Outcome.passed h nofun
    obtain ⟨hproved, h⟩ := Outcome.passed h nofun
    cases h
    obtain ⟨attempt, hafter⟩ := collectAfter_eq run.after
      { sys with knob := (applyQuiesced run.apply sys.knob country regulatory).1 }
    refine ⟨⟨_, hpassed⟩, rfl, ⟨run.after attempt, ?_, ?_⟩, by simpa using hproved,
      fun h => (by cases h), fun _ => ⟨applyQuiesced_ok (not_not.mp hrc), ?_⟩⟩
    · rw [hafter]
    · rw [hafter]
    · rw [hcountry]
      rfl

end DreamingOS.TxPower
