import DreamingOS.TxPower.Persist

namespace DreamingOS.TxPower

/-!
# Transmit power — the state that is read

The volatile knob of the driver and the two files are the system; what the commands and the reads
of one collection return are its `Readings`.

* `collect` — the state as `apd_txpower_mode_state_collect` fills it;
* `calibratedStateOk`, `regulatoryStateOk`, `activeMatches` — the checks on a state.
-/

def REQUIRED_REG_CEILING_X10 : ℤ := 350
def ACTIVE_IFACE_MAX : ℕ := 8

/-- The boards that may drop the factory ceiling, by the prefix of their name. -/
def allowedBoards : List (List Char) := ["gemtek,w1700k".toList]

def boardAllowed (boardName : List Char) : Bool :=
  boardName ≠ [] && allowedBoards.any fun board => board.isPrefixOf boardName

/-- The knob, the files.  There is no knob where the driver is not the patched one. -/
structure System where
  knob : Option Bool
  files : Files

/-! ### The knob -/

/-- `apd_txpower_param_read`: the value and whether the knob is there.  Both are what they were set
    to at first where a call fails. -/
def paramRead (opened read : Bool) (knob : Option Bool) : Bool × Bool :=
  match knob with
  | none => (false, false)
  | some value => if !opened then (false, false) else if !read then (false, true) else (value, true)

/-- What the calls of `apd_txpower_param_write` return; a write that fails may have had its
    effect. -/
inductive WriteRun where
  | done
  | openFails
  | writeFails (took : Bool)

/-- `apd_txpower_param_write`: the knob afterwards, and whether 0 is returned. -/
def paramWrite (run : WriteRun) (knob : Option Bool) (on : Bool) : Option Bool × Bool :=
  match knob, run with
  | none, _ => (none, false)
  | some _, .done => (some on, true)
  | some value, .openFails => (some value, false)
  | some value, .writeFails took => (some (if took then on else value), false)

/-! ### Collecting -/

/-- What `iw dev` prints: whether it lists an interface, and the 6 GHz access points with their
    power in tenths of a dBm. -/
structure Inventory where
  interfaces : Bool
  active : List (List Char × ℤ)

/-- What one collection reads.  A ceiling that is not found is negative; no inventory is a command
    that fails. -/
structure Readings where
  boardName : List Char
  (iw paramOpen paramRead : Bool)
  persist : ReadRun
  (regCeiling ceiling : ℤ)
  dev : Option Inventory

/-- `struct apd_txpower_mode_state`. -/
structure State where
  mode : List Char := []
  persistedMode : List Char := []
  boardName : List Char := []
  reason : String := ""
  radio : List Char := []
  active : List (List Char × ℤ) := []
  boardAllowed : Bool := false
  paramPresent : Bool := false
  regdbReady : Bool := false
  supported : Bool := false
  ceiling : ℤ := -1
  regulatoryCeiling : ℤ := -1
  inventoryOk : Bool := false
  interfacesPresent : Bool := false
  readbackOk : Bool := false
  overflow : Bool := false
  radioReloadPerformed : Bool := false
  radioReloadOk : Bool := false
  rollbackPerformed : Bool := false
  rollbackOk : Bool := false

/-- `apd_txpower_collect_active`. -/
def collectActive (dev : Option Inventory) (out : State) : State :=
  match dev with
  | none => out
  | some inventory =>
    let out := { out with
      inventoryOk := true
      interfacesPresent := inventory.interfaces
      active := inventory.active.take ACTIVE_IFACE_MAX
      overflow := ACTIVE_IFACE_MAX < inventory.active.length }
    if out.active.length = 0 ∨ out.overflow = true then out else { out with readbackOk := true }

/-- Why the regulatory mode is not supported. -/
def unsupported (allowed present : Bool) (regCeiling : ℤ) : String :=
  if !allowed then "board_not_standard_power_capable"
  else if !present then "driver_txpower_param_absent"
  else if regCeiling < 0 then "regdb_ceiling_unavailable"
  else if regCeiling < REQUIRED_REG_CEILING_X10 then "regdb_ceiling_insufficient"
  else ""

/-- `apd_txpower_mode_state_collect`. -/
def collect (r : Readings) (sys : System) : State :=
  let allowed := TxPower.boardAllowed r.boardName
  let (value, present) := paramRead r.paramOpen r.paramRead sys.knob
  let regCeiling := if r.iw then r.regCeiling else -1
  let regdbReady : Bool := REQUIRED_REG_CEILING_X10 ≤ regCeiling
  let out : State := {
    boardName := r.boardName
    boardAllowed := allowed
    paramPresent := present
    mode := modeText value
    persistedMode := (persistRead r.persist sys.files.selection).getD []
    regulatoryCeiling := regCeiling
    regdbReady := regdbReady
    supported := allowed && present && regdbReady
    reason := unsupported allowed present regCeiling
    ceiling := if r.iw then r.ceiling else -1 }
  if r.iw then collectActive r.dev out else out

/-! ### The checks -/

/-- `apd_txpower_active_max_x10`. -/
def activeMax (state : State) : ℤ :=
  state.active.foldl (fun best iface => if best < iface.2 then iface.2 else best) (-1)

/-- `apd_txpower_active_matches`. -/
def activeMatches (expected actual : State) : Bool :=
  if !expected.readbackOk || !actual.readbackOk || expected.overflow || actual.overflow ||
      expected.active.length ≠ actual.active.length then false
  else
    expected.active.all fun iface =>
      match actual.active.find? fun other => iface.1 = other.1 with
      | none => false
      | some other => iface.2 = other.2

/-- `apd_txpower_calibrated_state_ok`. -/
def calibratedStateOk (state : State) : Bool :=
  if state.mode ≠ CALIBRATED || !state.readbackOk || state.overflow || state.active.length = 0 then
    false
  else
    0 ≤ state.ceiling && 0 ≤ activeMax state && state.ceiling < REQUIRED_REG_CEILING_X10 &&
      activeMax state ≤ state.ceiling

/-- `apd_txpower_regulatory_state_ok`. -/
def regulatoryStateOk (state : State) : Bool :=
  if state.mode ≠ REGULATORY || state.ceiling < REQUIRED_REG_CEILING_X10 || !state.readbackOk ||
      state.overflow then false
  else 0 ≤ activeMax state && activeMax state ≤ state.ceiling

/-- The check on the state that a request asks for. -/
def stateOk (regulatory : Bool) (state : State) : Bool :=
  if regulatory then regulatoryStateOk state else calibratedStateOk state

/-! ### What the checks say -/

theorem le_foldl_max (best : ℤ) (ls : List (List Char × ℤ)) :
    best ≤ ls.foldl (fun best iface => if best < iface.2 then iface.2 else best) best ∧
      ∀ iface ∈ ls,
        iface.2 ≤ ls.foldl (fun best iface => if best < iface.2 then iface.2 else best) best := by
  induction ls generalizing best with
  | nil => exact ⟨le_refl _, fun _ h => absurd h List.not_mem_nil⟩
  | cons iface ls ih =>
    obtain ⟨hbest, hall⟩ := ih (if best < iface.2 then iface.2 else best)
    rw [List.foldl_cons]
    constructor
    · refine le_trans ?_ hbest
      split <;> omega
    · intro other hother
      rcases List.mem_cons.mp hother with rfl | hother
      · refine le_trans ?_ hbest
        split <;> omega
      · exact hall other hother

theorem le_activeMax {state : State} {iface : List Char × ℤ} (h : iface ∈ state.active) :
    iface.2 ≤ activeMax state := (le_foldl_max (-1) state.active).2 iface h

/-- The live power of a state that passes the check for the regulatory mode. -/
theorem regulatoryStateOk_spec {state : State} (h : regulatoryStateOk state = true) :
    state.mode = REGULATORY ∧ REQUIRED_REG_CEILING_X10 ≤ state.ceiling ∧ state.active ≠ [] ∧
      ∀ iface ∈ state.active, iface.2 ≤ state.ceiling := by
  unfold regulatoryStateOk at h
  split at h
  · cases h
  rename_i hcond
  rw [Bool.and_eq_true, decide_eq_true_eq, decide_eq_true_eq] at h
  obtain ⟨hmax, hle⟩ := h
  simp only [Bool.or_eq_true, decide_eq_true_eq, not_or, not_not, not_lt] at hcond
  refine ⟨hcond.1.1.1, hcond.1.1.2, ?_, fun iface hiface => (le_activeMax hiface).trans hle⟩
  intro hnil
  unfold activeMax at hmax
  rw [hnil] at hmax
  exact absurd hmax (by decide)

theorem mode_of_stateOk {regulatory : Bool} {state : State} (h : stateOk regulatory state = true) :
    state.mode = modeText regulatory := by
  unfold stateOk at h
  cases regulatory with
  | true => exact (regulatoryStateOk_spec h).1
  | false =>
    rw [if_neg Bool.false_ne_true] at h
    unfold calibratedStateOk at h
    split at h
    · cases h
    rename_i hcond
    simp only [Bool.or_eq_true, decide_eq_true_eq, not_or, not_not] at hcond
    exact hcond.1.1.1

/-! ### What a collection says of the system -/

variable {r : Readings} {sys : System}

/-- The inventory adds nothing about the mode. -/
theorem collectActive_fields (dev : Option Inventory) (out : State) :
    (collectActive dev out).mode = out.mode ∧
      (collectActive dev out).persistedMode = out.persistedMode ∧
      (collectActive dev out).boardAllowed = out.boardAllowed ∧
      (collectActive dev out).paramPresent = out.paramPresent ∧
      (collectActive dev out).regulatoryCeiling = out.regulatoryCeiling ∧
      (collectActive dev out).regdbReady = out.regdbReady := by
  unfold collectActive
  cases dev with
  | none => exact ⟨rfl, rfl, rfl, rfl, rfl, rfl⟩
  | some inventory =>
    dsimp only
    split <;> exact ⟨rfl, rfl, rfl, rfl, rfl, rfl⟩

theorem collect_fields : (collect r sys).mode =
      modeText (paramRead r.paramOpen r.paramRead sys.knob).1 ∧
      (collect r sys).persistedMode = (persistRead r.persist sys.files.selection).getD [] ∧
      (collect r sys).boardAllowed = TxPower.boardAllowed r.boardName ∧
      (collect r sys).paramPresent = (paramRead r.paramOpen r.paramRead sys.knob).2 ∧
      (collect r sys).regulatoryCeiling = (if r.iw then r.regCeiling else -1) ∧
      (collect r sys).regdbReady =
        decide (REQUIRED_REG_CEILING_X10 ≤ (collect r sys).regulatoryCeiling) := by
  unfold collect
  dsimp only
  split
  · obtain ⟨h1, h2, h3, h4, h5, h6⟩ := collectActive_fields r.dev _
    rw [h1, h2, h3, h4, h5, h6]
    exact ⟨rfl, rfl, rfl, rfl, rfl, rfl⟩
  · exact ⟨rfl, rfl, rfl, rfl, rfl, rfl⟩

theorem modeText_injective {a b : Bool} (h : modeText a = modeText b) : a = b := by
  cases a <;> cases b <;> first | rfl | exact absurd h (by decide)

/-- The regulatory mode is only read where the knob is set. -/
theorem knob_of_collect_regulatory (h : (collect r sys).mode = modeText true) :
    sys.knob = some true := by
  have hvalue := modeText_injective (collect_fields.1.symm.trans h)
  unfold paramRead at hvalue
  split at hvalue
  · cases hvalue
  rename_i value hknob
  split at hvalue
  · cases hvalue
  split at hvalue
  · cases hvalue
  · replace hvalue : value = true := hvalue
    rw [hknob, hvalue]

/-- The calibrated mode is also read where the knob is set, and its read fails. -/
theorem misread_of_collect_calibrated (h : (collect r sys).mode = modeText false)
    (hpresent : (collect r sys).paramPresent = true) :
    sys.knob = some false ∨ sys.knob = some true ∧ r.paramRead = false := by
  have hvalue := modeText_injective (collect_fields.1.symm.trans h)
  rw [collect_fields.2.2.2.1] at hpresent
  cases hknob : sys.knob with
  | none =>
    rw [hknob] at hpresent
    cases hpresent
  | some value =>
    rw [hknob] at hpresent hvalue
    cases value with
    | false => exact .inl rfl
    | true =>
      refine .inr ⟨rfl, ?_⟩
      unfold paramRead at hpresent hvalue
      dsimp only at hpresent hvalue
      split at hpresent
      · cases hpresent
      rename_i hopen
      rw [if_neg hopen] at hvalue
      split at hvalue
      · next hread => simpa using hread
      · cases hvalue

theorem knob_ne_none_of_present (hpresent : (collect r sys).paramPresent = true) :
    sys.knob.isSome = true := by
  rw [collect_fields.2.2.2.1] at hpresent
  unfold paramRead at hpresent
  split at hpresent
  · cases hpresent
  rename_i hknob
  rw [hknob]
  rfl

/-- The selection that is read is the one that is persisted, where one is read. -/
theorem persistedMode_collect :
    ((collect r sys).persistedMode = [] ∨ (collect r sys).persistedMode = CALIBRATED ∨
      (collect r sys).persistedMode = REGULATORY) ∧
    ∀ regulatory, (collect r sys).persistedMode = modeText regulatory →
      selected sys.files.selection = some (modeText regulatory) := by
  rw [collect_fields.2.1]
  cases hread : persistRead r.persist sys.files.selection with
  | none =>
    refine ⟨.inl rfl, fun regulatory h => ?_⟩
    cases regulatory <;> exact absurd h (by decide)
  | some mode =>
    obtain ⟨which, hmode⟩ := eq_modeText_of_persistRead hread
    have hsel := selected_of_persistRead hread
    rw [Option.getD_some]
    constructor
    · rw [hmode]
      cases which with
      | false => exact .inr (.inl rfl)
      | true => exact .inr (.inr rfl)
    · intro regulatory h
      rw [hsel, h]

end DreamingOS.TxPower
