import DreamingOS.RadioJob.Story
import Mathlib.Tactic.IntervalCases

namespace DreamingOS.RadioJob

open Option

/-!
# Radio jobs — runs of calls

* `Event`, `after`, `run` — calls in any order, with what SQLite does in each;
* `run_inv`, `run_story` — what holds of every row, and what a row keeps over a run;
* `Told` — what one call may change in a row;
* `restart_interrupts` — a restart ends the jobs that were being carried out, and no others;
* `radioJournal_run` — **the journal over all runs from the empty one**.
-/

open ConfigJob (isHex)

variable {arrayLength : String → Option ℕ} {db : Sqlite} {j : Journal} {a : Assignment} {now : ℤ}
  {r r' : Row} {c : Call}

/-! ### One call -/

theorem perform_inv (hj : Inv j) (c : Call) : Inv (c.perform arrayLength db j).journal := by
  intro k r' hr'
  obtain hsame | ⟨-, hmoves⟩ := @perform_spec arrayLength db j c
  · rw [hsame] at hr'
    exact hj k r' hr'
  · have hmove := hmoves k
    rw [hr'] at hmove
    generalize hr : j.find k = before at hmove
    cases hmove with
    | same r => exact hj k r' hr
    | offered a now hcall hvalid => exact offeredRow_ok hvalid
    | changed r r' heffect => exact effect_ok (hj k r hr) heffect

theorem perform_story (hj : Inv j) {k : String} (hr : j.find k = some r)
    (hr' : (c.perform arrayLength db j).journal.find k = some r') : Story r r' := by
  obtain hsame | ⟨-, hmoves⟩ := @perform_spec arrayLength db j c
  · rw [hsame, hr] at hr'
    obtain rfl := some.inj hr'
    exact Story.refl r
  · have hmove := hmoves k
    rw [hr, hr'] at hmove
    cases hmove with
    | same => exact Story.refl r
    | changed _ _ heffect => exact effect_story (hj k r hr) heffect

/-- What one call may change in a row: its session through a rebind that presents the assignment of
    a row that has not been acknowledged, and its acknowledgement through one that presents the
    assignment and the finish. -/
structure Told (c : Call) (r r' : Row) : Prop where
  session : r'.assignment ≠ r.assignment → ∃ epoch now, c = .rebind r.assignment epoch now ∧
    r.finishAcked = false ∧ r'.assignment = { r.assignment with sessionEpoch := epoch }
  acked : r.finishAcked = false → r'.finishAcked = true →
    ∃ now, c = .ack r.assignment r.finishId now ∧ r.finishId ≠ ""

theorem Told.refl (c : Call) (r : Row) : Told c r r :=
  ⟨fun h => absurd rfl h, fun h h' => absurd (h.symm.trans h') Bool.false_ne_true⟩

theorem told_of_unacked (hassignment : r'.assignment = r.assignment)
    (hacked : r'.finishAcked = true → r.finishAcked = true) : Told c r r' :=
  ⟨fun h => absurd hassignment h, fun h h' => absurd (h.symm.trans (hacked h')) Bool.false_ne_true⟩

theorem effect_told (h : Effect c r r') : Told c r r' := by
  cases h with
  | running _ now hstate => exact told_of_unacked rfl id
  | cancelled _ now hstate => exact told_of_unacked rfl id
  | rebound _ epoch now hepoch hacked =>
    exact ⟨fun _ => ⟨epoch, now, rfl, hacked, rfl⟩,
      fun h h' => absurd (h.symm.trans h') Bool.false_ne_true⟩
  | finished _ f state text count bytes now hassignment hnew hid hstate =>
    exact told_of_unacked rfl nofun
  | acked _ now hfinish hacked => exact ⟨fun h => absurd rfl h, fun _ _ => ⟨now, rfl, hfinish⟩⟩
  | interrupted _ now hexecuting hid => exact told_of_unacked rfl nofun

theorem perform_told {k : String} (hr : j.find k = some r)
    (hr' : (c.perform arrayLength db j).journal.find k = some r') : Told c r r' := by
  obtain hsame | ⟨-, hmoves⟩ := @perform_spec arrayLength db j c
  · rw [hsame, hr] at hr'
    obtain rfl := some.inj hr'
    exact Told.refl c r
  · have hmove := hmoves k
    rw [hr, hr'] at hmove
    cases hmove with
    | same => exact Told.refl c r
    | changed _ _ heffect => exact effect_told heffect

/-- A row goes away once it has been reported, and has been for long enough. -/
theorem perform_removed {k : String} (hr : j.find k = some r)
    (hr' : (c.perform arrayLength db j).journal.find k = none) : ∃ now, Removable now r := by
  obtain hsame | ⟨-, hmoves⟩ := @perform_spec arrayLength db j c
  · rw [hsame, hr] at hr'
    cases hr'
  · have hmove := hmoves k
    rw [hr, hr'] at hmove
    cases hmove with
    | removed _ now hremovable => exact ⟨now, hremovable⟩

/-! ### Restarts -/

theorem interruptedDigit_some {ch : Char} (h : isHex ch = true) :
    (interruptedDigit ch).isSome = true := by
  unfold isHex at h
  simp only [decide_eq_true_eq, Char.le_def, UInt32.le_iff_toNat_le] at h
  have hch : ch = Char.ofNat ch.toNat := (Char.ofNat_toNat ch).symm
  -- the digits and the letters, by their codes
  change (48 ≤ ch.toNat ∧ ch.toNat ≤ 57) ∨ (97 ≤ ch.toNat ∧ ch.toNat ≤ 102) at h
  rw [hch]
  generalize ch.toNat = n at h ⊢
  obtain ⟨hlo, hhi⟩ | ⟨hlo, hhi⟩ := h <;> interval_cases n <;> decide

theorem interruptedFinishId_some {jobId : String} (h : uuidV4Valid jobId = true) :
    (interruptedFinishId jobId).isSome = true := by
  unfold uuidV4Valid at h
  simp only [decide_eq_true_eq] at h
  obtain ⟨hlen, -, -, hall⟩ := h
  have hlast : 35 < jobId.toList.length := by omega
  have hmem : (jobId.toList[35], 35) ∈ jobId.toList.zipIdx := by
    rw [List.mem_zipIdx_iff_getElem?]
    exact List.getElem?_eq_getElem hlast
  have hhex := List.all_eq_true.mp hall _ hmem
  obtain ⟨digit, hdigit⟩ := isSome_iff_exists.mp (interruptedDigit_some hhex)
  unfold interruptedFinishId
  rw [List.getElem?_eq_getElem hlast]
  simp only [bind_eq_bind, bind_some, hdigit]
  rfl

/-- What a restart leaves of a row. -/
def restarted (now : ℤ) (r : Row) : Row := if r.executing then setInterrupted now r else r

/-- **A restart** ends the jobs that were being carried out, and no others; where SQLite does its
    part, it succeeds. -/
theorem restart_interrupts (hj : Inv j) (hnow : 0 < now) : ((restartRecover db j now).result = .ok ↔
        db.begins = true ∧ db.writes = true ∧ db.commits = true) ∧
      ((restartRecover db j now).result = .ok →
        ∀ k, (restartRecover db j now).journal.find k = (j.find k).map (restarted now)) := by
  have hids : ¬ (j.rows.any fun r => r.executing ∧ (interruptedFinishId r.jobId).isNone) = true := by
    rw [List.any_eq_true]
    rintro ⟨r, hr, hnull⟩
    have hvalid := (hj r.jobId r (Table.find_eq_some.mpr ⟨hr, rfl⟩)).valid
    unfold Assignment.valid at hvalid
    simp only [decide_eq_true_eq] at hvalid hnull
    obtain ⟨finishId, hid⟩ := isSome_iff_exists.mp (interruptedFinishId_some hvalid.1)
    rw [show interruptedFinishId r.jobId = some finishId from hid] at hnull
    exact absurd hnull.2 Bool.false_ne_true
  unfold restartRecover
  rw [if_neg (Int.not_le.mpr hnow), if_neg hids]
  unfold commit
  split
  · next hfault =>
    refine ⟨⟨by rintro ⟨⟩, ?_⟩, by rintro ⟨⟩⟩
    rintro ⟨hbegins, hwrites, -⟩
    simp [hbegins, hwrites] at hfault
  next hworks =>
  simp only [Bool.not_eq_true', not_or, Bool.not_eq_false] at hworks
  split
  · next hcommits =>
    refine ⟨⟨fun _ => ⟨hworks.1, hworks.2, hcommits⟩, fun _ => rfl⟩, fun _ k => ?_⟩
    exact Table.find_update j Row.executing (setInterrupted now) (setInterrupted_jobId now) k
  · next hcommits => exact ⟨⟨by rintro ⟨⟩, fun h => absurd h.2.2 hcommits⟩, by rintro ⟨⟩⟩

/-! ### Runs -/

/-- A call, with what SQLite does in it. -/
structure Event where
  db : Sqlite := {}
  call : Call

section
variable (arrayLength : String → Option ℕ)

def Event.reply (e : Event) (j : Journal) : Reply := e.call.perform arrayLength e.db j

def after (j : Journal) (e : Event) : Journal := (e.reply arrayLength j).journal

def run (j : Journal) (events : List Event) : Journal := events.foldl (after arrayLength) j

/-- The row of the job is there, before and behind every call. -/
def Present (job : String) (j : Journal) : List Event → Prop
  | [] => j.find job ≠ none
  | e :: events => j.find job ≠ none ∧ Present job (after arrayLength j e) events

end

theorem run_inv (hj : Inv j) (events : List Event) : Inv (run arrayLength j events) := by
  induction events generalizing j with
  | nil => exact hj
  | cons e events ih => exact ih (perform_inv hj e.call)

/-- **A row keeps its story** over every run in which it is there. -/
theorem run_story (hj : Inv j) {job : String} {events : List Event}
    (hpresent : Present arrayLength job j events) (hr : j.find job = some r) :
    ∃ r', (run arrayLength j events).find job = some r' ∧ Story r r' := by
  induction events generalizing j r with
  | nil => exact ⟨r, hr, Story.refl r⟩
  | cons e events ih =>
    obtain ⟨-, hrest⟩ := hpresent
    have hthere : (after arrayLength j e).find job ≠ none := by
      cases events with
      | nil => exact hrest
      | cons _ _ => exact hrest.1
    obtain ⟨r₁, hr₁⟩ := ne_none_iff_exists'.mp hthere
    obtain ⟨r', hr', hstory⟩ := ih (perform_inv hj e.call) hrest hr₁
    exact ⟨r', hr', (perform_story hj hr hr₁).trans hstory⟩

/-- What holds of the journal in every state of a run. -/
structure Holds (arrayLength : String → Option ℕ) (j : Journal) : Prop where
  finished : ∀ k r, j.find k = some r → (r.finishId ≠ "" ↔ r.state.terminal = true)
  story : ∀ k r events, Present arrayLength k j events → j.find k = some r →
    ∃ r', (run arrayLength j events).find k = some r' ∧ Story r r'
  told : ∀ (e : Event) k r r', j.find k = some r → (after arrayLength j e).find k = some r' →
    Told e.call r r'
  unchanged : ∀ e : Event, (e.reply arrayLength j).result ≠ .ok → after arrayLength j e = j
  restart : ∀ db now, 0 < now → ((restartRecover db j now).result = .ok ↔
        db.begins = true ∧ db.writes = true ∧ db.commits = true) ∧
      ((restartRecover db j now).result = .ok →
        ∀ k, (restartRecover db j now).journal.find k = (j.find k).map (restarted now))
  removed : ∀ (e : Event) k r, j.find k = some r → (after arrayLength j e).find k = none →
    ∃ now, Removable now r

theorem inv_empty : Inv Table.empty := fun _ _ h => by cases h

/-- **The journal keeps one story for each job**, whatever the calls and the faults. -/
theorem radioJournal_run (arrayLength : String → Option ℕ) (events : List Event) :
    Holds arrayLength (run arrayLength Table.empty events) := by
  have hinv : Inv (run arrayLength Table.empty events) := run_inv inv_empty events
  constructor
  · exact fun k r hr => (hinv k r hr).finished
  · exact fun k r events hpresent hr => run_story hinv hpresent hr
  · exact fun e k r r' hr hr' => perform_told hr hr'
  · intro e hresult
    obtain hsame | ⟨hok, -⟩ := @perform_spec arrayLength e.db
      (run arrayLength Table.empty events) e.call
    · exact hsame
    · exact absurd hok hresult
  · exact fun db now hnow => restart_interrupts hinv hnow
  · exact fun e k r hr hr' => perform_removed hr hr'

end DreamingOS.RadioJob
