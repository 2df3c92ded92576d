import DreamingOS.AsyncQuery.Moves

namespace DreamingOS.AsyncQuery

open Hands List

/-!
# Asynchronous queries — no thread sleeps while there is work for it

* `Sync` — what the condition variable, the pipe and the stop keep to;
* `sync_move` — every move keeps it;
* `effort`, `effort_lt` — every step that is not a new event brings the pool closer to rest;
* `rest_of_quiet` — **where no step is left, no job is left**.
-/

variable {S : Sig} {s s' : State S} {n capacity : ℕ}

/-! ### The invariant -/

def Worker.isPushed : Worker S → Bool
  | .pushed => true
  | _ => false

/-- A drain is in progress. -/
def Main.drains : Main S → Bool
  | .reading => true
  | .draining _ => true
  | .popped _ _ _ => true
  | _ => false

/-- `dw_async_query_stop` has joined the workers. -/
def Main.joined : Main S → Bool
  | .draining stop => stop
  | .popped stop _ _ => stop
  | .stopped => true
  | _ => false

/-- What the threads keep to; `awake` says that no signal is lost, and `wake` that no byte is. -/
structure Sync (n : ℕ) (s : State S) : Prop where
  crew : s.workers.length = n
  running : s.running = !s.main.stopping
  waiting : ∀ w ∈ s.workers, w.isWaiting = true → s.running = true
  exited : ∀ w ∈ s.workers, w.isExited = true → s.running = false ∧ s.queue = []
  awake : s.queue ≠ [] → ∃ w ∈ s.workers, w.isWaiting = false ∧ w.isExited = false
  wake : s.done ≠ [] → (∀ w ∈ s.workers, w.isPushed = false) → 0 < s.pipe ∨ s.main.drains = true
  joined : s.main.joined = true → ∀ w ∈ s.workers, w.isExited = true
  stopped : s.main = .stopped → s.done = []

theorem sync_init (n : ℕ) : Sync n (.init n : State S) where
  crew := length_replicate
  running := rfl
  waiting := fun _ _ _ => rfl
  exited := by
    intro w hw hexited
    rw [eq_of_mem_replicate hw] at hexited
    cases hexited
  awake := fun h => absurd rfl h
  wake := fun h => absurd rfl h
  joined := nofun
  stopped := nofun

/-! ### Moves of a worker -/

variable {i : ℕ} {w : Worker S}

/-- A worker that is neither waiting nor gone goes on to another such place. -/
theorem Sync.goes_on (h : Sync n s) (w' : Worker S) (hget : s.workers[i]? = some w)
    (hw : w.isExited = false) (hwait : w'.isWaiting = false) (hexit : w'.isExited = false) :
    (s.workers.set i w').length = n ∧
      (∀ v ∈ s.workers.set i w', v.isWaiting = true → s.running = true) ∧
      (∀ v ∈ s.workers.set i w', v.isExited = true → s.running = false ∧ s.queue = []) ∧
      (∃ v ∈ s.workers.set i w', v.isWaiting = false ∧ v.isExited = false) ∧
      (s.main.joined = true → ∀ v ∈ s.workers.set i w', v.isExited = true) := by
  refine ⟨by rw [length_set, h.crew], ?_, ?_, ⟨w', mem_set hget w', hwait, hexit⟩, ?_⟩
  · exact forall_set h.waiting fun hv => by rw [hwait] at hv; cases hv
  · exact forall_set h.exited fun hv => by rw [hexit] at hv; cases hv
  · intro hj
    have hgone := h.joined hj w (mem_of_getElem? hget)
    rw [hw] at hgone
    cases hgone

/-- If nobody is between the queue and the pipe now, nobody was. -/
theorem Sync.wake_set (h : Sync n s) {w' : Worker S} (hget : s.workers[i]? = some w)
    (hw : w.isPushed = false) (hdone : s.done ≠ [])
    (hnone : ∀ v ∈ s.workers.set i w', v.isPushed = false) :
    0 < s.pipe ∨ s.main.drains = true := h.wake hdone (forall_of_set hget hw hnone)

/-- A worker steps on, and the shared state stays as it is. -/
theorem Sync.worker (h : Sync n s) {w' : Worker S} (hget : s.workers[i]? = some w)
    (hw : w.isExited = false) (hpushed : w.isPushed = false) (hwait : w'.isWaiting = false)
    (hexit : w'.isExited = false) (hasRun : List (ℕ × Option S.Json)) :
    Sync n { s with workers := s.workers.set i w', hasRun := hasRun } := by
  obtain ⟨hcrew, hwaiting, hexited, hsome, hjoined⟩ := h.goes_on _ hget hw hwait hexit
  exact ⟨hcrew, h.running, hwaiting, hexited, fun _ => hsome, h.wake_set hget hpushed, hjoined,
    h.stopped⟩

theorem sync_wait (h : Sync n s) (hget : s.workers[i]? = some .awake)
    (hqueue : s.queue = []) (hrun : s.running = true) :
    Sync n { s with workers := s.workers.set i .waiting } where
  crew := by rw [length_set, h.crew]
  running := h.running
  waiting := forall_set h.waiting fun _ => hrun
  exited := forall_set h.exited nofun
  awake := fun hne => absurd hqueue hne
  wake := h.wake_set hget rfl
  joined := by
    intro hj
    cases h.joined hj _ (mem_of_getElem? hget)
  stopped := h.stopped

theorem sync_exit (h : Sync n s) (hget : s.workers[i]? = some .awake)
    (hqueue : s.queue = []) (hrun : s.running = false) :
    Sync n { s with workers := s.workers.set i .exited } where
  crew := by rw [length_set, h.crew]
  running := h.running
  waiting := forall_set h.waiting nofun
  exited := forall_set h.exited fun _ => ⟨hrun, hqueue⟩
  awake := fun hne => absurd hqueue hne
  wake := h.wake_set hget rfl
  joined := by
    intro hj
    cases h.joined hj _ (mem_of_getElem? hget)
  stopped := h.stopped

variable {job : Job S}

theorem sync_take (h : Sync n s) {rest : List (Job S)}
    (hget : s.workers[i]? = some .awake) (hqueue : s.queue = job :: rest) :
    Sync n { s with
      workers := s.workers.set i (.holding job)
      queue := rest
      started := s.started ++ [job] } := by
  obtain ⟨hcrew, hwaiting, hexited, hsome, hjoined⟩ := h.goes_on (.holding job) hget rfl rfl rfl
  refine ⟨hcrew, h.running, hwaiting, ?_, fun _ => hsome, h.wake_set hget rfl, hjoined, h.stopped⟩
  intro v hv hexit
  have hempty := (hexited v hv hexit).2
  rw [hqueue] at hempty
  cases hempty

variable {out : Option S.Json}

theorem sync_pushDone (h : Sync n s)
    (hget : s.workers[i]? = some (.ran job out)) : Sync n (pushDone s i job out) := by
  obtain ⟨hcrew, hwaiting, hexited, hsome, hjoined⟩ := h.goes_on .pushed hget rfl rfl rfl
  refine ⟨hcrew, h.running, hwaiting, hexited, fun _ => hsome, ?_, hjoined, ?_⟩
  · intro _ hnone
    cases hnone .pushed (mem_set hget _)
  · intro hmain
    -- the workers are gone when the main thread has stopped
    have hgone := h.joined (by rw [show s.main = .stopped from hmain]; rfl) _
      (mem_of_getElem? hget)
    cases hgone

theorem sync_wake (hcap : 0 < capacity) (h : Sync n s)
    (hget : s.workers[i]? = some .pushed) : Sync n (wake capacity s i) := by
  obtain ⟨hcrew, hwaiting, hexited, hsome, hjoined⟩ := h.goes_on .awake hget rfl rfl rfl
  refine ⟨hcrew, h.running, hwaiting, hexited, fun _ => hsome, fun _ _ => .inl ?_, hjoined,
    h.stopped⟩
  show 0 < min (s.pipe + 1) capacity
  omega

/-! ### Moves of the main thread -/

theorem signal_cases (workers : List (Worker S)) (i : ℕ) :
    (workers[i]? = some .waiting ∧ signal workers i = workers.set i .awake) ∨
      ((workers[i]?).any Worker.isWaiting = false ∧ signal workers i = workers) := by
  unfold signal
  split
  · next h => exact .inl ⟨h, rfl⟩
  rename_i h
  refine .inr ⟨?_, rfl⟩
  cases hget : workers[i]? with
  | none => rfl
  | some w =>
    cases w with
    | waiting => exact absurd hget h
    | awake => rfl
    | holding _ => rfl
    | ran _ _ => rfl
    | pushed => rfl
    | exited => rfl

theorem sync_accepted (hn : 0 < n) (h : Sync n s) (hrun : s.running = true)
    (hsignal : SignalOk s.workers i) : Sync n (s.push job i) := by
  have hpresent : ∀ w ∈ s.workers, w.isExited = false := by
    intro w hw
    cases hexit : w.isExited with
    | false => rfl
    | true =>
      have hstopped := (h.exited w hw hexit).1
      rw [hrun] at hstopped
      cases hstopped
  have hjoined : s.main.joined = false := by
    cases hj : s.main.joined with
    | false => rfl
    | true =>
      obtain ⟨w, hw⟩ := exists_mem_of_length_pos (Nat.lt_of_lt_of_eq hn h.crew.symm)
      have hexit := h.joined hj w hw
      rw [hpresent w hw] at hexit
      cases hexit
  rcases signal_cases s.workers i with ⟨hget, heq⟩ | ⟨hnot, heq⟩
  · -- the signal wakes a worker
    obtain ⟨hcrew, hwaiting, -, hsome, -⟩ := h.goes_on .awake hget rfl rfl rfl
    refine ⟨?_, h.running, ?_, ?_, fun _ => ?_, ?_, ?_, h.stopped⟩
    · rw [State.push, heq]
      exact hcrew
    · rw [State.push, heq]
      exact hwaiting
    · intro w hw hexit
      rw [State.push, heq] at hw
      rw [forall_set hpresent rfl w hw] at hexit
      cases hexit
    · rw [State.push, heq]
      exact hsome
    · intro hdone hnone
      rw [State.push, heq] at hnone
      exact h.wake_set hget rfl hdone hnone
    · intro hj
      rw [show (s.push job i).main = s.main from rfl, hjoined] at hj
      cases hj
  · -- nobody waits
    have hbusy : ∀ w ∈ s.workers, w.isWaiting = false := by
      intro w hw
      cases hwait : w.isWaiting with
      | false => rfl
      | true =>
        have hchosen := hsignal (List.any_eq_true.mpr ⟨w, hw, hwait⟩)
        rw [hnot] at hchosen
        cases hchosen
    obtain ⟨w, hw⟩ := exists_mem_of_length_pos (Nat.lt_of_lt_of_eq hn h.crew.symm)
    refine ⟨?_, h.running, fun _ _ _ => hrun, ?_, fun _ => ?_, ?_, ?_, h.stopped⟩
    · rw [State.push, heq]
      exact h.crew
    · intro v hv hexit
      rw [State.push, heq] at hv
      rw [hpresent v hv] at hexit
      cases hexit
    · rw [State.push, heq]
      exact ⟨w, hw, hbusy w hw, hpresent w hw⟩
    · intro hdone hnone
      rw [State.push, heq] at hnone
      exact h.wake hdone hnone
    · intro hj
      rw [show (s.push job i).main = s.main from rfl, hjoined] at hj
      cases hj

theorem wakeUp_isWaiting (w : Worker S) : w.wakeUp.isWaiting = false := by
  cases w <;> rfl

theorem wakeUp_isExited (w : Worker S) : w.wakeUp.isExited = w.isExited := by
  cases w <;> rfl

theorem wakeUp_isPushed (w : Worker S) : w.wakeUp.isPushed = w.isPushed := by
  cases w <;> rfl

theorem sync_stop (h : Sync n s) (hmain : s.main = .idle) : Sync n (stop s) where
  crew := by rw [stop, length_map, h.crew]
  running := rfl
  waiting := by
    intro w hw hwait
    obtain ⟨v, -, rfl⟩ := List.mem_map.mp hw
    rw [wakeUp_isWaiting] at hwait
    cases hwait
  exited := by
    intro w hw hexit
    obtain ⟨v, hv, rfl⟩ := List.mem_map.mp hw
    rw [wakeUp_isExited] at hexit
    exact ⟨rfl, (h.exited v hv hexit).2⟩
  awake := by
    intro hne
    obtain ⟨w, hw, -, hexit⟩ := h.awake hne
    exact ⟨_, List.mem_map_of_mem hw, wakeUp_isWaiting w, (wakeUp_isExited w).trans hexit⟩
  wake := by
    intro hdone hnone
    have hbefore := h.wake hdone fun w hw => by
      rw [← wakeUp_isPushed]
      exact hnone _ (List.mem_map_of_mem hw)
    rw [hmain] at hbefore
    exact hbefore
  joined := nofun
  stopped := nofun

/-- The main thread steps on inside its drain. -/
theorem Sync.main (h : Sync n s) (main : Main S) (hstop : main.stopping = s.main.stopping)
    (hjoined : main.joined = true → ∀ w ∈ s.workers, w.isExited = true) (hdrains : main.drains = true)
    (pipe : ℕ) (done : List (Job S × Option S.Json)) (replied : List (Replied S))
    (completed : List ℕ) (freed : List (Freed S)) :
    Sync n { s with
      main := main
      pipe := pipe
      done := done
      replied := replied
      completed := completed
      freed := freed } where
  crew := h.crew
  running := h.running.trans (by rw [hstop])
  waiting := h.waiting
  exited := h.exited
  awake := h.awake
  wake := fun _ _ => .inr hdrains
  joined := hjoined
  stopped := by
    rintro rfl
    cases hdrains

variable {stop : Bool}

theorem sync_drainEnd (h : Sync n s) (hmain : s.main = .draining stop)
    (hdone : s.done = []) : Sync n { s with main := if stop then .stopped else .idle } where
  crew := h.crew
  running := by
    rw [h.running, hmain]
    cases stop <;> rfl
  waiting := h.waiting
  exited := h.exited
  awake := h.awake
  wake := fun hne => absurd hdone hne
  joined := by
    intro hj
    apply h.joined
    rw [hmain]
    cases stop with
    | true => rfl
    | false => cases hj
  stopped := fun _ => hdone

theorem sync_finish (h : Sync n s)
    (hmain : s.main = .popped stop job out) : Sync n (finish s stop job out) := by
  have hjoined : (Main.draining stop : Main S).joined = true → ∀ w ∈ s.workers, w.isExited = true :=
    fun hj => h.joined (by rw [hmain]; exact hj)
  unfold finish
  dsimp only
  split
  · exact h.main _ (by rw [hmain]; rfl) hjoined rfl _ _ _ _ _
  · exact h.main _ (by rw [hmain]; rfl) hjoined rfl _ _ _ _ _

/-! ### Every move -/

theorem sync_move (hn : 0 < n) (hcap : 0 < capacity) (h : Sync n s) (hm : Move capacity s s') :
    Sync n s' := by
  cases hm with
  | none => exact h
  | accepted job i hrun _ _ _ _ hsignal => exact sync_accepted hn h hrun hsignal
  | lost _ =>
    exact ⟨h.crew, h.running, h.waiting, h.exited, h.awake, h.wake, h.joined, h.stopped⟩
  | stop hmain => exact sync_stop h hmain
  | join hmain hexited =>
    exact h.main _ (by rw [hmain]; rfl) (fun _ => List.all_eq_true.mp hexited) rfl _ _ _ _ _
  | wakeCb hmain _ =>
    exact h.main .reading (by rw [hmain]; rfl) (fun hj => absurd hj Bool.false_ne_true) rfl _ _ _ _ _
  | readMore hmain _ =>
    exact h.main .reading (by rw [hmain]) (fun hj => absurd hj Bool.false_ne_true) rfl _ _ _ _ _
  | readEnd hmain _ =>
    exact h.main (.draining false) (by rw [hmain]; rfl) (fun hj => absurd hj Bool.false_ne_true) rfl _ _ _ _ _
  | drainEnd stop hmain hdone => exact sync_drainEnd h hmain hdone
  | drainPop stop job out rest hmain hdone =>
    exact h.main _ (by rw [hmain]; rfl) (fun hj => h.joined (by rw [hmain]; exact hj)) rfl _ _ _ _ _
  | finish stop job out hmain => exact sync_finish h hmain
  | wait i hget hqueue hrun => exact sync_wait h hget hqueue hrun
  | exit i hget hqueue hrun => exact sync_exit h hget hqueue hrun
  | take i job rest hget hqueue => exact sync_take h hget hqueue
  | spurious i hget => exact h.worker hget rfl rfl rfl rfl _
  | run i job out hget => exact h.worker hget rfl rfl rfl rfl _
  | pushDone i job out hget => exact sync_pushDone h hget
  | wake i hget => exact sync_wake hcap h hget

/-! ### Rest -/

/-- A step that is not a new event: no call of the main thread, and no spurious wakeup. -/
def Action.internal : Action S → Bool
  | .submit _ _ => false
  | .lost => false
  | .stop => false
  | .spurious _ => false
  | _ => true

def Worker.effort : Worker S → ℕ
  | .awake => 1
  | .waiting => 0
  | .holding _ => 9
  | .ran _ _ => 8
  | .pushed => 5
  | .exited => 0

def Main.effort : Main S → ℕ
  | .idle => 0
  | .reading => 2
  | .draining _ => 1
  | .popped _ _ _ => 2
  | .joining => 2
  | .stopped => 0

/-- What is left to do. -/
def effort (s : State S) : ℕ :=
  9 * s.queue.length + (s.workers.map Worker.effort).sum + 2 * s.done.length + 3 * s.pipe +
    s.main.effort

/-- **Every step that is not a new event brings the pool closer to rest.** -/
theorem effort_lt {a : Action S} (ha : a.internal = true) (h : step capacity s a = some s') :
    effort s' < effort s := by
  have hworker : ∀ {i : ℕ} {w : Worker S}, s.workers[i]? = some w → ∀ w' : Worker S,
      ((s.workers.set i w').map Worker.effort).sum + w.effort =
        (s.workers.map Worker.effort).sum + w'.effort :=
    fun hget w' => sum_set Worker.effort hget w'
  cases a with
  | submit _ _ => cases ha
  | lost => cases ha
  | stop => cases ha
  | spurious _ => cases ha
  | join =>
    simp only [step] at h
    split at h
    · next hmain =>
      split at h
      · cases h
        simp only [effort, hmain, Main.effort]
        omega
      · cases h
    · cases h
  | wakeCb =>
    simp only [step] at h
    split at h
    · next hmain =>
      split at h
      · cases h
        simp only [effort, readPipe, hmain, Main.effort]
        omega
      · cases h
    · cases h
  | read =>
    simp only [step] at h
    split at h
    · next hmain =>
      cases h
      unfold read
      split
      · simp only [effort, hmain, Main.effort]
        omega
      · simp only [effort, readPipe, hmain, Main.effort]
        omega
    · cases h
  | drain =>
    simp only [step] at h
    split at h
    · next stop hmain =>
      cases h
      unfold drain
      split
      · cases stop
        · simp only [effort, hmain, Main.effort, Bool.false_eq_true, if_false]
          omega
        · simp only [effort, hmain, Main.effort, if_true]
          omega
      · next job out rest hdone =>
        simp only [effort, hmain, hdone, Main.effort, length_cons]
        omega
    · cases h
  | finish =>
    simp only [step] at h
    split at h
    · next stop job out hmain =>
      cases h
      unfold finish
      dsimp only
      split
      · simp only [effort, hmain, Main.effort]
        omega
      · simp only [effort, hmain, Main.effort]
        omega
    · cases h
  | check i =>
    simp only [step] at h
    split at h
    · next hget =>
      cases h
      unfold check
      split
      · next hqueue =>
        have hsum := hworker hget (if s.running = true then .waiting else .exited)
        have hzero : Worker.effort (if s.running = true then Worker.waiting else .exited : Worker S) = 0 := by
          split <;> rfl
        rw [hzero] at hsum
        simp only [effort, Worker.effort] at hsum ⊢
        omega
      · next job rest hqueue =>
        have hsum := hworker hget (.holding job)
        simp only [effort, Worker.effort, hqueue, length_cons] at hsum ⊢
        omega
    · cases h
  | run i out =>
    simp only [step] at h
    split at h
    · next job hget =>
      cases h
      have hsum := hworker hget (.ran job out)
      simp only [effort, run, Worker.effort] at hsum ⊢
      omega
    · cases h
  | pushDone i =>
    simp only [step] at h
    split at h
    · next job out hget =>
      cases h
      have hsum := hworker hget .pushed
      simp only [effort, pushDone, Worker.effort, length_append, length_singleton] at hsum ⊢
      omega
    · cases h
  | wake i =>
    simp only [step] at h
    split at h
    · next hget =>
      cases h
      have hsum := hworker hget .awake
      simp only [effort, wake, Worker.effort] at hsum ⊢
      omega
    · cases h

/-- No step is left but new events. -/
def Quiet (capacity : ℕ) (s : State S) : Prop :=
  ∀ a : Action S, a.internal = true → step capacity s a = none

theorem Quiet.worker (hq : Quiet capacity s) (hw : w ∈ s.workers) :
    w.isWaiting = true ∨ w.isExited = true := by
  obtain ⟨i, hi⟩ := getElem?_of_mem hw
  cases w with
  | waiting => exact .inl rfl
  | exited => exact .inr rfl
  | awake =>
    have hnone := hq (.check i) rfl
    simp only [step, hi] at hnone
    cases hnone
  | holding job =>
    have hnone := hq (.run i none) rfl
    simp only [step, hi] at hnone
    cases hnone
  | ran job out =>
    have hnone := hq (.pushDone i) rfl
    simp only [step, hi] at hnone
    cases hnone
  | pushed =>
    have hnone := hq (.wake i) rfl
    simp only [step, hi] at hnone
    cases hnone

theorem Quiet.main (h : Sync n s) (hq : Quiet capacity s) :
    s.main = .stopped ∨ s.main = .idle ∧ s.pipe = 0 := by
  cases hmain : s.main with
  | stopped => exact .inl rfl
  | idle =>
    refine .inr ⟨rfl, ?_⟩
    have hnone := hq .wakeCb rfl
    simp only [step, hmain] at hnone
    split at hnone
    · cases hnone
    · omega
  | reading =>
    have hnone := hq .read rfl
    simp only [step, hmain] at hnone
    cases hnone
  | draining stop =>
    have hnone := hq .drain rfl
    simp only [step, hmain] at hnone
    cases hnone
  | popped stop job out =>
    have hnone := hq .finish rfl
    simp only [step, hmain] at hnone
    cases hnone
  | joining =>
    have hnone := hq .join rfl
    simp only [step, hmain] at hnone
    split at hnone
    · cases hnone
    rename_i hall
    -- a worker is left; it does not wait, since the pool is not running
    refine absurd (List.all_eq_true.mpr fun w hw => ?_) hall
    rcases hq.worker hw with hwait | hexit
    · have hrun := h.waiting w hw hwait
      rw [h.running, hmain] at hrun
      cases hrun
    · exact hexit

/-- **Where no step is left, no job is left**: none is queued, none is with a worker or done, and
    none is with the main thread. -/
theorem rest_of_quiet (h : Sync n s) (hq : Quiet capacity s) :
    s.queue = [] ∧ (∀ w ∈ s.workers, w.isWaiting = true ∨ w.isExited = true) ∧ s.done = [] ∧
      (s.main = .stopped ∨ s.main = .idle) := by
  have hworkers : ∀ w ∈ s.workers, w.isWaiting = true ∨ w.isExited = true := fun w hw => hq.worker hw
  refine ⟨?_, hworkers, ?_, (hq.main h).imp_right And.left⟩
  · by_contra hne
    obtain ⟨w, hw, hwait, hexit⟩ := h.awake hne
    rcases hworkers w hw with hx | hx
    · rw [hwait] at hx; cases hx
    · rw [hexit] at hx; cases hx
  · rcases hq.main h with hmain | ⟨hmain, hpipe⟩
    · exact h.stopped hmain
    · by_contra hne
      have hnone : ∀ w ∈ s.workers, w.isPushed = false := by
        intro w hw
        rcases hworkers w hw with hx | hx
        · cases w <;> first | rfl | cases hx
        · cases w <;> first | rfl | cases hx
      rcases h.wake hne hnone with hpos | hdrains
      · omega
      · rw [hmain] at hdrains
        cases hdrains

end DreamingOS.AsyncQuery
