import DreamingOS.AsyncQuery.Pool
import DreamingOS.Lib.Hands

namespace DreamingOS.AsyncQuery

/-!
# Asynchronous queries — all that a step can do

* `submit_cases` — a submission is accepted, or refused without an effect;
* `Move` — one constructor for each thing that a step of a thread can do, with what it has found;
* `step_move` — **every step is a move**.
-/

variable {S : Sig}

/-! ### Submissions -/

/-- A refusal leaves the pool and the request alone, and releases no object of the caller. -/
def Refused (s : State S) (a : Submission S) (r : Submitted S) : Prop :=
  r.result ≠ .ok ∧ r.state = s ∧ r.deferred = false ∧ (a.input.isSome = true → r.released = [])

/-- The pool after a job was accepted; the signal wakes the worker `i`. -/
def State.push (s : State S) (job : Job S) (i : ℕ) : State S :=
  { s with
    workers := signal s.workers i
    queue := s.queue ++ [job]
    pending := s.pending + 1
    accepted := s.accepted ++ [job] }

/-- An acceptance puts a new job at the end of the queue, and defers the request. -/
structure Accepted (s : State S) (a : Submission S) (i : ℕ) (r : Submitted S) (job : Job S) :
    Prop where
  result : r.result = .ok
  deferred : r.deferred = true
  released : r.released = []
  running : s.running = true
  room : s.pending < MAX_PENDING
  state : r.state = s.push job i
  id_eq : job.id = s.accepted.length
  era_eq : job.era = s.era
  gen_eq : job.gen = s.gen
  ctx_eq : a.ctx = some job.ctx
  req_eq : a.req = some job.req
  fn_eq : a.fn = some job.fn
  reply_eq : a.reply = job.reply
  input_eq : ∀ input, a.input = some input → job.input = input

theorem submit_cases (s : State S) (a : Submission S) (i : ℕ) :
    Refused s a (submit s a i) ∨ ∃ job, Accepted s a i (submit s a i) job := by
  obtain ⟨ctx, req, input, fn, reply, calloc, newObject⟩ := a
  unfold submit
  dsimp only
  split
  next ctx req fn =>
    by_cases hrun : s.running = true
    · have hnot : ¬ (!s.running) = true := by rw [hrun]; exact Bool.false_ne_true
      rw [if_neg hnot]
      cases calloc with
      | false => exact .inl ⟨nofun, rfl, rfl, fun _ => rfl⟩
      | true =>
        -- from here on a job is built, with the caller's input or a new object
        have hjob : ∀ (x : S.Json) (generated : Bool), (∀ y, input = some y → x = y) →
            (input.isSome = true → generated = false) →
            Refused s ⟨some ctx, some req, input, some fn, reply, true, newObject⟩
                (enqueue s ⟨s.accepted.length, s.era, ctx, req, x, fn, reply, s.gen⟩ generated i) ∨
              ∃ job, Accepted s ⟨some ctx, some req, input, some fn, reply, true, newObject⟩ i
                (enqueue s ⟨s.accepted.length, s.era, ctx, req, x, fn, reply, s.gen⟩ generated i)
                job := by
          intro x generated hx hgen
          unfold enqueue
          dsimp only
          rw [if_neg hnot]
          split
          · refine .inl ⟨nofun, rfl, rfl, fun h => ?_⟩
            rw [hgen h]
            rfl
          · next hroom =>
            exact .inr ⟨_, rfl, rfl, rfl, hrun, Nat.not_le.mp hroom, rfl, rfl, rfl, rfl, rfl, rfl,
              rfl, rfl, hx⟩
        cases input with
        | some x => exact hjob x false (fun y h => Option.some.inj h) fun _ => rfl
        | none =>
          cases newObject with
          | none => exact .inl ⟨nofun, rfl, rfl, fun _ => rfl⟩
          | some x => exact hjob x true (fun y h => nomatch h) fun h => nomatch h
    · have hnot : (!s.running) = true := by rw [Bool.eq_false_iff.mpr hrun]; rfl
      rw [if_pos hnot]
      exact .inl ⟨nofun, rfl, rfl, fun _ => rfl⟩
  next => exact .inl ⟨nofun, rfl, rfl, fun _ => rfl⟩

/-! ### Moves -/

/-- What a step can do. -/
inductive Move (capacity : ℕ) (s : State S) : State S → Prop where
  | none : Move capacity s s
  | accepted (job : Job S) (i : ℕ) (running : s.running = true) (room : s.pending < MAX_PENDING)
      (id_eq : job.id = s.accepted.length) (era_eq : job.era = s.era) (gen_eq : job.gen = s.gen)
      (signals : SignalOk s.workers i) : Move capacity s (s.push job i)
  | lost (free : s.main.stopping = false) : Move capacity s (connectionLost s)
  | stop (place : s.main = .idle) : Move capacity s (stop s)
  | join (place : s.main = .joining) (exited : s.workers.all Worker.isExited = true) :
      Move capacity s { s with main := .draining true }
  | wakeCb (place : s.main = .idle) (some : 0 < s.pipe) : Move capacity s (readPipe s)
  | readMore (place : s.main = .reading) (some : 0 < s.pipe) : Move capacity s (readPipe s)
  | readEnd (place : s.main = .reading) (none : s.pipe = 0) :
      Move capacity s { s with main := .draining false }
  | drainEnd (stop : Bool) (place : s.main = .draining stop) (empty : s.done = []) :
      Move capacity s { s with main := if stop then .stopped else .idle }
  | drainPop (stop : Bool) (job : Job S) (out : Option S.Json) (rest : List (Job S × Option S.Json))
      (place : s.main = .draining stop) (first : s.done = (job, out) :: rest) :
      Move capacity s { s with done := rest, main := .popped stop job out }
  | finish (stop : Bool) (job : Job S) (out : Option S.Json)
      (place : s.main = .popped stop job out) : Move capacity s (finish s stop job out)
  | wait (i : ℕ) (place : s.workers[i]? = some .awake) (empty : s.queue = [])
      (running : s.running = true) :
      Move capacity s { s with workers := s.workers.set i .waiting }
  | exit (i : ℕ) (place : s.workers[i]? = some .awake) (empty : s.queue = [])
      (running : s.running = false) :
      Move capacity s { s with workers := s.workers.set i .exited }
  | take (i : ℕ) (job : Job S) (rest : List (Job S)) (place : s.workers[i]? = some .awake)
      (first : s.queue = job :: rest) :
      Move capacity s { s with
        workers := s.workers.set i (.holding job)
        queue := rest
        started := s.started ++ [job] }
  | spurious (i : ℕ) (place : s.workers[i]? = some .waiting) :
      Move capacity s { s with workers := s.workers.set i .awake }
  | run (i : ℕ) (job : Job S) (out : Option S.Json) (place : s.workers[i]? = some (.holding job)) :
      Move capacity s (run s i job out)
  | pushDone (i : ℕ) (job : Job S) (out : Option S.Json)
      (place : s.workers[i]? = some (.ran job out)) : Move capacity s (pushDone s i job out)
  | wake (i : ℕ) (place : s.workers[i]? = some .pushed) : Move capacity s (wake capacity s i)

variable {capacity : ℕ} {s : State S}

theorem check_move {i : ℕ} (h : s.workers[i]? = some .awake) : Move capacity s (check s i) := by
  unfold check
  split
  · next hqueue =>
    by_cases hrun : s.running = true
    · rw [if_pos hrun]
      exact .wait i h hqueue hrun
    · rw [if_neg hrun]
      exact .exit i h hqueue (Bool.eq_false_iff.mpr hrun)
  · next job rest hqueue => exact .take i job rest h hqueue

theorem read_move (h : s.main = .reading) : Move capacity s (read s) := by
  unfold read
  split
  · next hpipe => exact .readEnd h hpipe
  · next hpipe => exact .readMore h (Nat.pos_of_ne_zero hpipe)

theorem drain_move {stop : Bool} (h : s.main = .draining stop) :
    Move capacity s (drain s stop) := by
  unfold drain
  split
  · next hdone => exact .drainEnd stop h hdone
  · next job out rest hdone => exact .drainPop stop job out rest h hdone

theorem submit_move {a : Submission S} {i : ℕ}
    (h : SignalOk s.workers i) : Move capacity s (submit s a i).state := by
  rcases submit_cases s a i with ⟨-, hstate, -⟩ | ⟨job, hacc⟩
  · rw [hstate]
    exact .none
  · rw [hacc.state]
    exact .accepted job i hacc.running hacc.room hacc.id_eq hacc.era_eq hacc.gen_eq h

/-- **Every step is a move.** -/
theorem step_move {s s' : State S} {a : Action S} (h : step capacity s a = some s') :
    Move capacity s s' := by
  cases a with
  | submit a i =>
    simp only [step, Option.ite_none_right_eq_some, Option.some.injEq] at h
    obtain ⟨hsignal, rfl⟩ := h
    exact submit_move hsignal
  | lost =>
    simp only [step, Option.ite_none_left_eq_some, Option.some.injEq, Bool.not_eq_true] at h
    obtain ⟨hfree, rfl⟩ := h
    exact .lost hfree
  | stop =>
    simp only [step] at h
    split at h
    · next hmain => cases h; exact .stop hmain
    · cases h; exact .none
    · cases h
  | join =>
    simp only [step] at h
    split at h
    · next hmain =>
      split at h
      · next hexited => cases h; exact .join hmain hexited
      · cases h
    · cases h
  | wakeCb =>
    simp only [step] at h
    split at h
    · next hmain =>
      split at h
      · next hpipe => cases h; exact .wakeCb hmain hpipe
      · cases h
    · cases h
  | read =>
    simp only [step] at h
    split at h
    · next hmain => cases h; exact read_move hmain
    · cases h
  | drain =>
    simp only [step] at h
    split at h
    · next stop hmain => cases h; exact drain_move hmain
    · cases h
  | finish =>
    simp only [step] at h
    split at h
    · next stop job out hmain => cases h; exact .finish stop job out hmain
    · cases h
  | check i =>
    simp only [step] at h
    split at h
    · next hw => cases h; exact check_move hw
    · cases h
  | spurious i =>
    simp only [step] at h
    split at h
    · next hw => cases h; exact .spurious i hw
    · cases h
  | run i out =>
    simp only [step] at h
    split at h
    · next job hw => cases h; exact .run i job out hw
    · cases h
  | pushDone i =>
    simp only [step] at h
    split at h
    · next job out hw => cases h; exact .pushDone i job out hw
    · cases h
  | wake i =>
    simp only [step] at h
    split at h
    · next hw => cases h; exact .wake i hw
    · cases h

end DreamingOS.AsyncQuery
