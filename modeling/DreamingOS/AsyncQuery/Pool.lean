import DreamingOS.Lib.Slots
import Mathlib.Data.Int.Notation

namespace DreamingOS.AsyncQuery

/-!
# Asynchronous queries — the worker pool

The pool of `dw_async_query.c`: the main thread takes queries, workers run them, and the main thread
sends the answers.

* `Job`, `Worker`, `Main`, `State` — the jobs, where each thread stands, and what they share;
* `submit`, `connectionLost`, `stop` — the calls of the main thread;
* `check`, `run`, `pushDone`, `wake` — the steps of `dw_async_worker`;
* `wakeCb`, `read`, `drain`, `finish` — the steps of `dw_async_wake_cb`;
* `step` — one step of one of the threads.

What is under the mutex is one step.  The wake pipe holds at most `capacity` bytes, and a byte that
does not fit is dropped.  The state also records what was done: which jobs were accepted, started,
run, answered and freed, and how many connections were lost.
-/

def MAX_WORKERS : ℕ := 8
def MAX_PENDING : ℕ := 64

/-- The types that the pool passes through: ubus contexts and requests, JSON values, query functions
    and reply functions with their argument. -/
structure Sig where
  Ctx : Type
  Req : Type
  Json : Type
  Fn : Type
  Reply : Type

/-- `struct dw_async_job`, with its number and the number of connections that were lost before it
    was submitted; what `fn` returns is kept beside it. -/
structure Job (S : Sig) where
  (id era : ℕ)
  ctx : S.Ctx
  req : S.Req
  input : S.Json
  fn : S.Fn
  reply : Option S.Reply
  gen : UInt32

/-- Where a worker stands. -/
inductive Worker (S : Sig) where
  /-- about to take the mutex and to look at the queue -/
  | awake
  /-- in `pthread_cond_wait` -/
  | waiting
  /-- with a job from the queue -/
  | holding (job : Job S)
  /-- with a job that was run -/
  | ran (job : Job S) (out : Option S.Json)
  /-- between the done queue and the pipe -/
  | pushed
  | exited

/-- Where the main thread stands; `stop` says that it drains at the end of `dw_async_query_stop`. -/
inductive Main (S : Sig) where
  | idle
  | reading
  | draining (stop : Bool)
  | popped (stop : Bool) (job : Job S) (out : Option S.Json)
  | joining
  | stopped

/-- A reply that was sent. -/
structure Replied (S : Sig) where
  id : ℕ
  ctx : S.Ctx
  req : S.Req
  out : Option S.Json

/-- A job that was freed, and the number of connections that were lost by then. -/
structure Freed (S : Sig) where
  job : Job S
  out : Option S.Json
  era : ℕ

/-- `g_async` and `g_async_conn_gen`, the threads, and what was done. -/
structure State (S : Sig) where
  workers : List (Worker S)
  queue : List (Job S) := []
  done : List (Job S × Option S.Json) := []
  pending : ℕ := 0
  running : Bool := true
  pipe : ℕ := 0
  gen : UInt32 := 0
  main : Main S := .idle
  era : ℕ := 0
  accepted : List (Job S) := []
  started : List (Job S) := []
  hasRun : List (ℕ × Option S.Json) := []
  replied : List (Replied S) := []
  completed : List ℕ := []
  freed : List (Freed S) := []

variable {S : Sig}

/-- The pool as `dw_async_query_init` leaves it, with `n` workers. -/
def State.init (n : ℕ) : State S := { workers := List.replicate n .awake }

/-! ### The calls of the main thread -/

inductive SubmitResult where
  | ok
  | unavailable
  | saturated
  | oom
  | invalid

/-- The arguments of `dw_async_query_submit`, and what the allocations in it return: the job, and an
    empty JSON object. -/
structure Submission (S : Sig) where
  ctx : Option S.Ctx
  req : Option S.Req
  input : Option S.Json
  fn : Option S.Fn
  reply : Option S.Reply
  calloc : Bool
  newObject : Option S.Json

/-- What `dw_async_query_submit` does: whether it defers the request, and which JSON objects it
    releases. -/
structure Submitted (S : Sig) where
  state : State S
  result : SubmitResult
  deferred : Bool := false
  released : List S.Json := []

/-- `pthread_cond_signal`, waking the worker `i`. -/
def signal (workers : List (Worker S)) (i : ℕ) : List (Worker S) :=
  match workers[i]? with
  | some .waiting => workers.set i .awake
  | _ => workers

def Worker.isWaiting : Worker S → Bool
  | .waiting => true
  | _ => false

/-- A signal wakes a worker that waits, if there is one. -/
def SignalOk (workers : List (Worker S)) (i : ℕ) : Prop :=
  workers.any Worker.isWaiting = true → (workers[i]?).any Worker.isWaiting = true

instance (workers : List (Worker S)) (i : ℕ) : Decidable (SignalOk workers i) :=
  inferInstanceAs (Decidable (_ → _))

/-- What `dw_async_query_submit` does under the mutex. -/
def enqueue (s : State S) (job : Job S) (generated : Bool) (i : ℕ) : Submitted S :=
  let released := if generated then [job.input] else []
  if !s.running then { state := s, result := .unavailable, released := released }
  else if MAX_PENDING ≤ s.pending then { state := s, result := .saturated, released := released }
  else
    { state := { s with
        workers := signal s.workers i
        queue := s.queue ++ [job]
        pending := s.pending + 1
        accepted := s.accepted ++ [job] }
      result := .ok
      deferred := true }

/-- `dw_async_query_submit`; the signal wakes the worker `i`. -/
def submit (s : State S) (a : Submission S) (i : ℕ) : Submitted S :=
  match a.ctx, a.req, a.fn with
  | some ctx, some req, some fn =>
    if !s.running then { state := s, result := .unavailable }
    else if !a.calloc then { state := s, result := .oom }
    else
      let job := fun input : S.Json =>
        { id := s.accepted.length, era := s.era, ctx := ctx, req := req, input := input, fn := fn,
          reply := a.reply, gen := s.gen : Job S }
      match a.input with
      | some input => enqueue s (job input) false i
      | none =>
        match a.newObject with
        | none => { state := s, result := .oom }
        | some input => enqueue s (job input) true i
  | _, _, _ => { state := s, result := .invalid }

/-- The main thread is in `dw_async_query_stop`, or has been there. -/
def Main.stopping : Main S → Bool
  | .draining stop => stop
  | .popped stop _ _ => stop
  | .joining => true
  | .stopped => true
  | _ => false

/-- `dw_async_query_connection_lost`. -/
def connectionLost (s : State S) : State S := { s with gen := s.gen + 1, era := s.era + 1 }

def Worker.wakeUp : Worker S → Worker S
  | .waiting => .awake
  | w => w

/-- The first part of `dw_async_query_stop`: the workers are told. -/
def stop (s : State S) : State S :=
  { s with running := false, workers := s.workers.map Worker.wakeUp, main := .joining }

def Worker.isExited : Worker S → Bool
  | .exited => true
  | _ => false

/-! ### The workers -/

/-- What a worker does when it has the mutex: it waits, exits or takes the first job. -/
def check (s : State S) (i : ℕ) : State S :=
  match s.queue with
  | [] => { s with workers := s.workers.set i (if s.running then .waiting else .exited) }
  | job :: queue =>
    { s with
      workers := s.workers.set i (.holding job)
      queue := queue
      started := s.started ++ [job] }

/-- The query function has returned. -/
def run (s : State S) (i : ℕ) (job : Job S) (out : Option S.Json) : State S :=
  { s with
    workers := s.workers.set i (.ran job out)
    hasRun := s.hasRun ++ [(job.id, out)] }

/-- The job goes to the done queue. -/
def pushDone (s : State S) (i : ℕ) (job : Job S) (out : Option S.Json) : State S :=
  { s with
    workers := s.workers.set i .pushed
    done := s.done ++ [(job, out)]
    pending := if 0 < s.pending then s.pending - 1 else s.pending }

/-- One byte is written to the pipe, or dropped. -/
def wake (capacity : ℕ) (s : State S) (i : ℕ) : State S :=
  { s with
    workers := s.workers.set i .awake
    pipe := min (s.pipe + 1) capacity }

/-! ### The drain -/

/-- `read` of up to 64 bytes. -/
def readPipe (s : State S) : State S := { s with pipe := s.pipe - 64, main := .reading }

/-- `read` on an empty pipe fails, and the drain begins. -/
def read (s : State S) : State S :=
  if s.pipe = 0 then { s with main := .draining false } else readPipe s

/-- A turn of the loop of `dw_async_drain_done`, up to the end of its lock. -/
def drain (s : State S) (stop : Bool) : State S :=
  match s.done with
  | [] => { s with main := if stop then .stopped else .idle }
  | (job, out) :: done => { s with done := done, main := .popped stop job out }

/-- The rest of the turn: a job of an old connection is dropped, another one is answered. -/
def finish (s : State S) (stop : Bool) (job : Job S) (out : Option S.Json) : State S :=
  let s := { s with main := .draining stop, freed := s.freed ++ [⟨job, out, s.era⟩] }
  if job.gen ≠ s.gen then s
  else
    { s with
      replied :=
        match job.reply with
        | none => s.replied
        | some _ => s.replied ++ [⟨job.id, job.ctx, job.req, out⟩]
      completed := s.completed ++ [job.id] }

/-! ### Steps -/

/-- A step of a thread; `i` is a worker. -/
inductive Action (S : Sig) where
  | submit (a : Submission S) (i : ℕ)
  | lost
  | stop
  | join
  | wakeCb
  | read
  | drain
  | finish
  | check (i : ℕ)
  | spurious (i : ℕ)
  | run (i : ℕ) (out : Option S.Json)
  | pushDone (i : ℕ)
  | wake (i : ℕ)

/-- One step, if the thread is at the place for it. -/
def step (capacity : ℕ) (s : State S) : Action S → Option (State S)
  | .submit a i => if SignalOk s.workers i then some (submit s a i).state else none
  | .lost => if s.main.stopping then none else some (connectionLost s)
  | .stop =>
    match s.main with
    | .idle => some (stop s)
    | .stopped => some s
    | _ => none
  | .join =>
    match s.main with
    | .joining => if s.workers.all Worker.isExited then some { s with main := .draining true } else none
    | _ => none
  | .wakeCb =>
    match s.main with
    | .idle => if 0 < s.pipe then some (readPipe s) else none
    | _ => none
  | .read =>
    match s.main with
    | .reading => some (read s)
    | _ => none
  | .drain =>
    match s.main with
    | .draining stop => some (drain s stop)
    | _ => none
  | .finish =>
    match s.main with
    | .popped stop job out => some (finish s stop job out)
    | _ => none
  | .check i =>
    match s.workers[i]? with
    | some .awake => some (check s i)
    | _ => none
  | .spurious i =>
    match s.workers[i]? with
    | some .waiting => some { s with workers := s.workers.set i .awake }
    | _ => none
  | .run i out =>
    match s.workers[i]? with
    | some (.holding job) => some (run s i job out)
    | _ => none
  | .pushDone i =>
    match s.workers[i]? with
    | some (.ran job out) => some (pushDone s i job out)
    | _ => none
  | .wake i =>
    match s.workers[i]? with
    | some .pushed => some (wake capacity s i)
    | _ => none

/-- The states that a pool of `n` workers can reach. -/
inductive Reach (n capacity : ℕ) : State S → Prop where
  | init : Reach n capacity (.init n)
  | step {s s' : State S} {a : Action S} (h : Reach n capacity s)
      (hstep : step capacity s a = some s') : Reach n capacity s'

end DreamingOS.AsyncQuery
