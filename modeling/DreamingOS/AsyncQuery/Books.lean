import DreamingOS.AsyncQuery.Moves

namespace DreamingOS.AsyncQuery

open Hands List Option
open Multiset (card card_add card_singleton coe_add coe_nil coe_singleton cons_coe map_add mem_add mem_coe singleton_add)

/-!
# Asynchronous queries — where the jobs are

* `State.jobs`, `State.results` — the jobs that the pool has anywhere, and the results of those that
  were run;
* `Books` — the jobs of the pool are those it has accepted, each one once, and what was sent is what
  was due;
* `books_move` — every move keeps the books.
-/

variable {S : Sig} {s s' : State S} {capacity : ℕ}

/-! ### Jobs and results -/

def Worker.job? : Worker S → Option (Job S)
  | .holding job => some job
  | .ran job _ => some job
  | _ => none

def Worker.result? : Worker S → Option (Job S × Option S.Json)
  | .ran job out => some (job, out)
  | _ => none

def Main.result? : Main S → Option (Job S × Option S.Json)
  | .popped _ job out => some (job, out)
  | _ => none

/-- The jobs that the pool has, or has had. -/
def State.jobs (s : State S) : Multiset (Job S) :=
  ↑s.queue + held Worker.job? s.workers + ↑(s.done.map Prod.fst) +
    ↑(s.main.result?.toList.map Prod.fst) + ↑(s.freed.map Freed.job)

/-- The results of the jobs that were run. -/
def State.results (s : State S) : Multiset (Job S × Option S.Json) :=
  held Worker.result? s.workers + ↑s.done + ↑s.main.result?.toList +
    ↑(s.freed.map fun f => (f.job, f.out))

/-- The job was freed on the connection it was submitted on, as far as the generation tells. -/
def Freed.current (f : Freed S) : Bool := f.job.gen = UInt32.ofNat f.era

/-- A reply was due for the job. -/
def Freed.answered (f : Freed S) : Bool := f.current && f.job.reply.isSome

def Freed.replied (f : Freed S) : Replied S := ⟨f.job.id, f.job.ctx, f.job.req, f.out⟩

/-- The accounts of the pool. -/
structure Books (s : State S) : Prop where
  ids : s.accepted.map Job.id = List.range s.accepted.length
  order : s.started ++ s.queue = s.accepted
  jobs : s.jobs = ↑s.accepted
  runs : (↑s.hasRun : Multiset (ℕ × Option S.Json)) = s.results.map fun r => (r.1.id, r.2)
  gen : s.gen = UInt32.ofNat s.era
  gens : ∀ j ∈ s.accepted, j.gen = UInt32.ofNat j.era ∧ j.era ≤ s.era
  eras : ∀ f ∈ s.freed, f.job.era ≤ f.era
  completed : s.completed = (s.freed.filter Freed.current).map fun f => f.job.id
  replied : s.replied = (s.freed.filter Freed.answered).map Freed.replied
  pending : s.pending = s.queue.length + card (held Worker.job? s.workers)
  room : s.pending ≤ MAX_PENDING

/-! ### Moves that touch no job -/

theorem Books.quiet (h : Books s) (workers : List (Worker S)) (main : Main S) (pipe : ℕ)
    (running : Bool) (hjobs : held Worker.job? workers = held Worker.job? s.workers)
    (hresults : held Worker.result? workers = held Worker.result? s.workers)
    (hmain : main.result? = s.main.result?) :
    Books { s with workers := workers, main := main, pipe := pipe, running := running } where
  ids := h.ids
  order := h.order
  jobs := by
    rw [← h.jobs]
    simp only [State.jobs, hjobs, hmain]
  runs := by
    rw [h.runs]
    simp only [State.results, hresults, hmain]
  gen := h.gen
  gens := h.gens
  eras := h.eras
  completed := h.completed
  replied := h.replied
  pending := by rw [hjobs]; exact h.pending
  room := h.room

variable {i : ℕ}

/-- Two stages of a worker without a job. -/
theorem Books.step_aside (h : Books s) {w : Worker S} (hw : s.workers[i]? = some w)
    (w' : Worker S) (hjob : w.job? = none) (hresult : w.result? = none) (hjob' : w'.job? = none)
    (hresult' : w'.result? = none) (pipe : ℕ) :
    Books { s with workers := s.workers.set i w', pipe := pipe } := by
  apply h.quiet
  · rw [held_set_none hw hjob, hjob', toList_none, coe_nil, add_zero]
  · rw [held_set_none hw hresult, hresult', toList_none, coe_nil, add_zero]
  · rfl

variable {α : Type}

theorem held_signal {f : Worker S → Option α} (hw : f .waiting = none)
    (ha : f .awake = none) (workers : List (Worker S)) (i : ℕ) :
    held f (signal workers i) = held f workers := by
  unfold signal
  split
  · next h =>
    rw [held_set_none h hw, ha, toList_none, coe_nil, add_zero]
  · rfl

theorem held_wakeUp {f : Worker S → Option α} (hw : f .waiting = none)
    (ha : f .awake = none) (workers : List (Worker S)) :
    held f (workers.map Worker.wakeUp) = held f workers := by
  apply held_map
  intro w
  cases w with
  | waiting => exact ha.trans hw.symm
  | awake => rfl
  | holding _ => rfl
  | ran _ _ => rfl
  | pushed => rfl
  | exited => rfl

/-! ### The other moves -/

variable {job : Job S}

theorem books_accepted (h : Books s) (hroom : s.pending < MAX_PENDING)
    (hid : job.id = s.accepted.length) (hera : job.era = s.era) (hgen : job.gen = s.gen) :
    Books (s.push job i) where
  ids := by
    show (s.accepted ++ [job]).map Job.id = List.range (s.accepted ++ [job]).length
    rw [map_append, h.ids, length_append, length_singleton, range_succ, map_singleton, hid]
  order := by
    show s.started ++ (s.queue ++ [job]) = s.accepted ++ [job]
    rw [← append_assoc, h.order]
  jobs := by
    have hjobs := h.jobs
    unfold State.jobs at hjobs ⊢
    show (↑(s.queue ++ [job]) : Multiset (Job S)) + held Worker.job? (signal s.workers i) + _ + _ + _ =
      ↑(s.accepted ++ [job])
    rw [held_signal rfl rfl, ← coe_add, ← coe_add, ← hjobs]
    abel
  runs := by
    rw [show (s.push job i).hasRun = s.hasRun from rfl, h.runs]
    simp only [State.results, State.push, held_signal (f := Worker.result?) rfl rfl]
  gen := h.gen
  gens := by
    intro j hj
    rcases mem_append.mp hj with hj | hj
    · exact h.gens j hj
    · rw [mem_singleton.mp hj, hgen, hera, h.gen]
      exact ⟨rfl, Nat.le_refl _⟩
  eras := h.eras
  completed := h.completed
  replied := h.replied
  pending := by
    show s.pending + 1 = (s.queue ++ [job]).length +
      card (held Worker.job? (signal s.workers i))
    rw [held_signal rfl rfl, length_append, length_singleton, h.pending]
    omega
  room := hroom

theorem books_lost (h : Books s) : Books (connectionLost s) where
  ids := h.ids
  order := h.order
  jobs := h.jobs
  runs := h.runs
  gen := by
    show s.gen + 1 = UInt32.ofNat (s.era + 1)
    rw [h.gen, UInt32.ofNat_add]
    rfl
  gens := fun j hj => ⟨(h.gens j hj).1, Nat.le_succ_of_le (h.gens j hj).2⟩
  eras := h.eras
  completed := h.completed
  replied := h.replied
  pending := h.pending
  room := h.room

variable {out : Option S.Json} {stop : Bool}

theorem books_drainPop (h : Books s)
    {rest : List (Job S × Option S.Json)} (hmain : s.main = .draining stop)
    (hdone : s.done = (job, out) :: rest) :
    Books { s with done := rest, main := .popped stop job out } where
  ids := h.ids
  order := h.order
  jobs := by
    rw [← h.jobs]
    simp only [State.jobs, hmain, hdone, Main.result?, map_cons, toList_none,
      toList_some, map_nil, ← cons_coe, coe_nil]
    rw [← singleton_add, ← singleton_add]
    abel
  runs := by
    rw [h.runs]
    congr 1
    simp only [State.results, hmain, hdone, Main.result?, toList_none, toList_some,
      ← cons_coe, coe_nil]
    rw [← singleton_add, ← singleton_add]
    abel
  gen := h.gen
  gens := h.gens
  eras := h.eras
  completed := h.completed
  replied := h.replied
  pending := h.pending
  room := h.room

theorem books_take (h : Books s) {rest : List (Job S)}
    (hw : s.workers[i]? = some .awake) (hqueue : s.queue = job :: rest) :
    Books { s with
      workers := s.workers.set i (.holding job)
      queue := rest
      started := s.started ++ [job] } := by
  have hjobs : held Worker.job? (s.workers.set i (.holding job)) =
      held Worker.job? s.workers + {job} := held_set_none hw rfl _
  have hresults : held Worker.result? (s.workers.set i (.holding job)) =
      held Worker.result? s.workers := by
    rw [held_set_none hw rfl]
    exact add_zero _
  constructor
  · exact h.ids
  · show s.started ++ [job] ++ rest = s.accepted
    rw [← h.order, hqueue, append_assoc, singleton_append]
  · rw [← h.jobs]
    simp only [State.jobs, hjobs, hqueue, ← cons_coe]
    rw [← singleton_add]
    abel
  · rw [h.runs]
    simp only [State.results, hresults]
  · exact h.gen
  · exact h.gens
  · exact h.eras
  · exact h.completed
  · exact h.replied
  · show s.pending = rest.length + _
    rw [hjobs, card_add, card_singleton, h.pending, hqueue, length_cons]
    omega
  · exact h.room

theorem books_run (h : Books s) (out : Option S.Json)
    (hw : s.workers[i]? = some (.holding job)) : Books (run s i job out) := by
  have hjobs : held Worker.job? (s.workers.set i (.ran job out)) = held Worker.job? s.workers :=
    add_right_cancel (held_set (f := Worker.job?) hw (.ran job out))
  have hresults : held Worker.result? (s.workers.set i (.ran job out)) =
      held Worker.result? s.workers + {(job, out)} := held_set_none hw rfl _
  constructor
  · exact h.ids
  · exact h.order
  · rw [show (run s i job out).accepted = s.accepted from rfl, ← h.jobs]
    simp only [State.jobs, run, hjobs]
  · show (↑(s.hasRun ++ [(job.id, out)]) : Multiset (ℕ × Option S.Json)) = _
    rw [← coe_add, h.runs]
    simp only [State.results, run, hresults, map_add, Multiset.map_singleton,
      coe_singleton]
    abel
  · exact h.gen
  · exact h.gens
  · exact h.eras
  · exact h.completed
  · exact h.replied
  · rw [show (run s i job out).pending = s.pending from rfl, h.pending]
    simp only [run, hjobs]
  · exact h.room

theorem books_pushDone (h : Books s)
    (hw : s.workers[i]? = some (.ran job out)) : Books (pushDone s i job out) := by
  have hjobs : held Worker.job? (s.workers.set i .pushed) + {job} = held Worker.job? s.workers := by
    have hset := held_set (f := Worker.job?) hw .pushed
    exact hset.trans (add_zero _)
  have hresults : held Worker.result? (s.workers.set i .pushed) + {(job, out)} =
      held Worker.result? s.workers := by
    have hset := held_set (f := Worker.result?) hw .pushed
    exact hset.trans (add_zero _)
  have hcard := congrArg card hjobs
  rw [card_add, card_singleton] at hcard
  -- the guard of the counter always holds: the job itself is pending
  have hpending : (pushDone s i job out).pending = s.pending - 1 := by
    show (if 0 < s.pending then s.pending - 1 else s.pending) = s.pending - 1
    rw [if_pos (by rw [h.pending]; omega)]
  constructor
  · exact h.ids
  · exact h.order
  · rw [show (pushDone s i job out).accepted = s.accepted from rfl, ← h.jobs]
    simp only [State.jobs, pushDone, ← hjobs, map_append, map_singleton,
      ← coe_add, coe_singleton]
    abel
  · rw [show (pushDone s i job out).hasRun = s.hasRun from rfl, h.runs]
    congr 1
    simp only [State.results, pushDone, ← hresults, ← coe_add, coe_singleton]
    abel
  · exact h.gen
  · exact h.gens
  · exact h.eras
  · exact h.completed
  · exact h.replied
  · rw [hpending, h.pending]
    show _ = s.queue.length + card (held Worker.job? (s.workers.set i .pushed))
    omega
  · rw [hpending]
    exact Nat.le_trans (Nat.sub_le _ _) h.room

/-- What a turn of the drain leaves. -/
theorem finish_eq (h : Books s) (stop : Bool) (job : Job S) (out : Option S.Json) :
    finish s stop job out =
      { s with
        main := .draining stop
        freed := s.freed ++ [⟨job, out, s.era⟩]
        replied := if (⟨job, out, s.era⟩ : Freed S).answered then
          s.replied ++ [(⟨job, out, s.era⟩ : Freed S).replied] else s.replied
        completed := if (⟨job, out, s.era⟩ : Freed S).current then s.completed ++ [job.id]
          else s.completed } := by
  unfold finish Freed.answered Freed.current
  dsimp only
  rw [← h.gen]
  by_cases hgen : job.gen = s.gen
  · rw [if_neg (not_not_intro hgen), decide_eq_true hgen]
    cases job.reply <;> rfl
  · rw [if_pos hgen, decide_eq_false hgen]
    rfl

theorem books_finish (h : Books s)
    (hmain : s.main = .popped stop job out) : Books (finish s stop job out) := by
  have hjob : job ∈ s.accepted := by
    rw [← mem_coe, ← h.jobs]
    simp only [State.jobs, hmain, Main.result?, toList_some, map_singleton,
      mem_add, coe_singleton, Multiset.mem_singleton, true_or, or_true]
  rw [finish_eq h]
  constructor
  · exact h.ids
  · exact h.order
  · rw [← h.jobs]
    simp only [State.jobs, hmain, Main.result?, toList_some, toList_none,
      map_append, map_singleton, map_nil, ← coe_add, coe_nil]
    abel
  · rw [h.runs]
    congr 1
    simp only [State.results, hmain, Main.result?, toList_some, toList_none,
      map_append, map_singleton, ← coe_add, coe_nil]
    abel
  · exact h.gen
  · exact h.gens
  · intro f hf
    rcases mem_append.mp hf with hf | hf
    · exact h.eras f hf
    · rw [mem_singleton.mp hf]
      exact (h.gens job hjob).2
  · dsimp only
    rw [filter_append, map_append, ← h.completed]
    split
    · next hc => rw [filter_cons_of_pos hc]; rfl
    · next hc => rw [filter_cons_of_neg hc, filter_nil, map_nil, append_nil]
  · dsimp only
    rw [filter_append, map_append, ← h.replied]
    split
    · next hc => rw [filter_cons_of_pos hc]; rfl
    · next hc => rw [filter_cons_of_neg hc, filter_nil, map_nil, append_nil]
  · exact h.pending
  · exact h.room

/-! ### Every move -/

theorem books_init (n : ℕ) : Books (.init n : State S) where
  ids := rfl
  order := rfl
  jobs := by
    show (0 : Multiset (Job S)) + held Worker.job? (List.replicate n .awake) + 0 + 0 + 0 = 0
    rw [held_replicate rfl]
    rfl
  runs := by
    show (0 : Multiset (ℕ × Option S.Json)) = (held Worker.result? (List.replicate n .awake) + 0 + 0 + 0).map _
    rw [held_replicate rfl]
    rfl
  gen := rfl
  gens := nofun
  eras := nofun
  completed := rfl
  replied := rfl
  pending := by
    show 0 = 0 + card (held Worker.job? (List.replicate n .awake))
    rw [held_replicate rfl]
    rfl
  room := Nat.zero_le _

theorem books_move (h : Books s) (hm : Move capacity s s') : Books s' := by
  cases hm with
  | none => exact h
  | accepted job i _ hroom hid hera hgen _ => exact books_accepted h hroom hid hera hgen
  | lost _ => exact books_lost h
  | stop hmain =>
    exact h.quiet _ _ _ _ (held_wakeUp rfl rfl _) (held_wakeUp rfl rfl _) (by rw [hmain]; rfl)
  | join hmain _ => exact h.quiet _ _ _ _ rfl rfl (by rw [hmain]; rfl)
  | wakeCb hmain _ => exact h.quiet _ _ _ _ rfl rfl (by rw [hmain]; rfl)
  | readMore hmain _ => exact h.quiet _ _ _ _ rfl rfl (by rw [hmain])
  | readEnd hmain _ => exact h.quiet _ _ _ _ rfl rfl (by rw [hmain]; rfl)
  | drainEnd stop hmain _ => exact h.quiet _ _ _ _ rfl rfl (by rw [hmain]; cases stop <;> rfl)
  | drainPop stop job out rest hmain hdone => exact books_drainPop h hmain hdone
  | finish stop job out hmain => exact books_finish h hmain
  | wait i hw _ _ => exact h.step_aside hw _ rfl rfl rfl rfl _
  | exit i hw _ _ => exact h.step_aside hw _ rfl rfl rfl rfl _
  | take i job rest hw hqueue => exact books_take h hw hqueue
  | spurious i hw => exact h.step_aside hw _ rfl rfl rfl rfl _
  | run i job out hw => exact books_run h out hw
  | pushDone i job out hw => exact books_pushDone h hw
  | wake i hw => exact h.step_aside hw _ rfl rfl rfl rfl _

end DreamingOS.AsyncQuery
