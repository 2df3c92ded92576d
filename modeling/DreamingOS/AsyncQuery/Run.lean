import DreamingOS.AsyncQuery.Books
import DreamingOS.AsyncQuery.Sync

namespace DreamingOS.AsyncQuery

open Hands List
open Multiset (card coe_nodup le_add_left map_add map_coe map_le_map mem_add mem_coe nodup_of_le)

/-!
# Asynchronous queries — every accepted query is answered once

* `Answered`, `Open` — what has become of a job that was accepted;
* `PoolSafe`, `pool_run` — **what the pool keeps to, in every interleaving**;
* `no_reply_function` — a job without a reply function is completed without a reply.

The number of connections that were lost before a job was submitted is its `era`, and the number
that were lost before it was freed is that of the record of its freeing.
-/

variable {S : Sig} {s s' : State S} {n capacity : ℕ}

/-! ### What has become of a job -/

/-- What was sent for a job that was freed: the request is completed once, and replied to once if
    there is a function for it, where no connection was lost; nothing is sent, where one was. -/
structure Outcome (s : State S) (j : Job S) (f : Freed S) : Prop where
  sent : f.era = j.era → s.completed.count j.id = 1 ∧ (s.replied.filter fun r => r.id = j.id) =
      if j.reply.isSome then [⟨j.id, j.ctx, j.req, f.out⟩] else []
  dropped : j.era < f.era → f.era < j.era + 2 ^ 32 → s.completed.count j.id = 0 ∧
    (s.replied.filter fun r => r.id = j.id) = []

/-- The job was run once, and freed once. -/
def Answered (s : State S) (j : Job S) : Prop :=
  (s.hasRun.map Prod.fst).count j.id = 1 ∧
    ∃ f, (s.freed.filter fun f => f.job.id = j.id) = [f] ∧ f.job = j ∧ (j.id, f.out) ∈ s.hasRun ∧
      Outcome s j f

/-- The job was run once at most, and nothing was sent for it yet. -/
def Open (s : State S) (j : Job S) : Prop :=
  (s.hasRun.map Prod.fst).count j.id ≤ 1 ∧ (s.freed.filter fun f => f.job.id = j.id) = [] ∧
    s.completed.count j.id = 0 ∧ (s.replied.filter fun r => r.id = j.id) = []

theorem Books.nodup (h : Books s) : (s.jobs.map Job.id).Nodup := by
  rw [h.jobs, map_coe, coe_nodup, h.ids]
  exact nodup_range

theorem Books.freed_le (h : Books s) : (↑(s.freed.map Freed.job) : Multiset (Job S)) ≤ ↑s.accepted := by
  rw [← h.jobs]
  exact le_add_left _ _

theorem Books.nodup_freed (h : Books s) : (s.freed.map fun f => f.job.id).Nodup := by
  have hsub := map_le_map (f := Job.id) h.freed_le
  rw [map_coe, List.map_map, map_coe] at hsub
  apply coe_nodup.mp
  refine nodup_of_le hsub ?_
  rw [coe_nodup, h.ids]
  exact nodup_range

theorem Books.nodup_hasRun (h : Books s) : (s.hasRun.map Prod.fst).Nodup := by
  have hresults : s.results.map Prod.fst ≤ s.jobs := by
    simp only [State.results, State.jobs, map_add, map_coe, List.map_map]
    refine add_le_add (add_le_add (add_le_add ?_ (le_refl _)) (le_refl _)) (le_refl _)
    refine le_trans (map_held_le (f := Worker.job?) ?_ _) (le_add_left _ _)
    intro w r hr
    cases w with
    | ran job out => exact congrArg (fun x => x.map Prod.fst) hr
    | awake => cases hr
    | waiting => cases hr
    | holding _ => cases hr
    | pushed => cases hr
    | exited => cases hr
  have hids : (↑(s.hasRun.map Prod.fst) : Multiset ℕ) = (s.results.map Prod.fst).map Job.id := by
    rw [← map_coe, h.runs, Multiset.map_map, Multiset.map_map]
    rfl
  apply coe_nodup.mp
  rw [hids]
  exact nodup_of_le (map_le_map hresults) h.nodup

/-- Jobs of one number are one job. -/
theorem Books.job_eq (h : Books s) {j k : Job S} (hj : j ∈ s.accepted) (hk : k ∈ s.accepted)
    (hid : j.id = k.id) : j = k :=
  inj_on_of_nodup_map (by rw [h.ids]; exact nodup_range) hj hk hid

theorem count_completed (h : Books s) (id : ℕ) : s.completed.count id =
    ((s.freed.filter fun f => f.job.id = id).filter Freed.current).length := by
  rw [h.completed, count_eq_countP, countP_map, countP_filter,
    countP_eq_length_filter, List.filter_filter]
  congr 2
  funext f
  rw [Function.comp_apply, Bool.and_comm]
  rfl

theorem filter_replied (h : Books s) (id : ℕ) : (s.replied.filter fun r => r.id = id) =
    ((s.freed.filter fun f => f.job.id = id).filter Freed.answered).map Freed.replied := by
  rw [h.replied, List.filter_map, List.filter_filter, List.filter_filter]
  congr 2
  funext f
  rw [Function.comp_apply, Bool.and_comm]
  rfl

variable {f : Freed S}

/-- The generation tells the connections apart, as long as fewer than `2 ^ 32` were lost. -/
theorem current_iff (h : Books s) (hf : f.job ∈ s.accepted) :
    f.current = true ↔ f.job.era % 2 ^ 32 = f.era % 2 ^ 32 := by
  unfold Freed.current
  rw [decide_eq_true_iff, (h.gens _ hf).1, ← UInt32.toNat_inj, UInt32.toNat_ofNat',
    UInt32.toNat_ofNat']

theorem outcome (h : Books s) (hf : f ∈ s.freed) (hjob : f.job ∈ s.accepted) :
    Outcome s f.job f := by
  have hone := filter_key h.nodup_freed hf
  constructor
  · intro hera
    have hcurrent : f.current = true := (current_iff h hjob).mpr (by rw [hera])
    refine ⟨?_, ?_⟩
    · rw [count_completed h, hone, filter_cons_of_pos hcurrent]
      rfl
    · rw [filter_replied h, hone]
      unfold Freed.answered
      cases hr : f.job.reply.isSome with
      | true =>
        rw [filter_cons_of_pos (by rw [hcurrent, hr]; rfl)]
        rfl
      | false =>
        rw [filter_cons_of_neg (by rw [hr, Bool.and_false]; exact Bool.false_ne_true)]
        rfl
  · intro hlt hfew
    have hcurrent : ¬ f.current = true := by
      rw [current_iff h hjob]
      omega
    refine ⟨?_, ?_⟩
    · rw [count_completed h, hone, filter_cons_of_neg hcurrent]
      rfl
    · rw [filter_replied h, hone, filter_cons_of_neg]
      · rfl
      · unfold Freed.answered
        rw [Bool.eq_false_iff.mpr hcurrent, Bool.false_and]
        exact Bool.false_ne_true

/-- The job of a record of a freeing was run. -/
theorem Books.ran_of_freed (h : Books s) (hf : f ∈ s.freed) : (f.job.id, f.out) ∈ s.hasRun := by
  rw [← mem_coe, h.runs, Multiset.mem_map]
  refine ⟨(f.job, f.out), ?_, rfl⟩
  exact mem_add.mpr (.inr (mem_coe.mpr (List.mem_map_of_mem (f := fun f : Freed S => (f.job, f.out)) hf)))

theorem Books.accepted_of_freed (h : Books s) (hf : f ∈ s.freed) : f.job ∈ s.accepted :=
  mem_coe.mp (Multiset.mem_of_le h.freed_le (mem_coe.mpr (List.mem_map_of_mem hf)))

theorem answered_of_freed (h : Books s) (hf : f ∈ s.freed) : Answered s f.job := by
  have hran := h.ran_of_freed hf
  refine ⟨count_eq_one_of_mem h.nodup_hasRun (List.mem_map_of_mem hran), f,
    filter_key h.nodup_freed hf, rfl, hran, outcome h hf (h.accepted_of_freed hf)⟩

theorem open_or_answered (h : Books s) {j : Job S} (hj : j ∈ s.accepted) :
    Open s j ∨ Answered s j := by
  cases hcase : s.freed.filter fun f => f.job.id = j.id with
  | nil =>
    left
    refine ⟨nodup_iff_count_le_one.mp h.nodup_hasRun _, hcase, ?_, ?_⟩
    · rw [count_completed h, hcase]
      rfl
    · rw [filter_replied h, hcase]
      rfl
  | cons f rest =>
    right
    have hf : f ∈ s.freed.filter fun f => f.job.id = j.id := hcase ▸ mem_cons_self
    obtain ⟨hf, hid⟩ := mem_filter.mp hf
    rw [← h.job_eq (h.accepted_of_freed hf) hj (of_decide_eq_true hid)]
    exact answered_of_freed h hf

/-! ### Every interleaving -/

/-- What the pool keeps to: `each` of the jobs is open or was answered; jobs are started in the
    order in which they were accepted; the counter is right; no wakeup is lost; after a stop every
    job was answered, as it was where no step is left, to which every step leads that is no new
    event; and a refusal changes nothing. -/
structure PoolSafe (capacity : ℕ) (s : State S) : Prop where
  each : ∀ j ∈ s.accepted, Open s j ∨ Answered s j
  source : ∀ r ∈ s.replied, ∃ j ∈ s.accepted, r.id = j.id ∧ r.ctx = j.ctx ∧ r.req = j.req
  order : s.started ++ s.queue = s.accepted
  pending : s.pending = s.queue.length + (s.workers.filterMap Worker.job?).length
  room : s.pending ≤ MAX_PENDING
  wake : s.done ≠ [] → (∀ w ∈ s.workers, w.isPushed = false) → 0 < s.pipe ∨ s.main.drains = true
  stopped : s.main = .stopped → ∀ j ∈ s.accepted, Answered s j
  quiet : Quiet capacity s → ∀ j ∈ s.accepted, Answered s j
  progress : ∀ a : Action S, a.internal = true → ∀ s', step capacity s a = some s' →
    effort s' < effort s
  refused : ∀ (a : Submission S) (i : ℕ), (submit s a i).result ≠ .ok → Refused s a (submit s a i)

theorem reach_inv (hn : 0 < n) (hcap : 0 < capacity) (h : Reach n capacity s) :
    Books s ∧ Sync n s := by
  induction h with
  | init => exact ⟨books_init n, sync_init n⟩
  | step _ hstep ih =>
    have hmove := step_move hstep
    exact ⟨books_move ih.1 hmove, sync_move hn hcap ih.2 hmove⟩

/-- Where no job is queued, with a thread, or done, every job was answered. -/
theorem answered_of_rest (h : Books s) (hqueue : s.queue = [])
    (hworkers : ∀ w ∈ s.workers, w.job? = none) (hdone : s.done = []) (hmain : s.main.result? = none) :
    ∀ j ∈ s.accepted, Answered s j := by
  have hjobs : (↑(s.freed.map Freed.job) : Multiset (Job S)) = ↑s.accepted := by
    rw [← h.jobs, State.jobs, hqueue, held_eq_zero.mpr hworkers, hdone, hmain]
    exact (zero_add _).symm
  intro j hj
  rw [← mem_coe, ← hjobs, mem_coe] at hj
  obtain ⟨f, hf, rfl⟩ := List.mem_map.mp hj
  exact answered_of_freed h hf

theorem job?_of_idle {w : Worker S} (h : w.isWaiting = true ∨ w.isExited = true) : w.job? = none := by
  cases w with
  | awake => rfl
  | waiting => rfl
  | pushed => rfl
  | exited => rfl
  | holding job => rcases h with h | h <;> cases h
  | ran job out => rcases h with h | h <;> cases h

/-- **Every accepted query is answered exactly once**, in every interleaving of the threads. -/
theorem pool_run (hn : 1 ≤ n ∧ n ≤ MAX_WORKERS) (hcap : 0 < capacity)
    (hreach : Reach n capacity s) : PoolSafe capacity s := by
  obtain ⟨hbooks, hsync⟩ := reach_inv hn.1 hcap hreach
  constructor
  · exact fun j hj => open_or_answered hbooks hj
  · intro r hr
    rw [hbooks.replied] at hr
    obtain ⟨f, hf, rfl⟩ := List.mem_map.mp hr
    exact ⟨f.job, hbooks.accepted_of_freed (mem_filter.mp hf).1, rfl, rfl, rfl⟩
  · exact hbooks.order
  · exact hbooks.pending
  · exact hbooks.room
  · exact hsync.wake
  · intro hmain
    have hexited := hsync.joined (by rw [hmain]; rfl)
    have hqueue : s.queue = [] := by
      by_contra hne
      obtain ⟨w, hw, -, hnot⟩ := hsync.awake hne
      rw [hexited w hw] at hnot
      cases hnot
    exact answered_of_rest hbooks hqueue (fun w hw => job?_of_idle (.inr (hexited w hw)))
      (hsync.stopped hmain) (by rw [hmain]; rfl)
  · intro hquiet
    obtain ⟨hqueue, hworkers, hdone, hmain⟩ := rest_of_quiet hsync hquiet
    refine answered_of_rest hbooks hqueue (fun w hw => job?_of_idle (hworkers w hw)) hdone ?_
    rcases hmain with hmain | hmain <;> rw [hmain] <;> rfl
  · exact fun a ha s' hstep => effort_lt ha hstep
  · intro a i hresult
    rcases submit_cases s a i with hrefused | ⟨job, hacc⟩
    · exact hrefused
    · exact absurd hacc.result hresult

/-! ### Outstanding requests -/

/-- How many requests were deferred and have not been completed or dropped. -/
def State.outstanding (s : State S) : ℕ := s.accepted.length - s.freed.length

/-- The jobs that have left the counter and are not freed: on the done queue, or taken from it. -/
def State.finished (s : State S) : ℕ := s.done.length + s.main.result?.toList.length

theorem Books.outstanding_eq (h : Books s) :
    s.outstanding = s.pending + s.finished ∧ s.freed.length ≤ s.accepted.length := by
  have hcard := congrArg card h.jobs
  simp only [State.jobs, Multiset.card_add, Multiset.coe_card, length_map] at hcard
  have hpending := h.pending
  unfold State.outstanding State.finished
  omega

/-- A submission that gets past the check of the counter has room among all that is outstanding. -/
def State.Roomy (s : State S) : Action S → Prop
  | .submit _ _ => s.running = true → s.pending < MAX_PENDING → s.pending + s.finished < MAX_PENDING
  | _ => True

/-- The states that are reached by steps with room. -/
inductive RoomyReach (n capacity : ℕ) : State S → Prop where
  | init : RoomyReach n capacity (.init n)
  | step {s s' : State S} {a : Action S} (h : RoomyReach n capacity s) (hroom : s.Roomy a)
      (hstep : step capacity s a = some s') : RoomyReach n capacity s'

theorem RoomyReach.reach (h : RoomyReach n capacity s) : Reach n capacity s := by
  induction h with
  | init => exact .init
  | step _ _ hstep ih => exact .step ih hstep

theorem Accepted.outstanding (h : Books s) {a : Submission S} {i : ℕ} {job : Job S}
    (hacc : Accepted s a i (submit s a i) job) :
    (submit s a i).state.outstanding = s.pending + s.finished + 1 := by
  obtain ⟨heq, hle⟩ := h.outstanding_eq
  rw [hacc.state, ← heq]
  show (s.accepted ++ [job]).length - s.freed.length = s.accepted.length - s.freed.length + 1
  rw [length_append, length_singleton]
  omega

/-- Only a submission defers a request. -/
theorem step_frees {a : Action S} (hstep : step capacity s a = some s') :
    (∃ b i, a = .submit b i) ∨ (s'.accepted = s.accepted ∧ s.freed.length ≤ s'.freed.length) := by
  cases a with
  | submit b i => exact .inl ⟨b, i, rfl⟩
  | finish =>
    right
    simp only [step] at hstep
    split at hstep
    · cases hstep
      unfold finish
      dsimp only
      split
      · exact ⟨rfl, by rw [length_append]; exact Nat.le_add_right _ _⟩
      · exact ⟨rfl, by rw [length_append]; exact Nat.le_add_right _ _⟩
    · cases hstep
  | check i =>
    right
    simp only [step, check] at hstep
    split at hstep
    · split at hstep <;> cases hstep <;> exact ⟨rfl, Nat.le_refl _⟩
    · cases hstep
  | read =>
    right
    simp only [step, read] at hstep
    split at hstep
    · split at hstep <;> cases hstep <;> exact ⟨rfl, Nat.le_refl _⟩
    · cases hstep
  | drain =>
    right
    simp only [step, drain] at hstep
    split at hstep
    · split at hstep <;> cases hstep <;> exact ⟨rfl, Nat.le_refl _⟩
    · cases hstep
  | _ =>
    right
    simp only [step] at hstep
    repeat' split at hstep
    all_goals cases hstep <;> exact ⟨rfl, Nat.le_refl _⟩

/-- A step with room keeps to the bound. -/
theorem step_outstanding (h : Books s) {a : Action S} (hroom : s.Roomy a)
    (hle : s.outstanding ≤ MAX_PENDING) (hstep : step capacity s a = some s') :
    s'.outstanding ≤ MAX_PENDING := by
  rcases step_frees hstep with ⟨b, i, rfl⟩ | ⟨hacc, hfreed⟩
  · simp only [step] at hstep
    split at hstep
    · cases hstep
      rcases submit_cases s b i with hrefused | ⟨job, hacc⟩
      · rw [hrefused.2.1]
        exact hle
      · rw [hacc.outstanding h]
        exact hroom hacc.running hacc.room
    · cases hstep
  · unfold State.outstanding at hle ⊢
    rw [hacc]
    omega

/-- **Outstanding requests are bounded just as long as the finished jobs leave room**: in a run
    whose submissions find it, and no longer after one that is accepted without. -/
theorem outstanding_bounded (hn : 0 < n) (hcap : 0 < capacity) :
    (∀ s : State S, RoomyReach n capacity s → s.outstanding ≤ MAX_PENDING) ∧
    ∀ (s : State S) (a : Submission S) (i : ℕ), Reach n capacity s →
      (submit s a i).result = .ok → ¬ s.Roomy (.submit a i) →
      MAX_PENDING < (submit s a i).state.outstanding := by
  constructor
  · intro s h
    induction h with
    | init => exact Nat.zero_le _
    | step h hroom hstep ih => exact step_outstanding (reach_inv hn hcap h.reach).1 hroom ih hstep
  · intro s a i h hok hnot
    rcases submit_cases s a i with hrefused | ⟨job, hacc⟩
    · exact absurd hok hrefused.1
    · rw [hacc.outstanding (reach_inv hn hcap h).1]
      by_contra hle
      exact hnot fun _ _ => by omega

/-! ### Coming to rest -/

/-- A pool that passes nothing but units. -/
def unitSig : Sig := ⟨Unit, Unit, Unit, Unit, Unit⟩

def noReply : Submission unitSig := ⟨some (), some (), some (), some (), none, true, none⟩

theorem pool_run_submitted : PoolSafe 1 (submit (.init 2) noReply 0 : Submitted unitSig).state :=
  pool_run (n := 2) ⟨by decide, by decide⟩ (by decide) (.step (a := .submit noReply 0) .init rfl)

/-- **A job without a reply function is completed without a reply**, although no connection was
    lost. -/
theorem no_reply_function : ∃ s : State unitSig, Reach 1 1 s ∧
    (submit (.init 1) noReply 0 : Submitted unitSig).result = .ok ∧
    (∃ j ∈ s.accepted, ∃ f ∈ s.freed, f.job = j ∧ f.era = j.era) ∧ s.completed = [0] ∧
    s.replied = [] :=
  ⟨_, .step (a := .finish) (.step (a := .drain) (.step (a := .read) (.step (a := .wakeCb)
    (.step (a := .wake 0) (.step (a := .pushDone 0) (.step (a := .run 0 none) (.step (a := .check 0)
    (.step (a := .submit noReply 0) .init rfl) rfl) rfl) rfl) rfl) rfl) rfl) rfl) rfl,
    rfl, ⟨_, mem_singleton_self _, _, mem_singleton_self _, rfl, rfl⟩, rfl, rfl⟩

theorem outstanding_bounded_units :
    (submit (.init 2) noReply 0 : Submitted unitSig).state.outstanding ≤ MAX_PENDING :=
  (outstanding_bounded (n := 2) (by decide) (show 0 < 1 by decide)).1 _
    (.step (a := .submit noReply 0) .init (fun _ _ => by decide) rfl)

theorem reach_steps {as : List (Action S)} (h : Reach n capacity s)
    (hsteps : as.foldlM (step capacity) s = some s') : Reach n capacity s' := by
  induction as generalizing s with
  | nil =>
    cases hsteps
    exact h
  | cons a as ih =>
    rw [foldlM_cons] at hsteps
    obtain ⟨t, ht, hsteps⟩ := Option.bind_eq_some_iff.mp hsteps
    exact ih (h.step ht) hsteps

/-- **One request too many is deferred**: the main thread takes 64 requests, the worker finishes
    one of them, and the main thread takes one more before it drains. -/
theorem one_too_many : ∃ s : State unitSig, Reach 1 1 s ∧ MAX_PENDING < s.outstanding := by
  have hsteps : ((List.replicate 64 (.submit noReply 0) ++ [.check 0, .run 0 none, .pushDone 0,
      .submit noReply 0] : List (Action unitSig)).foldlM (step 1) (.init 1)).map
        State.outstanding = some 65 := by
    decide +kernel
  obtain ⟨s, hs, hcount⟩ := Option.map_eq_some_iff.mp hsteps
  exact ⟨s, reach_steps .init hs, by rw [hcount]; decide⟩

end DreamingOS.AsyncQuery
