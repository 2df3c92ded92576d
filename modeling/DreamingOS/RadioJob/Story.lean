import DreamingOS.RadioJob.Journal

namespace DreamingOS.RadioJob

open Option

/-!
# Radio jobs — the story of a row

What one call does to the row of a job, and what a row keeps from one call to the next.

* `RowOk`, `Inv` — a job has a finish exactly when it has ended;
* `Effect`, `Moves` — what a call does to a row, and to the row of any job;
* `perform_spec` — every call leaves the journal as it is, or moves each of its rows;
* `Story` — what a row keeps while it is there.
-/

variable {arrayLength : String → Option ℕ} {db : Sqlite} {j : Journal} {a : Assignment} {now : ℤ}
  {r r' : Row} {c : Call}

/-! ### Rows -/

/-- The place of a state in the life of a job. -/
def State.rank : State → ℕ
  | .offered => 0
  | .running => 1
  | .cancelRequested => 2
  | .completed | .failed | .cancelled | .interrupted => 3

theorem terminal_iff {s : State} : s.terminal = true ↔ s.rank = 3 := by
  cases s <;> decide

/-- What holds of every row. -/
structure RowOk (r : Row) : Prop where
  valid : r.assignment.valid = true
  finished : r.finishId ≠ "" ↔ r.state.terminal = true
  acked : r.finishAcked = true → r.finishId ≠ ""

def Inv (j : Journal) : Prop := ∀ k r, j.find k = some r → RowOk r

theorem RowOk.unfinished (h : RowOk r) (hstate : r.state.terminal = false) : r.finishId = "" := by
  by_contra hfinish
  rw [h.finished.mp hfinish] at hstate
  cases hstate

theorem uuidV4Valid_ne {value : String} (h : uuidV4Valid value = true) : value ≠ "" := by
  rintro rfl
  cases h

theorem outcomeState_terminal {outcome : String} {state : State}
    (h : outcomeState outcome = some state) : state.terminal = true := by
  unfold outcomeState at h
  split at h
  · obtain rfl := some.inj h
    rfl
  split at h
  · obtain rfl := some.inj h
    rfl
  split at h
  · obtain rfl := some.inj h
    rfl
  · cases h

/-! ### Effects -/

/-- How a call changes a row. -/
inductive Effect : Call → Row → Row → Prop
  | running (r : Row) (now : ℤ) (hstate : r.state = .offered) :
    Effect (.markRunning r.assignment now) r (setState .running now r)
  | cancelled (r : Row) (now : ℤ) (hstate : r.state = .offered ∨ r.state = .running) :
    Effect (.cancelRequested r.assignment now) r (setState .cancelRequested now r)
  | rebound (r : Row) (epoch : String) (now : ℤ) (hepoch : isLowerHex epoch 64 = true)
    (hacked : r.finishAcked = false) :
    Effect (.rebind r.assignment epoch now) r (setEpoch epoch now r)
  | finished (r : Row) (f : Finish) (state : State) (text : String) (count bytes : ℕ) (now : ℤ)
    (hassignment : f.assignment = r.assignment) (hnew : r.finishId = "")
    (hid : f.finishId ≠ "") (hstate : state.terminal = true) :
    Effect (.finish f now) r (setFinish f state text count bytes now r)
  | acked (r : Row) (now : ℤ) (hfinish : r.finishId ≠ "") (hacked : r.finishAcked = false) :
    Effect (.ack r.assignment r.finishId now) r (setAck now r)
  | interrupted (r : Row) (now : ℤ) (hexecuting : r.executing = true)
    (hid : (setInterrupted now r).finishId ≠ "") :
    Effect (.restart now) r (setInterrupted now r)

/-- A row that may be deleted. -/
def Removable (now : ℤ) (r : Row) : Prop :=
  r.reported = true ∧ r.updatedAt < now - RETENTION_SECONDS

/-- What a call does to the row of a job. -/
inductive Moves (c : Call) : Option Row → Option Row → Prop
  | same (r : Option Row) : Moves c r r
  | offered (a : Assignment) (now : ℤ) (hcall : c = .offer a now) (hvalid : a.valid = true) :
    Moves c none (some (offeredRow a now))
  | changed (r r' : Row) (h : Effect c r r') : Moves c (some r) (some r')
  | removed (r : Row) (now : ℤ) (h : Removable now r) : Moves c (some r) none

/-- All a call can do. -/
def Performed (j : Journal) (c : Call) (reply : Reply) : Prop :=
  reply.journal = j ∨ (reply.result = .ok ∧ ∀ k, Moves c (j.find k) (reply.journal.find k))

/-! ### What a row keeps -/

/-- What a row keeps while it is there. -/
structure Story (r r' : Row) : Prop where
  assignment : r'.assignment = { r.assignment with sessionEpoch := r'.assignment.sessionEpoch }
  state : r'.state = r.state ∨ r.state.rank < r'.state.rank
  finish : r.finishId ≠ "" → r'.finishId = r.finishId ∧ r'.state = r.state ∧
    r'.outcome = r.outcome ∧ r'.errorCode = r.errorCode ∧ r'.observedAt = r.observedAt ∧
    r'.resultJson = r.resultJson ∧ r'.resultCount = r.resultCount ∧
    r'.resultBytes = r.resultBytes ∧ r'.resultComplete = r.resultComplete
  acked : r.finishAcked = true → r'.finishAcked = true

theorem Story.refl (r : Row) : Story r r :=
  ⟨rfl, .inl rfl, fun _ => ⟨rfl, rfl, rfl, rfl, rfl, rfl, rfl, rfl, rfl⟩, id⟩

theorem Story.trans {r'' : Row} (h : Story r r') (h' : Story r' r'') : Story r r'' where
  assignment := by
    rw [h'.assignment, h.assignment]
  state := by
    obtain hstate | hstate := h.state
    · rw [← hstate]
      exact h'.state
    · obtain hstate' | hstate' := h'.state
      · rw [hstate']
        exact .inr hstate
      · exact .inr (Nat.lt_trans hstate hstate')
  finish := by
    intro hfinish
    have hfirst := h.finish hfinish
    have hsecond := h'.finish (hfirst.1.symm ▸ hfinish)
    simp only [hfirst] at hsecond
    exact hsecond
  acked := h'.acked ∘ h.acked

/-- A row whose state moves on has no finish yet. -/
theorem story_of_open (hr : RowOk r) (hopen : r.state.terminal = false)
    (hassignment : r'.assignment = r.assignment) (hrank : r.state.rank < r'.state.rank) :
    Story r r' where
  assignment := by rw [hassignment]
  state := Or.inr hrank
  finish hfinish := absurd (hr.unfinished hopen) hfinish
  acked hacked := absurd (hr.unfinished hopen) (hr.acked hacked)

theorem effect_story (hr : RowOk r) (h : Effect c r r') : Story r r' := by
  cases h with
  | running _ now hstate =>
    apply story_of_open hr
    · rw [hstate]
      rfl
    · rfl
    · rw [hstate]
      exact Nat.zero_lt_one
  | cancelled _ now hstate =>
    apply story_of_open hr
    · obtain hstate | hstate := hstate <;> rw [hstate] <;> rfl
    · rfl
    · show r.state.rank < 2
      obtain hstate | hstate := hstate <;> rw [hstate] <;> decide
  | rebound _ epoch now hepoch hacked =>
    exact ⟨rfl, .inl rfl, fun _ => ⟨rfl, rfl, rfl, rfl, rfl, rfl, rfl, rfl, rfl⟩, id⟩
  | finished _ f state text count bytes now hassignment hnew hid hstate =>
    have hopen : r.state.terminal = false := by
      rw [← Bool.not_eq_true, ← hr.finished, not_not]
      exact hnew
    apply story_of_open hr hopen
    · rfl
    · show r.state.rank < state.rank
      rw [terminal_iff.mp hstate]
      revert hopen
      cases r.state <;> decide
  | acked _ now hfinish hacked =>
    exact ⟨rfl, .inl rfl, fun _ => ⟨rfl, rfl, rfl, rfl, rfl, rfl, rfl, rfl, rfl⟩, fun _ => rfl⟩
  | interrupted _ now hexecuting hid =>
    have hstate : r.state = .running ∨ r.state = .cancelRequested := by
      simpa [Row.executing] using hexecuting
    apply story_of_open hr
    · obtain hstate | hstate := hstate <;> rw [hstate] <;> rfl
    · rfl
    · show r.state.rank < 3
      obtain hstate | hstate := hstate <;> rw [hstate] <;> decide

theorem offeredRow_ok (hvalid : a.valid = true) : RowOk (offeredRow a now) where
  valid := hvalid
  finished := ⟨fun h => absurd rfl h, nofun⟩
  acked := nofun

theorem effect_ok (hr : RowOk r) (h : Effect c r r') : RowOk r' := by
  cases h with
  | running _ now hstate =>
    have hopen := hr.unfinished (by rw [hstate]; rfl)
    exact ⟨hr.valid, ⟨fun h => absurd hopen h, nofun⟩, hr.acked⟩
  | cancelled _ now hstate =>
    have hopen := hr.unfinished (by obtain hstate | hstate := hstate <;> rw [hstate] <;> rfl)
    exact ⟨hr.valid, ⟨fun h => absurd hopen h, nofun⟩, hr.acked⟩
  | rebound _ epoch now hepoch hacked =>
    refine ⟨?_, hr.finished, hr.acked⟩
    have hold := hr.valid
    unfold Assignment.valid at hold ⊢
    simp only [decide_eq_true_eq] at hold ⊢
    exact ⟨hold.1, hold.2.1, hold.2.2.1, hold.2.2.2.1, hold.2.2.2.2.1, hepoch, hold.2.2.2.2.2.2⟩
  | finished _ f state text count bytes now hassignment hnew hid hstate =>
    exact ⟨hr.valid, ⟨fun _ => hstate, fun _ => hid⟩, nofun⟩
  | acked _ now hfinish hacked => exact ⟨hr.valid, hr.finished, fun _ => hfinish⟩
  | interrupted _ now hexecuting hid => exact ⟨hr.valid, ⟨fun _ => rfl, fun _ => hid⟩, nofun⟩

/-! ### Calls -/

theorem commit_performed {reply : Reply} (h : Performed j c reply) : Performed j c (commit db j reply) := by
  unfold commit
  split
  · exact h
  · exact .inl rfl

/-- What an update leaves, in front of its `COMMIT`. -/
theorem guardedUpdate_performed {check : Row → Check} {set : Row → Row}
    {hset : ∀ r, (set r).jobId = r.jobId} {behind : Journal → Option Journal}
    (hready : ∀ r final, j.find a.jobId = some r → r.assignment = a → check r = .ready →
      behind (j.update (fun r => r.jobId = a.jobId) set hset) = some final →
      ∀ k, Moves c (j.find k) (final.find k)) :
    Performed j c (guardedUpdate db j a check set hset behind) := by
  unfold guardedUpdate
  split
  · exact .inl rfl
  split
  · exact commit_performed (.inl rfl)
  cases hfind : j.find a.jobId with
  | none => exact commit_performed (.inl rfl)
  | some r =>
    dsimp only
    split
    · exact commit_performed (.inl rfl)
    next hassignment =>
    cases hcheck : check r with
    | conflict => exact commit_performed (.inl rfl)
    | idempotent => exact commit_performed (.inl rfl)
    | stored same =>
      dsimp only
      split
      · exact .inl rfl
      · exact commit_performed (.inl rfl)
    | ready =>
      dsimp only
      split
      · exact .inl rfl
      cases hbehind : behind (j.update (fun r => r.jobId = a.jobId) set hset) with
      | none => exact .inl rfl
      | some final =>
        apply commit_performed
        exact .inr ⟨rfl, hready r final hfind (not_not.mp hassignment).symm hcheck hbehind⟩

/-- One row moves, the others stay. -/
theorem moves_update {set : Row → Row} {hset : ∀ r, (set r).jobId = r.jobId}
    (hr : j.find a.jobId = some r) (heffect : Effect c r (set r)) (k : String) :
    Moves c (j.find k) ((j.update (fun r => r.jobId = a.jobId) set hset).find k) := by
  rw [Table.find_update_key hset hr]
  split
  · next hk =>
    rw [← hk, hr]
    exact .changed _ _ heffect
  · exact .same _

/-- The updates with nothing behind them. -/
theorem performed_of_update {check : Row → Check} {set : Row → Row}
    {hset : ∀ r, (set r).jobId = r.jobId}
    (heffect : ∀ r, r.assignment = a → check r = .ready → Effect c r (set r)) :
    Performed j c (guardedUpdate db j a check set hset some) := by
  apply guardedUpdate_performed
  intro r final hr hassignment hcheck hbehind k
  obtain rfl := some.inj hbehind
  exact moves_update hr (heffect r hassignment hcheck) k

theorem offerStore_performed : Performed j (.offer a now) (offerStore db j a now) := by
  unfold offerStore
  split
  · exact .inl rfl
  next hargs =>
  split
  · exact .inl rfl
  cases hfind : j.find a.jobId with
  | some existing => exact commit_performed (.inl rfl)
  | none =>
    dsimp only
    split
    · exact .inl rfl
    unfold insertRow
    split
    · exact .inl rfl
    next written hinsert =>
    split
    · exact .inl rfl
    split at hinsert
    · next hkey =>
      obtain rfl := some.inj hinsert
      have hvalid : a.valid = true := by
        by_contra hno
        exact hargs (.inl (by simpa using hno))
      refine commit_performed (.inr ⟨rfl, fun k => ?_⟩)
      rw [Table.find_insert]
      split
      · next hk =>
        rw [← hk, show j.find (offeredRow a now).jobId = none from hfind]
        exact .offered a now rfl hvalid
      · exact .same _
    · cases hinsert

theorem checkState_ready {sources : List State} {target : State}
    (h : checkState sources target r = .ready) : r.state ∈ sources := by
  unfold checkState at h
  split at h
  · cases h
  split at h
  · cases h
  next hstate => exact not_not.mp hstate

theorem markRunning_performed : Performed j (.markRunning a now) (markRunning db j a now) := by
  unfold markRunning assignmentTransition
  split
  · exact .inl rfl
  apply performed_of_update
  rintro r rfl hcheck
  exact .running r now (by simpa using checkState_ready hcheck)

theorem cancelRequested_performed :
    Performed j (.cancelRequested a now) (cancelRequested db j a now) := by
  unfold cancelRequested assignmentTransition
  split
  · exact .inl rfl
  apply performed_of_update
  rintro r rfl hcheck
  exact .cancelled r now (by simpa using checkState_ready hcheck)

theorem sessionRebind_performed {epoch : String} :
    Performed j (.rebind a epoch now) (sessionRebind db j a epoch now) := by
  unfold sessionRebind
  split
  · exact .inl rfl
  next hargs =>
  have hepoch : isLowerHex epoch 64 = true := by
    by_contra hno
    exact hargs (.inr (.inl (by simpa using hno)))
  apply performed_of_update
  rintro r rfl hcheck
  unfold checkEpoch at hcheck
  split at hcheck
  · cases hcheck
  next hacked =>
  exact .rebound r epoch now hepoch (by simpa using hacked)

theorem finishValid_ok {f : Finish} {state : State} {text : String} {count bytes : ℕ}
    (h : finishValid arrayLength f = .ok (state, text, count, bytes)) :
    f.finishId ≠ "" ∧ state.terminal = true := by
  unfold finishValid at h
  split at h
  · cases h
  next hargs =>
  split at h
  · cases h
  next state' hstate =>
  split at h
  · cases h
  have hid : uuidV4Valid f.finishId = true := by
    by_contra hno
    exact hargs (.inr (.inl (by simpa using hno)))
  cases hresult : resultValidate arrayLength f.resultJson with
  | error result =>
    rw [hresult] at h
    cases h
  | ok value =>
    rw [hresult] at h
    obtain ⟨rfl, -⟩ := Prod.mk.inj (Except.ok.inj h)
    exact ⟨uuidV4Valid_ne hid, outcomeState_terminal hstate⟩

theorem finishStore_performed {f : Finish} :
    Performed j (.finish f now) (finishStore arrayLength db j f now) := by
  unfold finishStore
  split
  · exact .inl rfl
  next state text count bytes hvalid =>
  obtain ⟨hid, hstate⟩ := finishValid_ok hvalid
  split
  · exact .inl rfl
  apply performed_of_update
  intro r hassignment hcheck
  unfold checkFinish at hcheck
  split at hcheck
  · cases hcheck
  next hnew =>
  exact .finished r f state text count bytes now hassignment.symm (not_not.mp hnew) hid hstate

/-- What is left of a row by the `DELETE`. -/
theorem pruneLocked_find {pruned : Journal} {changed : ℕ}
    (h : pruneLocked db j now = some (pruned, changed)) (k : String) :
    pruned.find k = j.find k ∨ ∃ r, j.find k = some r ∧ Removable now r ∧ pruned.find k = none := by
  unfold pruneLocked at h
  split at h
  · obtain ⟨rfl, -⟩ := Prod.mk.inj (some.inj h)
    exact .inl rfl
  split at h
  · cases h
  obtain ⟨rfl, -⟩ := Prod.mk.inj (some.inj h)
  rw [Table.find_delete]
  cases hfind : j.find k with
  | none => exact .inl rfl
  | some r =>
    rw [filter_some]
    cases hexpired : expired j now r with
    | false => exact .inl rfl
    | true =>
      unfold expired at hexpired
      simp only [decide_eq_true_eq] at hexpired
      exact .inr ⟨r, rfl, ⟨hexpired.1, hexpired.2.1⟩, rfl⟩

theorem prune_performed : Performed j (.prune now) (prune db j now) := by
  unfold prune
  split
  · exact .inl rfl
  cases hpruned : pruneLocked db j now with
  | none => exact .inl rfl
  | some out =>
    obtain ⟨pruned, changed⟩ := out
    refine commit_performed (.inr ⟨rfl, fun k => ?_⟩)
    obtain hsame | ⟨r, hr, hremovable, hnone⟩ := pruneLocked_find hpruned k
    · rw [show (Reply.mk .ok pruned none changed).journal.find k = j.find k from hsame]
      exact .same _
    · rw [hr, show (Reply.mk .ok pruned none changed).journal.find k = none from hnone]
      exact .removed r now hremovable

theorem finishAck_performed {finishId : String} :
    Performed j (.ack a finishId now) (finishAck db j a finishId now) := by
  unfold finishAck
  split
  · exact .inl rfl
  next hargs =>
  have hid : uuidV4Valid finishId = true := by
    by_contra hno
    exact hargs (.inr (.inl (by simpa using hno)))
  apply guardedUpdate_performed
  rintro r final hr rfl hcheck hbehind k
  unfold checkAck at hcheck
  split at hcheck
  · cases hcheck
  next hfinish =>
  obtain rfl := not_not.mp hfinish
  split at hcheck
  · cases hcheck
  next hacked =>
  have heffect : Effect (.ack r.assignment r.finishId now) r (setAck now r) :=
    .acked r now (uuidV4Valid_ne hid) (by simpa using hacked)
  obtain ⟨⟨pruned, changed⟩, hpruned, rfl⟩ := map_eq_some_iff.mp hbehind
  have hmoves := @moves_update j r.assignment r _ (setAck now) (setAck_jobId now) hr heffect k
  obtain hsame | ⟨r', hr', hremovable, hnone⟩ := pruneLocked_find hpruned k
  · rw [hsame]
    exact hmoves
  · rw [hnone]
    rw [Table.find_update_key (setAck_jobId now) hr] at hr'
    split at hr'
    · -- the row that has just been acknowledged is too young
      obtain rfl := some.inj hr'
      have hyoung : now < now - RETENTION_SECONDS := hremovable.2
      unfold RETENTION_SECONDS at hyoung
      omega
    · rw [hr']
      exact .removed r' now hremovable

theorem interrupted_ne (h : ¬ (interruptedFinishId r.jobId).isNone = true) :
    (setInterrupted now r).finishId ≠ "" := by
  show (interruptedFinishId r.jobId).getD "" ≠ ""
  obtain ⟨finishId, hid⟩ : ∃ finishId, interruptedFinishId r.jobId = some finishId :=
    ne_none_iff_exists'.mp (by simpa using h)
  rw [hid]
  unfold interruptedFinishId at hid
  simp only [bind_eq_bind, bind_eq_some_iff, Option.some.injEq] at hid
  obtain ⟨last, -, digit, -, rfl⟩ := hid
  intro hempty
  have hlist := congrArg String.toList hempty
  simp at hlist

theorem restartRecover_performed : Performed j (.restart now) (restartRecover db j now) := by
  unfold restartRecover
  split
  · exact .inl rfl
  split
  · exact .inl rfl
  split
  · exact .inl rfl
  next hnull =>
  refine commit_performed (.inr ⟨rfl, fun k => ?_⟩)
  dsimp only
  rw [Table.find_update]
  cases hr : j.find k with
  | none => exact .same _
  | some r =>
    rw [map_some]
    split
    · next hexecuting =>
      refine .changed _ _ (.interrupted r now hexecuting (interrupted_ne fun hnone => hnull ?_))
      rw [List.any_eq_true]
      exact ⟨r, (Table.find_eq_some.mp hr).1, decide_eq_true ⟨hexecuting, hnone⟩⟩
    · exact .same _

/-- **What a call does**: it leaves the journal as it is, or it succeeds and moves its rows. -/
theorem perform_spec (j : Journal) (c : Call) : Performed j c (c.perform arrayLength db j) := by
  cases c with
  | offer a now => exact offerStore_performed
  | markRunning a now => exact markRunning_performed
  | cancelRequested a now => exact cancelRequested_performed
  | rebind a epoch now => exact sessionRebind_performed
  | finish f now => exact finishStore_performed
  | ack a finishId now => exact finishAck_performed
  | restart now => exact restartRecover_performed
  | prune now => exact prune_performed

end DreamingOS.RadioJob
