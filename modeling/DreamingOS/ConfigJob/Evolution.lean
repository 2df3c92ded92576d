import DreamingOS.ConfigJob.Journal

namespace DreamingOS.ConfigJob

open Option

/-!
# Configuration jobs — what one call can do

* `Effect` — how a call changes the row of its job;
* `Performed`, `perform_spec` — **all a call can do**: nothing, one row more, one row changed, or
  acknowledged rows less;
* `Evolves` — what a row keeps, `effect_evolves` — and that every effect keeps it.
-/

/-- Along offered, staged, applying and applied to one of the terminal states. -/
def State.rank : State → ℕ
  | .offered => 0
  | .staged => 1
  | .applying => 2
  | .applied => 3
  | .completed | .failed | .rolledBack => 4

def State.Terminal (s : State) : Prop := s.rank = 4

/-- The job a call is about. -/
def Call.assignment? : Call → Option Assignment
  | .offer a _ _ | .markStaged a _ | .markApplying a _ _ | .markApplied a _ | .ack a _ _
  | .rebind a _ _ => some a
  | .finish f _ => some f.assignment
  | .prune _ => none

theorem terminalOf_terminal {outcome : String} {terminal : State}
    (h : terminalOf outcome = some terminal) : terminal.Terminal := by
  unfold terminalOf at h
  split at h
  · cases h
    rfl
  split at h
  · cases h
    rfl
  split at h
  · cases h
    rfl
  · cases h

theorem uuidValid_ne {value : String} (h : uuidValid value = true) : value ≠ "" := by
  rintro rfl
  exact absurd h (by decide)

/-! ### Rows -/

/-- What holds of every row. -/
structure RowOk (r : Row) : Prop where
  finished : r.finishId ≠ "" ↔ r.state.Terminal
  outcome : r.finishId ≠ "" → terminalOf r.outcome = some r.state
  acked : r.finishAcked = true → r.finishId ≠ ""
  untouched : r.state = .offered ∨ r.state = .staged → r.previousJson = ""
  reference : r.state = .applying ∨ r.state = .applied → r.previousJson ≠ ""

def Inv (j : Journal) : Prop := ∀ k r, j.find k = some r → RowOk r

/-- How a call changes the row of its job. -/
inductive Effect : Call → Row → Row → Prop
  | staged (a : Assignment) (now : ℤ) (r : Row) (hstate : r.state = .offered) :
    Effect (.markStaged a now) r (setState .staged none now r)
  | applying (a : Assignment) (previousJson : String) (now : ℤ) (r : Row)
    (hstate : r.state = .staged) (hprevious : previousJson ≠ "") :
    Effect (.markApplying a previousJson now) r (setState .applying (some previousJson) now r)
  | applied (a : Assignment) (now : ℤ) (r : Row) (hstate : r.state = .applying) :
    Effect (.markApplied a now) r (setState .applied none now r)
  | finished (f : Finish) (terminal : State) (now : ℤ) (r : Row) (hnew : r.finishId = "")
    (hid : f.finishId ≠ "") (hterminal : terminalOf f.outcome = some terminal) :
    Effect (.finish f now) r (setFinish f terminal now r)
  | acked (a : Assignment) (finishId : String) (now : ℤ) (r : Row) (hfinish : r.finishId ≠ "")
    (hid : r.finishId = finishId) (hnew : r.finishAcked = false) :
    Effect (.ack a finishId now) r (setAck now r)
  | rebound (a : Assignment) (epoch : String) (now : ℤ) (r : Row)
    (hepoch : r.assignment.sessionEpoch ≠ epoch) :
    Effect (.rebind a epoch now) r (setEpoch epoch now r)

/-- The job is the same one; only its session may be another. -/
def SameJob (r r' : Row) : Prop :=
  r'.assignment = { r.assignment with sessionEpoch := r'.assignment.sessionEpoch }

/-- What a row keeps while it is there. -/
structure Evolves (r r' : Row) : Prop where
  identity : SameJob r r'
  forward : r.state.rank ≤ r'.state.rank
  finish : r.finishId ≠ "" → r'.finishId = r.finishId ∧ r'.outcome = r.outcome ∧ r'.state = r.state
  acked : r.finishAcked = true → r'.finishAcked = true
  previous : r.previousJson ≠ "" → r'.previousJson = r.previousJson

theorem Evolves.refl (r : Row) : Evolves r r :=
  ⟨rfl, Nat.le_refl _, fun _ => ⟨rfl, rfl, rfl⟩, id, fun _ => rfl⟩

variable {r r' : Row}

theorem Evolves.trans {r'' : Row} (h : Evolves r r') (h' : Evolves r' r'') : Evolves r r'' where
  identity := by
    have hfirst := h.identity
    have hsecond := h'.identity
    unfold SameJob at hfirst hsecond ⊢
    rw [hfirst] at hsecond
    exact hsecond
  forward := Nat.le_trans h.forward h'.forward
  finish := by
    intro hfinish
    obtain ⟨hid, houtcome, hstate⟩ := h.finish hfinish
    obtain ⟨hid', houtcome', hstate'⟩ := h'.finish (hid ▸ hfinish)
    exact ⟨hid'.trans hid, houtcome'.trans houtcome, hstate'.trans hstate⟩
  acked := h'.acked ∘ h.acked
  previous := by
    intro hprevious
    have hsame := h.previous hprevious
    exact (h'.previous (hsame ▸ hprevious)).trans hsame

/-- An effect keeps the job, its order of states, its finish and its reference. -/
theorem effect_evolves {c : Call} (hr : RowOk r) (h : Effect c r r') : Evolves r r' := by
  cases h with
  | staged a now r hstate =>
    have hrank : r.state.rank ≤ State.staged.rank := by
      rw [hstate]
      decide
    refine ⟨rfl, hrank, fun hfinish => ?_, id, fun _ => rfl⟩
    exact absurd (hr.finished.mp hfinish) (by rw [hstate]; exact fun h => by cases h)
  | applying a previousJson now r hstate hprevious =>
    have hrank : r.state.rank ≤ State.applying.rank := by
      rw [hstate]
      decide
    refine ⟨rfl, hrank, fun hfinish => ?_, id, fun hold => ?_⟩
    · exact absurd (hr.finished.mp hfinish) (by rw [hstate]; exact fun h => by cases h)
    · exact absurd (hr.untouched (.inr hstate)) hold
  | applied a now r hstate =>
    have hrank : r.state.rank ≤ State.applied.rank := by
      rw [hstate]
      decide
    refine ⟨rfl, hrank, fun hfinish => ?_, id, fun _ => rfl⟩
    exact absurd (hr.finished.mp hfinish) (by rw [hstate]; exact fun h => by cases h)
  | finished f terminal now r hnew hid hterminal =>
    have hrank : r.state.rank ≤ terminal.rank := by
      rw [terminalOf_terminal hterminal]
      cases r.state <;> decide
    exact ⟨rfl, hrank, fun hfinish => absurd hnew hfinish, id, fun _ => rfl⟩
  | acked a finishId now r hfinish hid hnew =>
    exact ⟨rfl, Nat.le_refl _, fun _ => ⟨rfl, rfl, rfl⟩, fun _ => rfl, fun _ => rfl⟩
  | rebound a epoch now r hepoch =>
    exact ⟨rfl, Nat.le_refl _, fun _ => ⟨rfl, rfl, rfl⟩, id, fun _ => rfl⟩

/-- An effect keeps the invariant of the row. -/
theorem effect_ok {c : Call} (hr : RowOk r) (h : Effect c r r') : RowOk r' := by
  cases h with
  | staged a now r hstate =>
    have hopen : r.finishId = "" := by
      by_contra hfinish
      exact absurd (hr.finished.mp hfinish) (by rw [hstate]; exact fun h => by cases h)
    refine ⟨?_, fun hfinish => absurd hopen hfinish, hr.acked,
      fun _ => hr.untouched (.inl hstate), ?_⟩
    · exact ⟨fun hfinish => absurd hopen hfinish, fun h => by cases h⟩
    · rintro (h | h) <;> cases h
  | applying a previousJson now r hstate hprevious =>
    have hopen : r.finishId = "" := by
      by_contra hfinish
      exact absurd (hr.finished.mp hfinish) (by rw [hstate]; exact fun h => by cases h)
    refine ⟨?_, fun hfinish => absurd hopen hfinish, hr.acked, ?_, fun _ => hprevious⟩
    · exact ⟨fun hfinish => absurd hopen hfinish, fun h => by cases h⟩
    · rintro (h | h) <;> cases h
  | applied a now r hstate =>
    have hopen : r.finishId = "" := by
      by_contra hfinish
      exact absurd (hr.finished.mp hfinish) (by rw [hstate]; exact fun h => by cases h)
    refine ⟨?_, fun hfinish => absurd hopen hfinish, hr.acked, ?_,
      fun _ => hr.reference (.inl hstate)⟩
    · exact ⟨fun hfinish => absurd hopen hfinish, fun h => by cases h⟩
    · rintro (h | h) <;> cases h
  | finished f terminal now r hnew hid hterminal =>
    have hend := terminalOf_terminal hterminal
    refine ⟨⟨fun _ => hend, fun _ => hid⟩, fun _ => hterminal, fun _ => hid, ?_, ?_⟩
    · intro h
      replace h : terminal = .offered ∨ terminal = .staged := h
      rcases h with rfl | rfl <;> cases hend
    · intro h
      replace h : terminal = .applying ∨ terminal = .applied := h
      rcases h with rfl | rfl <;> cases hend
  | acked a finishId now r hfinish hid hnew =>
    exact ⟨hr.finished, hr.outcome, fun _ => hfinish, hr.untouched, hr.reference⟩
  | rebound a epoch now r hepoch =>
    exact ⟨hr.finished, hr.outcome, hr.acked, hr.untouched, hr.reference⟩

theorem offeredRow_ok (a : Assignment) (candidateJson : String) (now : ℤ) :
    RowOk (offeredRow a candidateJson now) where
  finished := ⟨fun h => absurd rfl h, fun h => by cases h⟩
  outcome h := absurd rfl h
  acked h := by cases h
  untouched _ := rfl
  reference h := by rcases h with h | h <;> cases h

/-! ### Calls -/

/-- All a call can do. -/
inductive Performed (j : Journal) (c : Call) (reply : Reply) : Prop
  | unchanged (hresult : reply.result ≠ .ok) (hjournal : reply.journal = j)
  | inserted (a : Assignment) (candidateJson : String) (now : ℤ)
    (hcall : c = .offer a candidateJson now) (hnew : j.find a.jobId = none)
    (hresult : reply.result = .ok)
    (hfind : ∀ k, reply.journal.find k =
      if a.jobId = k then some (offeredRow a candidateJson now) else j.find k)
  | updated (a : Assignment) (r r' : Row) (hcall : c.assignment? = some a)
    (hrow : j.find a.jobId = some r) (hmatches : assignmentMatches r a = true)
    (heffect : Effect c r r') (hresult : reply.result = .ok)
    (hfind : ∀ k, reply.journal.find k = if a.jobId = k then some r' else j.find k)
  | pruned (now : ℤ) (p : Row → Bool) (hcall : c = .prune now) (hresult : reply.result = .ok)
    (hacked : ∀ r, p r = true → r.finishAcked = true) (hjournal : reply.journal = j.delete p)

theorem finishTx_cases (db : Sqlite) (j written : Journal) (jobId : String) :
    ((finishTx db j written jobId).result ≠ .ok ∧ (finishTx db j written jobId).journal = j) ∨
      ((finishTx db j written jobId).result = .ok ∧
        (finishTx db j written jobId).journal = written) := by
  unfold finishTx
  split
  · exact .inl ⟨nofun, rfl⟩
  split
  · exact .inl ⟨nofun, rfl⟩
  split
  · exact .inl ⟨nofun, rfl⟩
  · exact .inr ⟨rfl, rfl⟩

/-- All an update can do. -/
theorem guardedUpdate_cases (db : Sqlite) (j : Journal) (a : Assignment) (check : Row → Check)
    (set : Row → Row) (hset : ∀ r, (set r).jobId = r.jobId) :
    ((guardedUpdate db j a check set hset).result ≠ .ok ∧
        (guardedUpdate db j a check set hset).journal = j) ∨
      ∃ r, j.find a.jobId = some r ∧ assignmentMatches r a = true ∧ check r = .ready ∧
        (guardedUpdate db j a check set hset).result = .ok ∧
        ∀ k, (guardedUpdate db j a check set hset).journal.find k =
          if a.jobId = k then some (set r) else j.find k := by
  unfold guardedUpdate
  split
  · exact .inl ⟨by rintro ⟨⟩, rfl⟩
  split
  · exact .inl ⟨by rintro ⟨⟩, rfl⟩
  cases hfind : j.find a.jobId with
  | none => exact .inl ⟨by rintro ⟨⟩, rfl⟩
  | some r =>
    dsimp only
    split
    · exact .inl ⟨by rintro ⟨⟩, rfl⟩
    next hmatches =>
    cases hcheck : check r with
    | conflict => exact .inl ⟨by rintro ⟨⟩, rfl⟩
    | idempotent => exact .inl ⟨by rintro ⟨⟩, rfl⟩
    | ready =>
      dsimp only
      split
      · exact .inl ⟨by rintro ⟨⟩, rfl⟩
      rcases finishTx_cases db j (j.update (fun r => r.jobId = a.jobId) set hset) a.jobId with
        ⟨hresult, hjournal⟩ | ⟨hresult, hjournal⟩
      · exact .inl ⟨hresult, hjournal⟩
      · refine .inr ⟨r, rfl, by simpa using hmatches, hcheck, hresult, fun k => ?_⟩
        rw [hjournal]
        exact Table.find_update_key hset hfind k

section
variable {j : Journal} {c : Call} {a : Assignment} {check : Row → Check} {set : Row → Row}

/-- The calls that are updates. -/
theorem performed_of_update (db : Sqlite) (hset : ∀ r, (set r).jobId = r.jobId)
    (hcall : c.assignment? = some a) (heffect : ∀ r, check r = .ready → Effect c r (set r)) :
    Performed j c (guardedUpdate db j a check set hset) := by
  rcases guardedUpdate_cases db j a check set hset with
    ⟨hresult, hjournal⟩ | ⟨r, hrow, hmatches, hready, hresult, hfind⟩
  · exact .unchanged hresult hjournal
  · exact .updated a r (set r) hcall hrow hmatches (heffect r hready) hresult hfind

end

theorem performed_invalid (j : Journal) (c : Call) : Performed j c ⟨.invalid, j, none⟩ :=
  .unchanged (fun h : Result.invalid = .ok => by cases h) rfl

theorem performed_error (j : Journal) (c : Call) : Performed j c ⟨.error, j, none⟩ :=
  .unchanged (fun h : Result.error = .ok => by cases h) rfl

variable {source target : State}

theorem checkState_ready (h : checkState source target r = .ready) : r.state = source := by
  unfold checkState at h
  split at h
  · cases h
  split at h
  · cases h
  · next hsource => exact not_not.mp hsource

theorem offerStore_performed (db : Sqlite) (j : Journal) (a : Assignment) (candidateJson : String)
    (now : ℤ) :
    Performed j (.offer a candidateJson now) (offerStore db j a candidateJson now) := by
  unfold offerStore
  split
  · exact performed_invalid j _
  split
  · exact performed_error j _
  split
  · exact performed_error j _
  cases hfind : j.find a.jobId with
  | some existing =>
    dsimp only
    split
    · exact .unchanged (fun h : Result.conflict = .ok => by cases h) rfl
    · exact .unchanged (fun h : Result.idempotent = .ok => by cases h) rfl
  | none =>
    dsimp only
    split
    · exact performed_error j _
    cases hinsert : insertRow j (offeredRow a candidateJson now) with
    | none => exact performed_error j _
    | some written =>
      dsimp only
      rcases finishTx_cases db j written a.jobId with
        ⟨hresult, hjournal⟩ | ⟨hresult, hjournal⟩
      · exact .unchanged hresult hjournal
      · refine .inserted a candidateJson now rfl hfind hresult fun k => ?_
        rw [hjournal]
        unfold insertRow at hinsert
        split at hinsert
        · next hnew =>
          obtain rfl := some.inj hinsert
          exact Table.find_insert j _ hnew.1 k
        · cases hinsert

theorem transition_performed (db : Sqlite) (j : Journal) {c : Call} {a : Assignment}
    {previousJson : Option String} {now : ℤ}
    (hcall : c.assignment? = some a)
    (heffect : ∀ r, r.state = source → Effect c r (setState target previousJson now r)) :
    Performed j c (transition db j a source target previousJson now) := by
  unfold transition
  split
  · exact performed_invalid j _
  split
  · exact performed_invalid j _
  · exact performed_of_update db _ hcall fun r hready => heffect r (checkState_ready hready)

theorem finishStore_performed (db : Sqlite) (j : Journal) (f : Finish) (now : ℤ) :
    Performed j (.finish f now) (finishStore db j f now) := by
  unfold finishStore
  split
  · exact performed_invalid j _
  next hvalid =>
  split
  · exact performed_invalid j _
  next terminal hterminal =>
  split
  · exact performed_invalid j _
  refine performed_of_update db _ rfl fun r hready => ?_
  have hid : uuidValid f.finishId = true := by
    by_contra hbad
    exact hvalid (.inr (.inl (by simpa using hbad)))
  have hnew : r.finishId = "" := by
    by_contra hfinish
    unfold checkFinish at hready
    rw [if_neg hfinish] at hready
    split at hready <;> cases hready
  exact .finished f terminal now r hnew (uuidValid_ne hid) hterminal

theorem finishAck_performed (db : Sqlite) (j : Journal) (a : Assignment) (finishId : String)
    (now : ℤ) : Performed j (.ack a finishId now) (finishAck db j a finishId now) := by
  unfold finishAck
  split
  · exact performed_invalid j _
  refine performed_of_update db _ rfl fun r hready => ?_
  unfold checkAck at hready
  split at hready
  · cases hready
  next hfinish =>
  split at hready
  · cases hready
  next hnew =>
  rw [not_or, not_not] at hfinish
  exact .acked a finishId now r hfinish.1 hfinish.2 (by simpa using hnew)

theorem sessionRebind_performed (db : Sqlite) (j : Journal) (a : Assignment) (epoch : String)
    (now : ℤ) : Performed j (.rebind a epoch now) (sessionRebind db j a epoch now) := by
  unfold sessionRebind
  split
  · exact performed_invalid j _
  refine performed_of_update db _ rfl fun r hready => ?_
  unfold checkEpoch at hready
  split at hready
  · cases hready
  next hepoch =>
  exact .rebound a epoch now r hepoch

theorem prune_performed (db : Sqlite) (j : Journal) (now : ℤ) :
    Performed j (.prune now) (prune db j now) := by
  unfold prune
  split
  · exact performed_invalid j _
  split
  · exact performed_error j _
  · refine .pruned now _ rfl rfl (fun r hr => ?_) rfl
    exact (of_decide_eq_true hr).1

/-- **All a call can do.** -/
theorem perform_spec (db : Sqlite) (j : Journal) (c : Call) : Performed j c (c.perform db j) := by
  cases c with
  | offer a candidateJson now => exact offerStore_performed db j a candidateJson now
  | markStaged a now => exact transition_performed db j rfl fun r hr => .staged a now r hr
  | markApplying a previousJson now =>
    show Performed j _ (markApplying db j a previousJson now)
    unfold markApplying
    split
    · exact performed_invalid j _
    next hprevious =>
    exact transition_performed db j rfl fun r hr => .applying a previousJson now r hr hprevious
  | markApplied a now => exact transition_performed db j rfl fun r hr => .applied a now r hr
  | finish f now => exact finishStore_performed db j f now
  | ack a finishId now => exact finishAck_performed db j a finishId now
  | rebind a epoch now => exact sessionRebind_performed db j a epoch now
  | prune now => exact prune_performed db j now

/-- A call keeps the invariant. -/
theorem perform_inv {j : Journal} (hj : Inv j) (db : Sqlite) (c : Call) :
    Inv (c.perform db j).journal := by
  cases perform_spec db j c with
  | unchanged hresult hjournal =>
    rw [hjournal]
    exact hj
  | inserted a candidateJson now hcall hnew hresult hfind =>
    intro k r hr
    rw [hfind] at hr
    split at hr
    · obtain rfl := some.inj hr
      exact offeredRow_ok a candidateJson now
    · exact hj k r hr
  | updated a r r' hcall hrow hmatches heffect hresult hfind =>
    intro k q hq
    rw [hfind] at hq
    split at hq
    · obtain rfl := some.inj hq
      exact effect_ok (hj _ r hrow) heffect
    · exact hj k q hq
  | pruned now p hcall hresult hacked hjournal =>
    intro k r hr
    rw [hjournal, Table.find_delete] at hr
    exact hj k r (filter_eq_some_iff.mp hr).1

/-- **A row keeps what it is** while it is there. -/
theorem perform_evolves {j : Journal} (hj : Inv j) (db : Sqlite) (c : Call) {k : String}
    (hr : j.find k = some r) (hr' : (c.perform db j).journal.find k = some r') :
    Evolves r r' := by
  cases perform_spec db j c with
  | unchanged hresult hjournal =>
    rw [hjournal, hr] at hr'
    obtain rfl := some.inj hr'
    exact Evolves.refl r
  | inserted a candidateJson now hcall hnew hresult hfind =>
    rw [hfind] at hr'
    split at hr'
    · next hk =>
      rw [hk, hr] at hnew
      cases hnew
    · rw [hr] at hr'
      obtain rfl := some.inj hr'
      exact Evolves.refl r
  | updated a q q' hcall hrow hmatches heffect hresult hfind =>
    rw [hfind] at hr'
    split at hr'
    · next hk =>
      obtain rfl := some.inj hr'
      rw [hk, hr] at hrow
      obtain rfl := some.inj hrow
      exact effect_evolves (hj k r hr) heffect
    · rw [hr] at hr'
      obtain rfl := some.inj hr'
      exact Evolves.refl r
  | pruned now p hcall hresult hacked hjournal =>
    rw [hjournal, Table.find_delete, hr] at hr'
    obtain rfl := some.inj (filter_eq_some_iff.mp hr').1
    exact Evolves.refl r

end DreamingOS.ConfigJob
