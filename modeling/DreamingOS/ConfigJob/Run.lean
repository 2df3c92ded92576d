import DreamingOS.ConfigJob.Evolution

namespace DreamingOS.ConfigJob

open Option

/-!
# Configuration jobs — runs of calls

* `Event`, `after`, `run` — calls in any order, with what SQLite does in each;
* `Present`, `run_evolves` — what a row keeps over a run in which it is always there;
* `Settled`, `perform_again` — what a call that succeeded leaves behind, and what it returns when it
  is made again;
* `journal_run` — **the journal over all runs from the empty one**;
* `rebind_again` — a rebind that is repeated behind another one takes effect again.
-/

/-! ### Runs -/

/-- A call, with what SQLite does in it. -/
structure Event where
  db : Sqlite := {}
  call : Call

def Event.reply (e : Event) (j : Journal) : Reply := e.call.perform e.db j

def after (j : Journal) (e : Event) : Journal := (e.reply j).journal

def run (j : Journal) (events : List Event) : Journal := events.foldl after j

/-- The row of the job is there, before and behind every call. -/
def Present (job : String) (j : Journal) : List Event → Prop
  | [] => j.find job ≠ none
  | e :: events => j.find job ≠ none ∧ Present job (after j e) events

theorem inv_empty : Inv Table.empty := fun _ _ h => by cases h

theorem run_inv {j : Journal} (hj : Inv j) (events : List Event) : Inv (run j events) := by
  induction events generalizing j with
  | nil => exact hj
  | cons e events ih => exact ih (perform_inv hj e.db e.call)

variable {job : String}

/-- **A row keeps what it is** over every run in which it is there. -/
theorem run_evolves {j : Journal} (hj : Inv j) {r : Row} {events : List Event}
    (hpresent : Present job j events) (hr : j.find job = some r) :
    ∃ r', (run j events).find job = some r' ∧ Evolves r r' := by
  induction events generalizing j r with
  | nil => exact ⟨r, hr, Evolves.refl r⟩
  | cons e events ih =>
    obtain ⟨-, hrest⟩ := hpresent
    have hthere : (after j e).find job ≠ none := by
      cases events with
      | nil => exact hrest
      | cons _ _ => exact hrest.1
    obtain ⟨r₁, hr₁⟩ := ne_none_iff_exists'.mp hthere
    obtain ⟨r', hr', hevolves⟩ := ih (perform_inv hj e.db e.call) hrest hr₁
    exact ⟨r', hr', (perform_evolves hj e.db e.call hr hr₁).trans hevolves⟩

/-! ### Calls that are repeated -/

/-- What a call that succeeded leaves in the row of its job. -/
def Settled : Call → Row → Prop
  | .offer a _ _, r => assignmentMatches r a = true
  | .markStaged a _, r => assignmentMatches r a = true ∧ r.state = .staged
  | .markApplying a _ _, r => assignmentMatches r a = true ∧ r.state = .applying
  | .markApplied a _, r => assignmentMatches r a = true ∧ r.state = .applied
  | .finish f _, r =>
    assignmentMatches r f.assignment = true ∧ r.finishId = f.finishId ∧ r.finishId ≠ "" ∧
      r.outcome = f.outcome
  | .ack a finishId _, r =>
    assignmentMatches r a = true ∧ r.finishId = finishId ∧ r.finishId ≠ "" ∧ r.finishAcked = true
  | .rebind a epoch _, r => assignmentMatches r a = true ∧ r.assignment.sessionEpoch = epoch
  | .prune _, _ => True

/-- The job that a rebind has bound is still bound to that session. -/
def StillBound : Call → Row → Prop
  | .rebind _ epoch _, r => r.assignment.sessionEpoch = epoch
  | _, _ => True

variable {r r' : Row}

theorem assignmentMatches_sameJob {a : Assignment} (h : SameJob r r')
    (hmatches : assignmentMatches r a = true) : assignmentMatches r' a = true := by
  unfold assignmentMatches Assignment.operationOrApply at hmatches ⊢
  rw [h]
  exact hmatches

theorem assignmentMatches_offered (a : Assignment) (candidateJson : String) (now : ℤ) :
    assignmentMatches (offeredRow a candidateJson now) a = true := by
  have hoperation : (offeredRow a candidateJson now).assignment.operationOrApply
      = a.operationOrApply := by
    show (if a.operationOrApply = "" then "apply" else a.operationOrApply) = a.operationOrApply
    unfold Assignment.operationOrApply
    split
    · decide
    · rfl
  exact decide_eq_true ⟨rfl, rfl, rfl, rfl, rfl, hoperation, rfl⟩

variable {c : Call}

theorem effect_settled {a : Assignment} (hcall : c.assignment? = some a)
    (hmatches : assignmentMatches r a = true) (h : Effect c r r') : Settled c r' := by
  cases h with
  | staged b now r hstate =>
    obtain rfl := some.inj hcall
    exact ⟨hmatches, rfl⟩
  | applying b previousJson now r hstate hprevious =>
    obtain rfl := some.inj hcall
    exact ⟨hmatches, rfl⟩
  | applied b now r hstate =>
    obtain rfl := some.inj hcall
    exact ⟨hmatches, rfl⟩
  | finished f terminal now r hnew hid hterminal =>
    obtain rfl := some.inj hcall
    exact ⟨hmatches, rfl, hid, rfl⟩
  | acked b finishId now r hfinish hid hnew =>
    obtain rfl := some.inj hcall
    exact ⟨hmatches, hid, hfinish, rfl⟩
  | rebound b epoch now r hepoch =>
    obtain rfl := some.inj hcall
    exact ⟨hmatches, rfl⟩

/-- A call that succeeds leaves its mark in the row of its job. -/
theorem settled_of_ok {db : Sqlite} {j : Journal} {a : Assignment}
    (hcall : c.assignment? = some a) (hok : (c.perform db j).result = .ok) :
    ∃ r, (c.perform db j).journal.find a.jobId = some r ∧ Settled c r := by
  cases perform_spec db j c with
  | unchanged hresult hjournal => exact absurd hok hresult
  | inserted b candidateJson now hoffer hnew hresult hfind =>
    subst hoffer
    obtain rfl := some.inj hcall
    exact ⟨_, by rw [hfind, if_pos rfl], assignmentMatches_offered _ _ _⟩
  | updated b r r' hcall' hrow hmatches heffect hresult hfind =>
    obtain rfl := some.inj (hcall.symm.trans hcall')
    exact ⟨r', by rw [hfind, if_pos rfl], effect_settled hcall hmatches heffect⟩
  | pruned now p hprune hresult hacked hjournal =>
    subst hprune
    cases hcall

theorem guardedUpdate_again {db : Sqlite} {j : Journal} {a : Assignment} {r : Row}
    (check : Row → Check) (set : Row → Row) (hset : ∀ r, (set r).jobId = r.jobId)
    (hbegins : db.begins = true) (hloads : db.loads = true) (hr : j.find a.jobId = some r)
    (hmatches : assignmentMatches r a = true) :
    (check r = .idempotent → (guardedUpdate db j a check set hset).result = .idempotent) ∧
      (check r = .conflict → (guardedUpdate db j a check set hset).result = .conflict) := by
  unfold guardedUpdate
  simp only [hbegins, hloads, hr, hmatches, Bool.not_true, if_neg Bool.false_ne_true]
  constructor
  · intro h
    rw [h]
  · intro h
    rw [h]
variable {db' : Sqlite} {j' : Journal}


section
variable {db : Sqlite} {j : Journal} {a : Assignment} {now : ℤ}
variable {previousJson : Option String} {source target : State}

/-- A transition that succeeded once is past the checks of its arguments. -/
theorem transition_of_ok
    (hok : (transition db j a source target previousJson now).result = .ok) (db' : Sqlite)
    (j' : Journal) :
    transition db' j' a source target previousJson now =
      guardedUpdate db' j' a (checkState source target) (setState target previousJson now)
        fun _ => rfl := by
  unfold transition at hok ⊢
  split at hok
  · cases hok
  next hvalid =>
  split at hok
  · cases hok
  next hprevious =>
  rw [if_neg hvalid, if_neg hprevious]

theorem finishStore_of_ok {f : Finish} (hok : (finishStore db j f now).result = .ok) :
    ∃ terminal, ∀ (db' : Sqlite) (j' : Journal), finishStore db' j' f now =
      guardedUpdate db' j' f.assignment (checkFinish f) (setFinish f terminal now) fun _ => rfl := by
  unfold finishStore at hok ⊢
  split at hok
  · cases hok
  next hvalid =>
  split at hok
  · cases hok
  next terminal hterminal =>
  split at hok
  · cases hok
  next hreadback =>
  refine ⟨terminal, fun db' j' => ?_⟩
  rw [if_neg hvalid]
  exact if_neg hreadback

theorem finishAck_of_ok {finishId : String} (hok : (finishAck db j a finishId now).result = .ok)
    (db' : Sqlite) (j' : Journal) : finishAck db' j' a finishId now =
      guardedUpdate db' j' a (checkAck finishId) (setAck now) fun _ => rfl := by
  unfold finishAck at hok ⊢
  split at hok
  · cases hok
  next hvalid => exact if_neg hvalid

theorem sessionRebind_of_ok {epoch : String} (hok : (sessionRebind db j a epoch now).result = .ok)
    (db' : Sqlite) (j' : Journal) : sessionRebind db' j' a epoch now =
      guardedUpdate db' j' a (checkEpoch epoch) (setEpoch epoch now) fun _ => rfl := by
  unfold sessionRebind at hok ⊢
  split at hok
  · cases hok
  next hvalid => exact if_neg hvalid

/-- A transition is idempotent, and a conflict where the job has moved on. -/
theorem transition_again (hsource : source.rank < target.rank) (htarget : target.rank < 4)
    (hok : (transition db j a source target previousJson now).result = .ok)
    (hmatches : assignmentMatches r a = true) (hstate : r.state = target) (hevolves : Evolves r r')
    (hr' : j'.find a.jobId = some r') (hbegins : db'.begins = true) (hloads : db'.loads = true) :
    (transition db' j' a source target previousJson now).result = .idempotent ∨
      (transition db' j' a source target previousJson now).result = .conflict ∧
        r.state.rank < r'.state.rank := by
  obtain ⟨hidem, hconflict⟩ := guardedUpdate_again (checkState source target)
    (setState target previousJson now) (fun _ => rfl) hbegins hloads hr'
    (assignmentMatches_sameJob hevolves.identity hmatches)
  rw [transition_of_ok hok]
  by_cases hsame : r'.state = target
  · refine .inl (hidem ?_)
    unfold checkState
    rw [if_pos hsame]
  have hforward := hevolves.forward
  rw [hstate] at hforward ⊢
  -- a state of the same rank is the same one, or terminal
  have hne : r'.state ≠ source := by
    intro h
    rw [h] at hforward
    omega
  refine .inr ⟨hconflict ?_, ?_⟩
  · unfold checkState
    rw [if_neg hsame, if_pos hne]
  · rcases Nat.lt_or_eq_of_le hforward with hlt | heq
    · exact hlt
    · exfalso
      apply hsame
      revert heq htarget
      cases target <;> cases r'.state <;> simp [State.rank]

end

/-- **A call that is made again** changes nothing: it is idempotent, or a conflict where the job has
    moved on. -/
theorem perform_again {db : Sqlite} {j : Journal} {a : Assignment}
    (hcall : c.assignment? = some a) (hok : (c.perform db j).result = .ok) (hsettled : Settled c r)
    (hevolves : Evolves r r') (hr' : j'.find a.jobId = some r') (hbound : StillBound c r')
    (hbegins : db'.begins = true) (hloads : db'.loads = true) :
    (c.perform db' j').result = .idempotent ∨
      (c.perform db' j').result = .conflict ∧ r.state.rank < r'.state.rank := by
  cases c with
  | offer b candidateJson now =>
    obtain rfl := some.inj hcall
    have hmatches := assignmentMatches_sameJob hevolves.identity hsettled
    refine .inl ?_
    show (offerStore db' j' b candidateJson now).result = .idempotent
    replace hok : (offerStore db j b candidateJson now).result = .ok := hok
    unfold offerStore at hok ⊢
    split at hok
    · cases hok
    next hvalid =>
    rw [if_neg hvalid, hbegins, hloads, hr', if_neg (by decide), if_neg (by decide)]
    dsimp only
    rw [hmatches, if_neg (by decide)]
  | markStaged b now =>
    obtain rfl := some.inj hcall
    exact transition_again (by decide) (by decide) hok hsettled.1 hsettled.2 hevolves hr' hbegins hloads
  | markApplying b previousJson now =>
    obtain rfl := some.inj hcall
    replace hok : (markApplying db j b previousJson now).result = .ok := hok
    show (markApplying db' j' b previousJson now).result = .idempotent ∨
      (markApplying db' j' b previousJson now).result = .conflict ∧ _
    unfold markApplying at hok ⊢
    split at hok
    · cases hok
    next hprevious =>
    rw [if_neg hprevious]
    exact transition_again (by decide) (by decide) hok hsettled.1 hsettled.2 hevolves hr' hbegins hloads
  | markApplied b now =>
    obtain rfl := some.inj hcall
    exact transition_again (by decide) (by decide) hok hsettled.1 hsettled.2 hevolves hr' hbegins hloads
  | finish f now =>
    obtain rfl := some.inj hcall
    obtain ⟨hmatches, hid, hfinish, houtcome⟩ := hsettled
    obtain ⟨hid', houtcome', -⟩ := hevolves.finish hfinish
    obtain ⟨terminal, hupdate⟩ := finishStore_of_ok hok
    refine .inl ?_
    show (finishStore db' j' f now).result = .idempotent
    rw [hupdate]
    refine (guardedUpdate_again _ _ _ hbegins hloads hr'
      (assignmentMatches_sameJob hevolves.identity hmatches)).1 ?_
    unfold checkFinish
    rw [if_neg (hid' ▸ hfinish), if_pos ⟨hid'.trans hid, houtcome'.trans houtcome⟩]
  | ack b finishId now =>
    obtain rfl := some.inj hcall
    obtain ⟨hmatches, hid, hfinish, hacked⟩ := hsettled
    have hid' := (hevolves.finish hfinish).1
    refine .inl ?_
    show (finishAck db' j' b finishId now).result = .idempotent
    rw [finishAck_of_ok hok]
    refine (guardedUpdate_again _ _ _ hbegins hloads hr'
      (assignmentMatches_sameJob hevolves.identity hmatches)).1 ?_
    have hfound : ¬ (r'.finishId = "" ∨ r'.finishId ≠ finishId) := by
      rw [hid', not_or, not_not]
      exact ⟨hfinish, hid⟩
    unfold checkAck
    rw [if_neg hfound, if_pos (hevolves.acked hacked)]
  | rebind b epoch now =>
    obtain rfl := some.inj hcall
    refine .inl ?_
    show (sessionRebind db' j' b epoch now).result = .idempotent
    rw [sessionRebind_of_ok hok]
    refine (guardedUpdate_again _ _ _ hbegins hloads hr'
      (assignmentMatches_sameJob hevolves.identity hsettled.1)).1 ?_
    unfold checkEpoch
    exact if_pos hbound
  | prune now => cases hcall

/-! ### One call -/

/-- The row of a job that was there and still is: it is the same, or the call had an effect on it. -/
theorem perform_row (db : Sqlite) {j : Journal} (c : Call)
    (hr : j.find job = some r) (hr' : (c.perform db j).journal.find job = some r') :
    r' = r ∨ ∃ a, c.assignment? = some a ∧ a.jobId = job ∧ Effect c r r' := by
  cases perform_spec db j c with
  | unchanged hresult hjournal =>
    rw [hjournal, hr] at hr'
    exact .inl (some.inj hr').symm
  | inserted a candidateJson now hcall hnew hresult hfind =>
    rw [hfind] at hr'
    split at hr'
    · next hk =>
      rw [hk, hr] at hnew
      cases hnew
    · rw [hr] at hr'
      exact .inl (some.inj hr').symm
  | updated a q q' hcall hrow hmatches heffect hresult hfind =>
    rw [hfind] at hr'
    split at hr'
    · next hk =>
      rw [hk, hr] at hrow
      obtain rfl := some.inj hrow
      obtain rfl := some.inj hr'
      exact .inr ⟨a, hcall, hk, heffect⟩
    · rw [hr] at hr'
      exact .inl (some.inj hr').symm
  | pruned now p hcall hresult hacked hjournal =>
    rw [hjournal, Table.find_delete, hr] at hr'
    exact .inl (some.inj (filter_eq_some_iff.mp hr').1).symm

/-- What one call does to the row of a job that stays: only an acknowledgement of the stored finish
    acknowledges, and the reference is the one of the transition into applying. -/
structure Guarded (c : Call) (job : String) (r r' : Row) : Prop where
  acked : r'.finishAcked ≠ r.finishAcked →
    ∃ a now, c = .ack a r.finishId now ∧ a.jobId = job ∧ r.finishId ≠ ""
  changed : r'.previousJson ≠ r.previousJson →
    r.previousJson = "" ∧ r.state = .staged ∧ r'.state = .applying
  recorded : r.state ≠ .applying → r'.state = .applying →
    r'.previousJson ≠ "" ∧ ∃ a now, c = .markApplying a r'.previousJson now ∧ a.jobId = job

theorem effect_guarded {a : Assignment} (hr : RowOk r)
    (hcall : c.assignment? = some a) (hjob : a.jobId = job) (h : Effect c r r') :
    Guarded c job r r' := by
  cases h with
  | staged b now r hstate => exact ⟨fun h => absurd rfl h, fun h => absurd rfl h, fun _ h => by cases h⟩
  | applying b previousJson now r hstate hprevious =>
    obtain rfl := some.inj hcall
    exact ⟨fun h => absurd rfl h, fun _ => ⟨hr.untouched (.inr hstate), hstate, rfl⟩,
      fun _ _ => ⟨hprevious, b, now, rfl, hjob⟩⟩
  | applied b now r hstate =>
    exact ⟨fun h => absurd rfl h, fun h => absurd rfl h, fun _ h => by cases h⟩
  | finished f terminal now r hnew hid hterminal =>
    refine ⟨fun h => absurd rfl h, fun h => absurd rfl h, fun _ h => ?_⟩
    obtain rfl : terminal = .applying := h
    cases terminalOf_terminal hterminal
  | acked b finishId now r hfinish hid hnew =>
    obtain rfl := some.inj hcall
    refine ⟨fun _ => ⟨b, now, by rw [hid], hjob, hfinish⟩, fun h => absurd rfl h, fun h h' => ?_⟩
    exact absurd h' h
  | rebound b epoch now r hepoch =>
    exact ⟨fun h => absurd rfl h, fun h => absurd rfl h, fun h h' => absurd h' h⟩

theorem perform_guarded {j : Journal} (hj : Inv j) (db : Sqlite) (c : Call)
    (hr : j.find job = some r) (hr' : (c.perform db j).journal.find job = some r') :
    Guarded c job r r' := by
  rcases perform_row db c hr hr' with rfl | ⟨a, hcall, hjob, heffect⟩
  · exact ⟨fun h => absurd rfl h, fun h => absurd rfl h, fun h h' => absurd h' h⟩
  · exact effect_guarded (hj job r hr) hcall hjob heffect

/-- A row that is new is one that was offered. -/
theorem perform_new (db : Sqlite) {j : Journal} (c : Call) {r' : Row}
    (hr : j.find job = none) (hr' : (c.perform db j).journal.find job = some r') :
    ∃ a candidateJson now, c = .offer a candidateJson now ∧ a.jobId = job ∧
      r' = offeredRow a candidateJson now := by
  cases perform_spec db j c with
  | unchanged hresult hjournal =>
    rw [hjournal, hr] at hr'
    cases hr'
  | inserted a candidateJson now hcall hnew hresult hfind =>
    rw [hfind] at hr'
    split at hr'
    · next hk => exact ⟨a, candidateJson, now, hcall, hk, (some.inj hr').symm⟩
    · rw [hr] at hr'
      cases hr'
  | updated a q q' hcall hrow hmatches heffect hresult hfind =>
    rw [hfind] at hr'
    split at hr'
    · next hk =>
      rw [hk, hr] at hrow
      cases hrow
    · rw [hr] at hr'
      cases hr'
  | pruned now p hcall hresult hacked hjournal =>
    rw [hjournal, Table.find_delete, hr] at hr'
    cases hr'

/-- A row that goes was acknowledged, and the call is a prune. -/
theorem perform_removed (db : Sqlite) {j : Journal} (c : Call) {r : Row}
    (hr : j.find job = some r) (hr' : (c.perform db j).journal.find job = none) :
    (∃ now, c = .prune now) ∧ r.finishAcked = true := by
  cases perform_spec db j c with
  | unchanged hresult hjournal =>
    rw [hjournal, hr] at hr'
    cases hr'
  | inserted a candidateJson now hcall hnew hresult hfind =>
    rw [hfind] at hr'
    split at hr'
    · cases hr'
    · rw [hr] at hr'
      cases hr'
  | updated a q q' hcall hrow hmatches heffect hresult hfind =>
    rw [hfind] at hr'
    split at hr'
    · cases hr'
    · rw [hr] at hr'
      cases hr'
  | pruned now p hcall hresult hacked hjournal =>
    rw [hjournal, Table.find_delete, hr, filter_some] at hr'
    cases hp : p r with
    | true => exact ⟨⟨now, hcall⟩, hacked r hp⟩
    | false =>
      rw [hp] at hr'
      cases hr'

theorem unchanged_of_not_ok (db : Sqlite) (j : Journal) (c : Call)
    (h : (c.perform db j).result ≠ .ok) : (c.perform db j).journal = j := by
  cases perform_spec db j c with
  | unchanged hresult hjournal => exact hjournal
  | inserted a candidateJson now hcall hnew hresult hfind => exact absurd hresult h
  | updated a r r' hcall hrow hmatches heffect hresult hfind => exact absurd hresult h
  | pruned now p hcall hresult hacked hjournal => exact absurd hresult h

/-! ### The journal -/

/-- **The journal over all runs.**  Behind any calls from the empty journal:

    * a row keeps its identity, its order of states, its finish and its reference over every run in
      which it is there;
    * a call that does not return OK changes nothing; a row is new only by its offer, acknowledged
      only for the finish that is stored, given a reference exactly by the transition into applying,
      and removed only by a prune, once it is acknowledged, finished and terminal;
    * a call that succeeded and is made again while the row is there changes nothing and is
      idempotent, or a conflict once the job has moved on; a rebind, as long as the job is still
      bound to its session. -/
theorem journal_run (before : List Event) :
    let j := run Table.empty before
    (∀ (events : List Event) (job : String) (r : Row), Present job j events →
      j.find job = some r → ∃ r', (run j events).find job = some r' ∧ Evolves r r') ∧
    (∀ e : Event, ((e.reply j).result ≠ .ok → (e.reply j).journal = j) ∧ ∀ job : String,
        (∀ r r', j.find job = some r → (e.reply j).journal.find job = some r' →
          Guarded e.call job r r') ∧
        (∀ r', j.find job = none → (e.reply j).journal.find job = some r' →
          ∃ a candidateJson now, e.call = .offer a candidateJson now ∧ a.jobId = job ∧
            r' = offeredRow a candidateJson now) ∧
        (∀ r, j.find job = some r → (e.reply j).journal.find job = none →
          (∃ now, e.call = .prune now) ∧ r.finishAcked = true ∧ r.finishId ≠ "" ∧
            r.state.Terminal)) ∧
    (∀ (e : Event) (a : Assignment) (events : List Event) (db : Sqlite),
      e.call.assignment? = some a → (e.reply j).result = .ok → Present a.jobId (after j e) events →
      db.begins = true → db.loads = true →
      ∃ r r', (after j e).find a.jobId = some r ∧ (run (after j e) events).find a.jobId = some r' ∧
        (StillBound e.call r' →
          (e.call.perform db (run (after j e) events)).journal = run (after j e) events ∧
          ((e.call.perform db (run (after j e) events)).result = .idempotent ∨
            (e.call.perform db (run (after j e) events)).result = .conflict ∧
              r.state.rank < r'.state.rank))) := by
  have hj := run_inv inv_empty before
  dsimp only
  generalize run Table.empty before = j at hj ⊢
  refine ⟨?_, ?_, ?_⟩
  · intro events job r hpresent hr
    exact run_evolves hj hpresent hr
  · intro e
    refine ⟨unchanged_of_not_ok e.db j e.call, fun job => ⟨?_, ?_, ?_⟩⟩
    · intro r r' hr hr'
      exact perform_guarded hj e.db e.call hr hr'
    · intro r' hr hr'
      exact perform_new e.db e.call hr hr'
    · intro r hr hr'
      obtain ⟨hprune, hacked⟩ := perform_removed e.db e.call hr hr'
      have hrow := hj job r hr
      exact ⟨hprune, hacked, hrow.acked hacked, hrow.finished.mp (hrow.acked hacked)⟩
  · intro e a events db hcall hok hpresent hbegins hloads
    obtain ⟨r, hr, hsettled⟩ := settled_of_ok hcall hok
    obtain ⟨r', hr', hevolves⟩ := run_evolves (perform_inv hj e.db e.call) hpresent hr
    refine ⟨r, r', hr, hr', fun hbound => ?_⟩
    have hagain := perform_again hcall hok hsettled hevolves hr' hbound hbegins hloads
    refine ⟨unchanged_of_not_ok db _ e.call fun hagain' => ?_, hagain⟩
    rcases hagain with hresult | ⟨hresult, -⟩
    · exact absurd (hresult.symm.trans hagain') (by decide)
    · exact absurd (hresult.symm.trans hagain') (by decide)

/-! ### A rebind that is repeated -/

def plainUuid : String := "00000000-0000-0000-0000-000000000001"

def plainDigest : String := "sha256:" ++ String.ofList (List.replicate 64 '0')

/-- A session epoch of one digit. -/
def plainEpoch (ch : Char) : String := String.ofList (List.replicate 64 ch)

def plainAssignment : Assignment :=
  ⟨plainUuid, plainUuid, 1, plainDigest, plainDigest, plainUuid, plainEpoch 'a', "apply", ""⟩

/-- One job is offered, bound to a session and then to another one. -/
def reboundRun : List Event :=
  [⟨{}, .offer plainAssignment "{}" 1⟩, ⟨{}, .rebind plainAssignment (plainEpoch 'b') 2⟩,
    ⟨{}, .rebind plainAssignment (plainEpoch 'c') 3⟩]

/-- **A rebind is made twice and succeeds twice**: another one came between, and the repeated one
    takes effect again.  A prune is never idempotent. -/
theorem rebind_again : (sessionRebind {} (run Table.empty (reboundRun.take 1)) plainAssignment
      (plainEpoch 'b') 2).result = .ok ∧
    (sessionRebind {} (run Table.empty reboundRun) plainAssignment (plainEpoch 'b') 2).result = .ok ∧
    (run Table.empty reboundRun).find plainUuid ≠
      (sessionRebind {} (run Table.empty reboundRun) plainAssignment
        (plainEpoch 'b') 2).journal.find plainUuid ∧
    (prune {} Table.empty 1).result = .ok ∧
    (prune {} (prune {} Table.empty 1).journal 1).result = .ok := by
  refine ⟨by decide +kernel, by decide +kernel, by decide +kernel, rfl, rfl⟩

end DreamingOS.ConfigJob
