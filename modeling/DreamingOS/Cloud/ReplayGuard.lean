import DreamingOS.Cloud.Replay
import Mathlib.Data.Finset.Card

namespace DreamingOS.Cloud

open List Option

/-!
# Cloud replay guard — the frames that reach the local API

`cloud_handle_request` over a run of `relay_request` frames.

* `Request`, `Attempt`, `handle` — one frame, and the checks it goes through in their order;
* `Remembers` — the cache holds an id, and what was recorded behind it;
* `replay_guarded` — **a frame that reached the local API does not reach it again**, in a run of
  tidy calls with fewer than `replayCacheSize` other ids in between.
-/

/-! ### The code -/

/-- `CLOUD_REQUEST_ID_MAX`. -/
def requestIdMax : ℕ := 128

/-- What `cloud_envelope_parse_inner` reads out of the sealed payload.  `allowed` is the answer of
    `cloud_local_method_allowed` and `cloud_local_path_allowed` for its method and path. -/
structure InnerRequest where
  requestId : RequestId
  issuedAt : ℤ
  allowed : Bool

/-- A `relay_request` frame.  `complete` says that the other four fields are strings, and `decodes`
    that they are base64 of the right lengths; `inner` is `none` where the payload does not parse. -/
structure Request where
  requestId : Option RequestId
  (complete decodes : Bool)
  inner : Option InnerRequest

/-- A frame handled at a time, with the answers of the device list, the key store, the crypto
    library and the local API, which may be other ones at another time. -/
structure Attempt where
  frame : Request
  now : ℤ
  (identity keyKnown signatureValid keyAgreed opened localAnswers sealed : Bool)

/-- The frame sent back: a `relay_response`, or an error of this code. -/
inductive Reply where
  | invalidFrame
  | appNotAuthorized
  | requestReplayed
  | keyAgreementFailed
  | decryptFailed
  | invalidRequest
  | requestExpired
  | requestNotAllowed
  | localRequestFailed
  | sealFailed
  | relayResponse

/-- The checks before the replay cache. -/
def Attempt.checked (a : Attempt) : Except Reply RequestId :=
  match a.frame.requestId with
  | none => .error .invalidFrame
  | some id =>
    if !a.identity || !a.frame.complete || decide (requestIdMax < id.length) then
      .error .invalidFrame
    else if !a.frame.decodes then .error .invalidFrame
    else if !a.keyKnown then .error .appNotAuthorized
    else if !a.signatureValid then .error .appNotAuthorized
    else .ok id

/-- The checks after the replay cache, and the call of the local API. -/
def Attempt.answer (a : Attempt) (id : RequestId) : Reply :=
  if !a.keyAgreed then .keyAgreementFailed
  else if !a.opened then .decryptFailed
  else match a.frame.inner with
    | none => .invalidRequest
    | some inner =>
      if inner.requestId ≠ id then .invalidRequest
      else if inner.issuedAt ≤ 0 ∨ inner.issuedAt > a.now + issuedAtSkew ∨
          inner.issuedAt < a.now - issuedAtSkew then .requestExpired
      else if !inner.allowed then .requestNotAllowed
      else if !a.localAnswers then .localRequestFailed
      else if !a.sealed then .sealFailed
      else .relayResponse

/-- `cloud_handle_request`. -/
def handle (c : ReplayCache) (a : Attempt) : Reply × ReplayCache :=
  match a.checked with
  | .error reply => (reply, c)
  | .ok id =>
    let (seen, c) := replaySeen c id a.now
    if seen then (.requestReplayed, c) else (a.answer id, c)

/-- The cache after a run of attempts. -/
def after (c : ReplayCache) (as : List Attempt) : ReplayCache :=
  as.foldl (fun c a => (handle c a).2) c

/-- The frame is served: `cloud_local_execute` runs its request. -/
def Reply.served : Reply → Bool
  | .localRequestFailed | .sealFailed | .relayResponse => true
  | _ => false

/-- The id a step records in the cache. -/
def recorded (c : ReplayCache) (a : Attempt) : List RequestId :=
  match a.checked with
  | .error _ => []
  | .ok id => if (replaySeen c id a.now).1 then [] else [id]

/-- The ids a run records. -/
def recordedIds : ReplayCache → List Attempt → List RequestId
  | _, [] => []
  | c, a :: as => recorded c a ++ recordedIds (handle c a).2 as

/-- Every call of the replay cache in a run is tidy. -/
def TidyRun : ReplayCache → List Attempt → Prop
  | _, [] => True
  | c, a :: as => (∀ id, a.checked = .ok id → Tidy c id a.now) ∧ TidyRun (handle c a).2 as

/-! ### One attempt -/

variable {c : ReplayCache} {a : Attempt}

theorem handle_error {reply : Reply} (h : a.checked = .error reply) : handle c a = (reply, c) := by
  rw [handle, h]

variable {id : RequestId}

theorem handle_ok (h : a.checked = .ok id) :
    handle c a = if (replaySeen c id a.now).1 then (.requestReplayed, (replaySeen c id a.now).2)
      else (a.answer id, (replaySeen c id a.now).2) := by
  rw [handle, h]

theorem handle_fresh {c c' : ReplayCache} {a : Attempt} {id : RequestId}
    (h : a.checked = .ok id) (hfresh : replaySeen c id a.now = (false, c')) :
    handle c a = (a.answer id, c') := by
  rw [handle_ok h, hfresh]
  rfl

theorem handle_ok_cache (h : a.checked = .ok id) : (handle c a).2 = (replaySeen c id a.now).2 := by
  rw [handle_ok h]
  split <;> rfl

theorem checked_error {reply : Reply} (h : a.checked = .error reply) : reply.served = false := by
  unfold Attempt.checked at h
  repeat' split at h
  all_goals first | (obtain rfl := Except.error.inj h; rfl) | cases h

theorem checked_ok (h : a.checked = .ok id) : a.frame.requestId = some id := by
  unfold Attempt.checked at h
  split at h
  · cases h
  rename_i other hother
  repeat' split at h
  all_goals first | cases h
  rw [hother]

/-- What is served passed the cache, and its `issued_at` the skew check. -/
theorem served_cases (h : (handle c a).1.served = true) :
    ∃ id inner, a.checked = .ok id ∧ (replaySeen c id a.now).1 = false ∧
      a.frame.inner = some inner ∧ inner.issuedAt ≤ a.now + issuedAtSkew ∧
      a.now - issuedAtSkew ≤ inner.issuedAt := by
  cases hchecked : a.checked with
  | error reply =>
    rw [handle_error hchecked] at h
    rw [checked_error hchecked] at h
    cases h
  | ok id =>
    rw [handle_ok hchecked] at h
    cases hseen : (replaySeen c id a.now).1 with
    | true =>
      rw [hseen] at h
      cases h
    | false =>
      rw [hseen] at h
      change (a.answer id).served = true at h
      unfold Attempt.answer at h
      split at h
      · cases h
      split at h
      · cases h
      split at h
      · cases h
      rename_i inner hinner
      split at h
      · cases h
      split at h
      · cases h
      · rename_i hwindow
        exact ⟨id, inner, rfl, hseen, hinner, by omega, by omega⟩

theorem replaySeen_nil (c : ReplayCache) (now : ℤ) : replaySeen c [] now = (true, c) := rfl

theorem handle_inv (h : c.Inv a.now)
    (htidy : ∀ id, a.checked = .ok id → Tidy c id a.now) : (handle c a).2.Inv a.now := by
  cases hchecked : a.checked with
  | error reply =>
    rw [handle_error hchecked]
    exact h
  | ok id =>
    rw [handle_ok_cache hchecked]
    by_cases hid : id = []
    · rw [hid]
      exact h
    · exact (replaySeen_cases h hid (htidy id hchecked)).1

/-! ### Runs -/

theorem after_append (c : ReplayCache) (as bs : List Attempt) :
    after c (as ++ bs) = after (after c as) bs := foldl_append

theorem tidyRun_append {as bs : List Attempt} :
    TidyRun c (as ++ bs) ↔ TidyRun c as ∧ TidyRun (after c as) bs := by
  induction as generalizing c with
  | nil => simp [TidyRun, after]
  | cons a as ih =>
    simp only [cons_append, TidyRun, ih, and_assoc]
    rfl

theorem after_inv {now : ℤ} {as : List Attempt} (h : c.Inv now)
    (hstart : ∀ a ∈ as, now ≤ a.now) (hclock : as.Pairwise fun a b => a.now ≤ b.now)
    (htidy : TidyRun c as) {later : ℤ} (hnow : now ≤ later) (hlater : ∀ a ∈ as, a.now ≤ later) :
    (after c as).Inv later := by
  induction as generalizing c now with
  | nil => exact h.later hnow
  | cons a as ih =>
    obtain ⟨hfirst, hclock⟩ := pairwise_cons.mp hclock
    have hstep := handle_inv (h.later (hstart a mem_cons_self)) htidy.1
    exact ih hstep hfirst hclock htidy.2 (hlater a mem_cons_self)
      fun b hb => hlater b (mem_cons_of_mem _ hb)

/-! ### What the cache remembers -/

/-- An id is found where the ring holds it. -/
theorem holds_iff_ring {now : ℤ} :
    Holds id now c.entries ↔ ∃ e, some e ∈ ring (c.cleared now) c.next ∧ e.id = id := by
  have hmem : ∀ e, some e ∈ ring (c.cleared now) c.next ↔
      some e ∈ c.entries ∧ e.expired now = false := by
    intro e
    rw [ring, mem_rotate, ReplayCache.cleared, List.mem_map]
    constructor
    · rintro ⟨slot, hslot, hclear⟩
      cases slot with
      | none => cases hclear
      | some f =>
        cases hexp : f.expired now with
        | true => simp [clear, hexp] at hclear
        | false =>
          simp only [clear, hexp, Bool.false_eq_true, if_false, Option.some.injEq] at hclear
          exact hclear ▸ ⟨hslot, hexp⟩
    · rintro ⟨he, hexp⟩
      exact ⟨some e, he, by simp [clear, hexp]⟩
  unfold Holds
  simp only [hmem, and_assoc]

/-- The cache holds `id`, recorded at `t`, and behind it the other ids that were recorded since. -/
structure Remembers (c : ReplayCache) (id : RequestId) (t now : ℤ) (since : List ReplayEntry) :
    Prop where
  ring : ∃ front, ring (c.cleared now) c.next = front ++ some ⟨id, t⟩ :: since.map some
  distinct : (since.map ReplayEntry.id).Nodup
  other : ∀ e ∈ since, e.id ≠ id
  times : ∀ e ∈ since, t ≤ e.seenAt

variable {since : List ReplayEntry}

theorem Remembers.holds {t now : ℤ} (h : Remembers c id t now since) : Holds id now c.entries := by
  obtain ⟨front, hring⟩ := h.ring
  rw [holds_iff_ring, hring]
  exact ⟨⟨id, t⟩, by simp, rfl⟩

/-- Nothing of it expires before its skew window ends. -/
theorem Remembers.later {t now later : ℤ} (h : Remembers c id t now since) (hle : now ≤ later)
    (hwindow : later ≤ t + issuedAtSkew * 2) : Remembers c id t later since where
  ring := by
    obtain ⟨front, hring⟩ := h.ring
    have hkeep : ∀ e : ReplayEntry, t ≤ e.seenAt → clear later (some e) = some e := by
      intro e he
      have hlive : e.expired later = false := by
        simp only [ReplayEntry.expired, decide_eq_false_iff_not]
        omega
      simp [clear, hlive]
    refine ⟨front.map (clear later), ?_⟩
    have hsince : (since.map some).map (clear later) = since.map some := by
      rw [List.map_map]
      exact map_congr_left fun e he => hkeep e (h.times e he)
    rw [← ring_cleared hle, hring, map_append, map_cons, hsince, hkeep ⟨id, t⟩ (Int.le_refl t)]
  distinct := h.distinct
  other := h.other
  times := h.times

/-- Ids that differ from `id` and from one another are so many. -/
theorem length_le_card {ids : List RequestId} (h : ids.Nodup) (hid : id ∉ ids)
    (more : List RequestId) : ids.length ≤ ((ids ++ more).toFinset.erase id).card := by
  rw [← toFinset_card_of_nodup h]
  apply Finset.card_le_card
  intro x hx
  rw [Finset.mem_erase]
  refine ⟨fun heq => hid (heq ▸ List.mem_toFinset.mp hx), ?_⟩
  rw [toFinset_append]
  exact Finset.mem_union_left _ hx

/-- A step keeps it while it is not crowded out, and what it records comes last. -/
theorem Remembers.step {t : ℤ}
    (h : Remembers c id t a.now since) (hinv : c.Inv a.now) (ht : t ≤ a.now)
    (htidy : ∀ id, a.checked = .ok id → Tidy c id a.now)
    (rest : List RequestId)
    (hfew : ((since.map ReplayEntry.id ++ (recorded c a ++ rest)).toFinset.erase id).card <
      replayCacheSize) :
    ∃ more, Remembers (handle c a).2 id t a.now (since ++ more) ∧
      more.map ReplayEntry.id = recorded c a := by
  cases hchecked : a.checked with
  | error reply =>
    refine ⟨[], ?_, by simp [recorded, hchecked]⟩
    rw [handle_error hchecked, append_nil]
    exact h
  | ok new =>
    by_cases hnew : new = []
    · refine ⟨[], ?_, by simp [recorded, hchecked, hnew, replaySeen_nil]⟩
      rw [handle_ok_cache hchecked, hnew, append_nil]
      exact h
    obtain ⟨front, hring⟩ := h.ring
    rw [handle_ok_cache hchecked]
    obtain ⟨-, ⟨-, hseen, hsame⟩ | ⟨hnot, hfresh, hpush⟩⟩ :=
      replaySeen_cases hinv hnew (htidy new hchecked)
    · refine ⟨[], ?_, by simp [recorded, hchecked, hseen]⟩
      rw [append_nil]
      exact ⟨⟨front, hsame.trans hring⟩, h.distinct, h.other, h.times⟩
    · have hrecorded : recorded c a = [new] := by simp [recorded, hchecked, hfresh]
      rw [hrecorded] at hfew ⊢
      -- what is found nowhere in the ring is none of the ids remembered
      rw [holds_iff_ring, hring] at hnot
      have hother : new ≠ id := fun heq => hnot ⟨⟨id, t⟩, by simp, heq.symm⟩
      have hdistinct : new ∉ since.map ReplayEntry.id := by
        intro hmem
        obtain ⟨e, he, heid⟩ := List.mem_map.mp hmem
        exact hnot ⟨e, by simp [he], heid⟩
      have hnodup : (since.map ReplayEntry.id ++ [new]).Nodup := by
        rw [nodup_append]
        refine ⟨h.distinct, nodup_singleton _, ?_⟩
        rintro x hx y hy rfl
        rw [mem_singleton.mp hy] at hx
        exact hdistinct hx
      have hnotid : id ∉ since.map ReplayEntry.id ++ [new] := by
        intro hmem
        rcases mem_append.mp hmem with hmem | hmem
        · obtain ⟨e, he, heid⟩ := List.mem_map.mp hmem
          exact h.other e he heid
        · exact hother (mem_singleton.mp hmem).symm
      -- the id itself is not in front, for then the ring is full of later ones
      obtain ⟨slot, front, rfl⟩ : ∃ slot front', front = slot :: front' := by
        cases front with
        | cons slot front => exact ⟨slot, front, rfl⟩
        | nil =>
          have hlength := congrArg List.length hring
          rw [Cloud.ring, length_rotate, ReplayCache.cleared, length_map, hinv.length] at hlength
          simp only [nil_append, length_cons, length_map] at hlength
          have hcount := length_le_card hnodup hnotid rest
          rw [append_assoc, length_append, length_map, length_singleton] at hcount
          omega
      refine ⟨[⟨new, a.now⟩], ⟨⟨front, ?_⟩, ?_, ?_, ?_⟩, rfl⟩
      · rw [hpush, hring]
        simp
      · rw [map_append]
        exact hnodup
      · intro e he
        rcases mem_append.mp he with he | he
        · exact h.other e he
        · rw [mem_singleton.mp he]
          exact hother
      · intro e he
        rcases mem_append.mp he with he | he
        · exact h.times e he
        · rw [mem_singleton.mp he]
          exact ht

/-- A run within the window that records fewer than `replayCacheSize` other ids keeps it. -/
theorem Remembers.run {t now later : ℤ} {as : List Attempt} (h : Remembers c id t now since)
    (hinv : c.Inv now) (ht : t ≤ now) (hstart : ∀ a ∈ as, now ≤ a.now)
    (hclock : as.Pairwise fun a b => a.now ≤ b.now) (htidy : TidyRun c as) (hnow : now ≤ later)
    (hlater : ∀ a ∈ as, a.now ≤ later) (hwindow : later ≤ t + issuedAtSkew * 2)
    (hfew : ((since.map ReplayEntry.id ++ recordedIds c as).toFinset.erase id).card <
      replayCacheSize) :
    Holds id later (after c as).entries := by
  induction as generalizing c now since with
  | nil => exact (h.later hnow hwindow).holds
  | cons a as ih =>
    obtain ⟨hfirst, hclock⟩ := pairwise_cons.mp hclock
    have hge := hstart a mem_cons_self
    have hle := hlater a mem_cons_self
    have hinv' := hinv.later hge
    have hat := h.later hge (Int.le_trans hle hwindow)
    obtain ⟨more, hstep, hmore⟩ := hat.step hinv' (Int.le_trans ht hge) htidy.1
      (recordedIds (handle c a).2 as) hfew
    refine ih hstep (handle_inv hinv' htidy.1) (Int.le_trans ht hge) hfirst hclock htidy.2 hle
      (fun b hb => hlater b (mem_cons_of_mem _ hb)) ?_
    rw [map_append, hmore, append_assoc]
    exact hfew

/-! ### The guard -/

/-- **A frame is served once.**  In a run of tidy calls under a clock that does not go back, a frame
    that was served is not served again, where fewer than `replayCacheSize` other ids were
    recorded in between. -/
theorem replay_guarded (pre mid : List Attempt) (a b : Attempt)
    (hclock : (pre ++ a :: (mid ++ [b])).Pairwise fun a b => a.now ≤ b.now)
    (htidy : TidyRun .start (pre ++ a :: mid))
    (hsame : b.frame = a.frame)
    (hserved : (handle (after .start pre) a).1.served = true)
    (hfew : ∀ id, a.frame.requestId = some id →
      ((recordedIds (after .start (pre ++ [a])) mid).toFinset.erase id).card < replayCacheSize) :
    (handle (after .start (pre ++ a :: mid)) b).1.served = false := by
  by_contra hagain
  rw [Bool.not_eq_false] at hagain
  obtain ⟨id, inner, hchecked, hseen, hinner, hissued, -⟩ := served_cases hserved
  obtain ⟨id', inner', hchecked', hseen', hinner', -, hissued'⟩ := served_cases hagain
  -- both are of one id and one time of issue
  obtain rfl : id' = id := by
    have hid := checked_ok hchecked'
    rw [hsame, checked_ok hchecked] at hid
    exact (some.inj hid).symm
  obtain rfl : inner' = inner := by
    rw [hsame, hinner] at hinner'
    exact (some.inj hinner').symm
  have hwindow : b.now ≤ a.now + issuedAtSkew * 2 := by omega
  obtain ⟨hpre, htidya, htidymid⟩ := tidyRun_append.mp htidy
  obtain ⟨hclockpre, hclocka, hcross⟩ := pairwise_append.mp hclock
  obtain ⟨hfirst, hclockmid⟩ := pairwise_cons.mp hclocka
  obtain ⟨hclockmid, -, hlast⟩ := pairwise_append.mp hclockmid
  -- the cache when the frame comes for the first time
  have hinv : (after .start pre).Inv a.now := by
    cases pre with
    | nil => exact ReplayCache.start_inv a.now
    | cons p pre =>
      have hstart : ∀ q ∈ p :: pre, p.now ≤ q.now := by
        intro q hq
        rcases mem_cons.mp hq with rfl | hq
        · exact Int.le_refl _
        · exact (pairwise_cons.mp hclockpre).1 q hq
      exact after_inv (ReplayCache.start_inv p.now) hstart hclockpre hpre
        (hcross p mem_cons_self a mem_cons_self)
        fun q hq => hcross q hq a mem_cons_self
  have hid : id' ≠ [] := by
    rintro rfl
    rw [replaySeen_nil] at hseen
    cases hseen
  have hremembers : Remembers (handle (after .start pre) a).2 id' a.now a.now [] := by
    obtain ⟨-, ⟨-, htrue, -⟩ | ⟨-, -, hpush⟩⟩ := replaySeen_cases hinv hid (htidya id' hchecked)
    · rw [hseen] at htrue
      cases htrue
    · rw [handle_ok_cache hchecked]
      exact ⟨⟨_, hpush⟩, nodup_nil, forall_mem_nil _, forall_mem_nil _⟩
  have hafter : after .start (pre ++ [a]) = (handle (after .start pre) a).2 := by
    rw [after_append]
    rfl
  have hholds : Holds id' b.now (after (handle (after .start pre) a).2 mid).entries :=
    hremembers.run (handle_inv hinv htidya) (Int.le_refl _)
      (fun q hq => hfirst q (mem_append_left _ hq)) hclockmid htidymid
      (hfirst b (by simp)) (fun q hq => hlast q hq b (by simp)) hwindow
      (by simpa [hafter] using hfew id' (checked_ok hchecked))
  -- the second time, the id is found
  have hend : after .start (pre ++ a :: mid) = after (handle (after .start pre) a).2 mid := by
    rw [after_append]
    rfl
  rw [hend, replaySeen, if_neg hid] at hseen'
  rcases sweep_cases id' b.now 0 (0, 0) (after (handle (after .start pre) a).2 mid).entries with
    ⟨-, left, hsweep, -⟩ | ⟨hnot, -⟩
  · rw [hsweep] at hseen'
    cases hseen'
  · exact hnot hholds

/-- A frame of a registered device, and its attempt at `now`. -/
def Attempt.good (id : RequestId) (issuedAt now : ℤ) : Attempt :=
  ⟨⟨some id, true, true, some ⟨id, issuedAt, true⟩⟩, now, true, true, true, true, true, true, true⟩

theorem tidy_of_free {now : ℤ} (h : none ∈ c.cleared now) :
    Tidy c id now := fun _ _ hnone => absurd h hnone

theorem replay_guarded_after_one :
    (handle (after .start [.good [1] 1000 1000, .good [2] 1000 1000]) (.good [1] 1000 1001)).1.served =
      false :=
  replay_guarded [] [.good [2] 1000 1000] (.good [1] 1000 1000) (.good [1] 1000 1001)
    (by decide) ⟨fun _ _ => tidy_of_free (by decide +kernel),
      fun _ _ => tidy_of_free (by decide +kernel), trivial⟩ rfl (by decide +kernel)
    (fun id hid => by
      obtain rfl := some.inj hid
      decide +kernel)

/-! ### Ids of one second -/

/-- The `i`-th of the ids that fill the cache. -/
def fillId (i : ℕ) : RequestId := [UInt8.ofNat (i / 256), UInt8.ofNat (i % 256)]

/-- Served at second 1000, one after the other. -/
def fillRun (n : ℕ) : List Attempt := (List.range n).map fun i => .good (fillId i) 1000 1000

/-- The cache behind them. -/
def fillCache (n : ℕ) : ReplayCache :=
  ⟨(List.range n).map (fun i => some ⟨fillId i, 1000⟩) ++ List.replicate (replayCacheSize - n) none,
    n % replayCacheSize⟩

theorem fillId_injective {i j : ℕ} (hi : i < replayCacheSize) (hj : j < replayCacheSize)
    (h : fillId i = fillId j) : i = j := by
  simp only [fillId, List.cons.injEq, and_true] at h
  have hhigh := congrArg UInt8.toNat h.1
  have hlow := congrArg UInt8.toNat h.2
  simp only [UInt8.toNat_ofNat'] at hhigh hlow
  unfold replayCacheSize at hi hj
  omega

theorem fillCache_cleared (n : ℕ) : (fillCache n).cleared 1000 = (fillCache n).entries := by
  simp only [ReplayCache.cleared, fillCache, map_append, List.map_map, map_replicate]
  congr 1

theorem fillCache_record {n : ℕ} (hn : n < replayCacheSize) :
    record (fillCache n).entries (fillCache n).next ⟨fillId n, 1000⟩ = fillCache (n + 1) := by
  obtain ⟨m, hm⟩ : ∃ m, replayCacheSize - n = m + 1 := ⟨replayCacheSize - n - 1, by omega⟩
  have hm' : replayCacheSize - (n + 1) = m := by omega
  have hmod : n % replayCacheSize = n := Nat.mod_eq_of_lt hn
  simp only [record, fillCache, hm, hm', hmod, range_succ, map_append, map_cons,
    map_nil, append_assoc]
  congr 1
  rw [set_append_right _ _ (by simp)]
  simp [replicate_succ]

/-- Nothing is evicted until the cache is full. -/
theorem fillRun_cache {n : ℕ} (hn : n ≤ replayCacheSize) :
    after .start (fillRun n) = fillCache n ∧ (fillCache n).Inv 1000 := by
  induction n with
  | zero => exact ⟨rfl, ReplayCache.start_inv 1000⟩
  | succ n ih =>
    obtain ⟨hafter, hinv⟩ := ih (Nat.le_of_succ_le hn)
    have hfree : none ∈ (fillCache n).cleared 1000 := by
      rw [fillCache_cleared, fillCache]
      refine mem_append_right _ (mem_replicate.mpr ⟨?_, rfl⟩)
      omega
    have hid : fillId n ≠ [] := cons_ne_nil _ _
    have hchecked : (Attempt.good (fillId n) 1000 1000).checked = .ok (fillId n) := rfl
    have hrun : after .start (fillRun (n + 1)) =
        (handle (fillCache n) (.good (fillId n) 1000 1000)).2 := by
      rw [fillRun, range_succ, map_append, after_append, ← fillRun, hafter]
      rfl
    obtain ⟨hinv', ⟨hholds, -, -⟩ | ⟨-, hrecord, -⟩⟩ :=
      replaySeen_cases hinv hid (tidy_of_free hfree)
    · -- the id is none of the earlier ones
      obtain ⟨e, he, -, heid⟩ := hholds
      rcases mem_append.mp he with he | he
      · obtain ⟨i, hi, hei⟩ := List.mem_map.mp he
        obtain rfl := some.inj hei
        have hlt : i < n := mem_range.mp hi
        have heq := fillId_injective (by omega) hn heid
        omega
      · cases (mem_replicate.mp he).2
    · have hcache : (handle (fillCache n) (.good (fillId n) 1000 1000)).2 = fillCache (n + 1) := by
        rw [handle_ok_cache hchecked]
        show (replaySeen (fillCache n) (fillId n) 1000).2 = fillCache (n + 1)
        rw [hrecord, fillCache_cleared, fillCache_record hn]
      rw [hrun]
      refine ⟨hcache, ?_⟩
      rw [← hcache, handle_ok_cache hchecked]
      exact hinv'

/-- All ids of one second: the tie is broken by the slot, so that the id just recorded is the next
    one evicted, and the same frame is served twice with one other id in between. -/
theorem replay_after_tie :
    let pre := fillRun replayCacheSize
    let a := Attempt.good [1] 1000 1000
    let other := Attempt.good [2] 1000 1000
    (∀ attempt ∈ pre ++ [a, other, a], attempt.now = 1000) ∧
      (handle (after .start pre) a).1 = .relayResponse ∧
      recordedIds (after .start (pre ++ [a])) [other] = [[2]] ∧
      (handle (after .start (pre ++ [a, other])) a).1 = .relayResponse := by
  intro pre a other
  have hfull : after .start pre = fillCache replayCacheSize := (fillRun_cache (Nat.le_refl _)).1
  -- every slot holds an id of this second: one of the first, or the last one written to slot 0
  have hslots : ∀ slot ∈ (fillCache replayCacheSize).entries,
      ∃ i, slot = some ⟨fillId i, 1000⟩ := by
    intro slot hslot
    simp only [fillCache, Nat.sub_self, replicate_zero, append_nil, List.mem_map] at hslot
    obtain ⟨i, -, rfl⟩ := hslot
    exact ⟨i, rfl⟩
  have hnil : (fillCache replayCacheSize).entries ≠ [] := by simp [fillCache, replayCacheSize]
  have hshort : ∀ id : RequestId, id.length = 1 → ∀ slot ∈ (fillCache replayCacheSize).entries,
      ∃ e, slot = some e ∧ e.seenAt = 1000 ∧ e.id ≠ id := by
    intro id hlength slot hslot
    obtain ⟨i, rfl⟩ := hslots slot hslot
    refine ⟨_, rfl, rfl, ?_⟩
    rintro rfl
    cases hlength
  have hsecond : (1000 : ℤ) ≠ 0 := by decide
  have hid : ∀ i, ([i] : RequestId) ≠ [] := fun i => cons_ne_nil i []
  have hseen₁ : replaySeen (fillCache replayCacheSize) [1] 1000 =
      (false, record (fillCache replayCacheSize).entries 0 ⟨[1], 1000⟩) :=
    replaySeen_tie (hid 1) hsecond hnil (hshort [1] rfl)
  have hseen₂ : replaySeen (record (fillCache replayCacheSize).entries 0 ⟨[1], 1000⟩) [2] 1000 =
      (false, record (fillCache replayCacheSize).entries 0 ⟨[2], 1000⟩) :=
    replaySeen_tie_again (hid 2) hsecond hnil (by decide) (hshort [2] rfl)
  have hseen₃ : replaySeen (record (fillCache replayCacheSize).entries 0 ⟨[2], 1000⟩) [1] 1000 =
      (false, record (fillCache replayCacheSize).entries 0 ⟨[1], 1000⟩) :=
    replaySeen_tie_again (hid 1) hsecond hnil (by decide) (hshort [1] rfl)
  have hfirst := @handle_fresh _ _ a [1] rfl hseen₁
  have hother := @handle_fresh _ _ other [2] rfl hseen₂
  have hagain := @handle_fresh _ _ a [1] rfl hseen₃
  refine ⟨?_, ?_⟩
  · intro attempt hattempt
    rcases mem_append.mp hattempt with hpre | hrest
    · obtain ⟨i, -, rfl⟩ := List.mem_map.mp hpre
      rfl
    · simp only [mem_cons, not_mem_nil, or_false] at hrest
      rcases hrest with rfl | rfl | rfl <;> rfl
  · have hafter : after .start (pre ++ [a]) =
        record (fillCache replayCacheSize).entries 0 ⟨[1], 1000⟩ := by
      rw [after_append, hfull]
      show (handle (fillCache replayCacheSize) a).2 = _
      rw [hfirst]
    have hafter' : after .start (pre ++ [a, other]) =
        record (fillCache replayCacheSize).entries 0 ⟨[2], 1000⟩ := by
      rw [append_cons, after_append, hafter]
      show (handle _ other).2 = _
      rw [hother]
    rw [hfull, hfirst, hafter, hafter']
    refine ⟨rfl, ?_, congrArg Prod.fst hagain⟩
    show recorded _ other ++ [] = _
    rw [recorded]
    show (if (replaySeen _ [2] 1000).1 then [] else [[2]]) ++ [] = _
    rw [hseen₂]
    rfl

end DreamingOS.Cloud
