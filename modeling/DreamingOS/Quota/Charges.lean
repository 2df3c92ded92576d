import DreamingOS.Quota.Flows
import Mathlib.Data.List.SplitBy
import Mathlib.Algebra.Order.BigOperators.Group.List
import Mathlib.Algebra.Order.Group.Nat

namespace DreamingOS.Quota

open List

/-!
# Terminal quotas — what a flow is charged

The bytes of a direction of a flow between two counter resets.

* `quotaResults`, `history` — a run of events, and what one direction of one flow is charged in it;
* `lives`, `stretches` — the history cut at destroy events and at counter resets;
* `StillUntilLast` — no counter of a stretch but the last differs from the first, and a reset does
  not stay above the first;
* `charged_exactly_iff` — **a run charges exactly what its flows moved iff every counter stands
  still until the last report of its stretch**;
* `moving_flow` — three growing reports charge some bytes twice.

The baseline of a direction is read at every report and moved only at a reset.
-/

/-! ### Runs -/

/-- The bytes of a direction that an event hands to the accounts. -/
def EventResult.charge : Direction → EventResult → ℕ
  | .up, .charged _ up _ => up
  | .down, .charged _ _ down => down
  | _, _ => 0

/-- What every event of a run does. -/
def quotaResults (t : FlowTable) : List Event → List EventResult
  | [] => []
  | e :: es => (quotaProcessEvent t e).2 :: quotaResults (quotaProcessEvent t e).1 es

/-- The sample of an event, if it counts for the flow. -/
def Event.sampleOf (f : Flow) (e : Event) : Option QuotaSrc :=
  (quotaEventToSrc e.ct e.nowMs).filter fun s =>
    s.flow = f && quotaDstIsInternet e.locals s.flow.family s.flow.dstAddr

/-- A report of a flow: the counter of the direction, if the message carries it, and whether the
    flow ends. -/
structure Report where
  counter : Option ℕ
  destroyed : Bool

/-- What the events of a run report of one direction of a flow. -/
def reports (d : Direction) (f : Flow) (es : List Event) : List Report :=
  es.filterMap fun e => (e.sampleOf f).map fun s => ⟨d.counter s, e.destroyed⟩

/-- The reports with the bytes each of them is charged. -/
def history (d : Direction) (f : Flow) (t : FlowTable) (es : List Event) : List (Report × ℕ) :=
  (es.zip (quotaResults t es)).filterMap fun p =>
    (p.1.sampleOf f).map fun s => (⟨d.counter s, p.1.destroyed⟩, p.2.charge d)

/-! ### Stretches -/

section

variable {α β : Type}

/-- A list cut behind every element that ends a life. -/
def lives (last : α → Bool) (l : List α) : List (List α) := l.splitBy fun a _ => !last a

/-- A list cut where the counter falls. -/
def stretches (counter : α → ℕ) (l : List α) : List (List α) :=
  l.splitBy fun a b => counter a ≤ counter b

theorem splitBy_map (r : β → β → Bool) (f : α → β) (l : List α) :
    (l.map f).splitBy r = (l.splitBy fun a b => r (f a) (f b)).map (List.map f) := by
  rw [splitBy_eq_iff]
  refine ⟨?_, ?_, ?_, ?_⟩
  · rw [← map_flatten, flatten_splitBy]
  · intro hnil
    obtain ⟨m, hm, hmap⟩ := List.mem_map.mp hnil
    exact ne_nil_of_mem_splitBy hm (map_eq_nil_iff.mp hmap)
  · intro m hm
    obtain ⟨k, hk, rfl⟩ := List.mem_map.mp hm
    exact isChain_map_of_isChain f (fun _ _ h => h) (isChain_of_mem_splitBy hk)
  · refine isChain_map_of_isChain (List.map f) ?_ (isChain_getLast_head_splitBy _ l)
    rintro a b ⟨ha, hb, hab⟩
    refine ⟨mt map_eq_nil_iff.mp ha, mt map_eq_nil_iff.mp hb, ?_⟩
    rw [getLast_map, head_map]
    exact hab

end

/-- Every stretch of a life is charged its last counter minus its first, and a report without a
    counter is charged nothing. -/
def LifeCharged (life : List (Report × ℕ)) : Prop :=
  (∀ p ∈ life, p.1.counter = none → p.2 = 0) ∧
    ∀ s ∈ stretches Prod.fst (life.filterMap fun p => p.1.counter.map (·, p.2)),
      (s.map Prod.snd).sum = (s.map Prod.fst).getLastD 0 - (s.map Prod.fst).headD 0

def ChargedExactly (h : List (Report × ℕ)) : Prop :=
  ∀ life ∈ lives (fun p => p.1.destroyed) h, LifeCharged life

/-- In every stretch of the counters none but the last differs from the first, and no stretch
    begins above the one before it. -/
def LifeStill (counters : List ℕ) : Prop :=
  (∀ s ∈ stretches id counters, ∀ c ∈ s.dropLast, c = s.headD 0) ∧
    ((stretches id counters).map (·.headD 0)).IsChain (· ≥ ·)

def StillUntilLast (rs : List Report) : Prop :=
  ∀ life ∈ lives Report.destroyed rs, LifeStill (life.filterMap Report.counter)

instance (h : List (Report × ℕ)) : Decidable (ChargedExactly h) :=
  inferInstanceAs (Decidable (∀ life ∈ lives (fun p => p.1.destroyed) h,
    (∀ p ∈ life, p.1.counter = none → p.2 = 0) ∧
      ∀ s ∈ stretches Prod.fst (life.filterMap fun p => p.1.counter.map (·, p.2)),
        (s.map Prod.snd).sum = (s.map Prod.fst).getLastD 0 - (s.map Prod.fst).headD 0))

/-! ### One stretch -/

/-- Counters with the charges that the baseline gives. -/
def Reads : Option ℕ → List (ℕ × ℕ) → Prop
  | _, [] => True
  | base, p :: ps => p.2 = (advance base (some p.1)).2 ∧ Reads (advance base (some p.1)).1 ps

/-- The baseline behind a first counter. -/
def settle : Option ℕ → ℕ → ℕ
  | some b, c => min b c
  | none, c => c

theorem settle_le (base : Option ℕ) (c : ℕ) : settle base c ≤ c := by
  cases base with
  | none => exact Nat.le_refl c
  | some b => exact Nat.min_le_right b c

theorem advance_some (base : Option ℕ) (c : ℕ) :
    advance base (some c) = (some (settle base c), c - settle base c) := by
  cases base with
  | none => simp [advance, settle]
  | some b =>
    by_cases h : b ≤ c
    · simp [advance, settle, h]
    · have hle : c ≤ b := Nat.le_of_not_le h
      simp [advance, settle, h, hle]

variable {base : Option ℕ} {c : ℕ}

/-- Through a stretch the baseline stays what its first counter has made it. -/
theorem Reads.stretch {s rest : List (ℕ × ℕ)} {q : ℕ}
    (h : Reads base ((c, q) :: s ++ rest)) (hge : ∀ p ∈ s, c ≤ p.1) :
    (((c, q) :: s).map Prod.snd = ((c, q) :: s).map fun p => p.1 - settle base c) ∧
      Reads (some (settle base c)) rest := by
  have htail : ∀ (ps : List (ℕ × ℕ)), (∀ p ∈ ps, c ≤ p.1) →
      Reads (some (settle base c)) (ps ++ rest) →
      (ps.map Prod.snd = ps.map fun p => p.1 - settle base c) ∧
        Reads (some (settle base c)) rest := by
    intro ps
    induction ps with
    | nil => exact fun _ hreads => ⟨rfl, hreads⟩
    | cons p ps ih =>
      intro hps hreads
      obtain ⟨hcharge, hreads⟩ := hreads
      have hp : settle base c ≤ p.1 := Nat.le_trans (settle_le base c) (hps p mem_cons_self)
      have hsettle : settle (some (settle base c)) p.1 = settle base c := Nat.min_eq_left hp
      rw [advance_some, hsettle] at hcharge hreads
      obtain ⟨hsame, hrest⟩ := ih (fun x hx => hps x (mem_cons_of_mem p hx)) hreads
      refine ⟨?_, hrest⟩
      rw [map_cons, map_cons, hsame, hcharge]
  obtain ⟨hcharge, hreads⟩ := h
  rw [advance_some] at hcharge hreads
  obtain ⟨hsame, hrest⟩ := htail s hge hreads
  refine ⟨?_, hrest⟩
  rw [map_cons, map_cons, hsame]
  exact congrArg (· :: _) hcharge

/-- What a stretch is charged against a baseline is its own growth iff the baseline is its first
    counter and nothing moves before its last. -/
theorem sum_sub_eq_iff {b : ℕ} (hb : b ≤ c) (cs : List ℕ) (hge : ∀ x ∈ cs, c ≤ x) :
    ((c :: cs).map (· - b)).sum = (c :: cs).getLastD 0 - c ↔
      b = c ∧ ∀ x ∈ (c :: cs).dropLast, x = c := by
  rcases eq_nil_or_concat cs with rfl | ⟨init, l, rfl⟩
  · simp only [map_cons, map_nil, sum_cons, sum_nil, dropLast_singleton,
      not_mem_nil, getLastD_cons, getLastD_nil]
    constructor
    · intro h
      exact ⟨by omega, nofun⟩
    · rintro ⟨rfl, -⟩
      omega
  · have hl : c ≤ l := hge l (by simp)
    have hlast : (c :: (init ++ [l])).getLastD 0 = l := by rw [getLastD_cons, getLastD_concat]
    have hdrop : (c :: (init ++ [l])).dropLast = c :: init := by rw [← cons_append, dropLast_concat]
    rw [concat_eq_append, hlast, hdrop, map_cons, sum_cons, map_append,
      sum_append, map_singleton, sum_singleton]
    constructor
    · intro h
      have hzero : (init.map (· - b)).sum = 0 := by omega
      refine ⟨by omega, ?_⟩
      intro x hx
      rcases mem_cons.mp hx with rfl | hx
      · rfl
      have hxb : x - b = 0 := sum_eq_zero_iff.mp hzero (x - b) (List.mem_map_of_mem hx)
      have hxc : c ≤ x := hge x (by simp [hx])
      omega
    · rintro ⟨rfl, hsame⟩
      have hzero : (init.map (· - b)).sum = 0 := by
        apply sum_eq_zero
        intro y hy
        obtain ⟨x, hx, rfl⟩ := List.mem_map.mp hy
        rw [hsame x (mem_cons_of_mem b hx), Nat.sub_self]
      omega

/-! ### One life -/

/-- Stretches read against a baseline are charged exactly iff they stand still until their last
    counters and none begins above the baseline. -/
theorem stretches_exact_iff {base : Option ℕ} {ss : List (List (ℕ × ℕ))}
    (hne : ∀ s ∈ ss, s ≠ []) (hup : ∀ s ∈ ss, s.IsChain fun a b => a.1 ≤ b.1)
    (h : Reads base ss.flatten) :
    (∀ s ∈ ss, (s.map Prod.snd).sum = (s.map Prod.fst).getLastD 0 - (s.map Prod.fst).headD 0) ↔
      (∀ s ∈ ss, ∀ c ∈ (s.map Prod.fst).dropLast, c = (s.map Prod.fst).headD 0) ∧
        (base.toList ++ ss.map fun s => (s.map Prod.fst).headD 0).IsChain (· ≥ ·) := by
  induction ss generalizing base with
  | nil =>
    cases base with
    | none => simp
    | some b => simp
  | cons s ss ih =>
    obtain ⟨⟨c, q⟩, ps, rfl⟩ := exists_cons_of_ne_nil (hne s mem_cons_self)
    have hge : ∀ p ∈ ps, c ≤ p.1 := by
      have hchain := isChain_iff_pairwise.mp (hup _ mem_cons_self)
      exact (pairwise_cons.mp hchain).1
    rw [flatten_cons] at h
    obtain ⟨hcharges, hrest⟩ := h.stretch hge
    have hsum : (((c, q) :: ps).map Prod.snd).sum =
        ((c :: ps.map Prod.fst).map (· - settle base c)).sum := by
      rw [hcharges, ← map_cons (f := Prod.fst) (a := (c, q)), List.map_map]
      rfl
    have hone := sum_sub_eq_iff (settle_le base c) (ps.map Prod.fst)
      (fun x hx => by
        obtain ⟨p, hp, rfl⟩ := List.mem_map.mp hx
        exact hge p hp)
    have hih := ih (fun s hs => hne s (mem_cons_of_mem _ hs))
      (fun s hs => hup s (mem_cons_of_mem _ hs)) hrest
    -- the baseline is the first counter iff the first counter is not above it
    have hbase : settle base c = c ↔ ∀ b ∈ base, b ≥ c := by
      cases base with
      | none => simp [settle]
      | some b => simp [settle]
    have hcounters : ((c, q) :: ps).map Prod.fst = c :: ps.map Prod.fst := rfl
    have hfirsts : (((c, q) :: ps) :: ss).map (fun s => (s.map Prod.fst).headD 0) =
        c :: ss.map fun s => (s.map Prod.fst).headD 0 := rfl
    rw [forall_mem_cons, forall_mem_cons, hsum, hfirsts, hcounters, headD_cons, hone, hih]
    constructor
    · rintro ⟨⟨hsettle, hstill⟩, hstills, hchain⟩
      rw [hsettle] at hchain
      refine ⟨⟨hstill, hstills⟩, ?_⟩
      cases base with
      | none => exact hchain
      | some b => exact isChain_cons_cons.mpr ⟨hbase.mp hsettle b rfl, hchain⟩
    · rintro ⟨⟨hstill, hstills⟩, hchain⟩
      have hsettle : settle base c = c := by
        apply hbase.mpr
        rintro b rfl
        exact (isChain_cons_cons.mp hchain).1
      refine ⟨⟨hsettle, hstill⟩, hstills, ?_⟩
      rw [hsettle]
      cases base with
      | none => exact hchain
      | some b => exact (isChain_cons_cons.mp hchain).2

/-- A history with the charges that the baseline gives; it is lost when the flow ends. -/
def Follows : Option ℕ → List (Report × ℕ) → Prop
  | _, [] => True
  | base, (r, q) :: h =>
    q = (advance base r.counter).2 ∧
      Follows (if r.destroyed then none else (advance base r.counter).1) h

variable {life : List (Report × ℕ)}

/-- Within a life the counters are read against one baseline, and a report without a counter is
    charged nothing. -/
theorem Follows.reads (h : Follows base life) (hlife : life.IsChain fun a _ => !a.1.destroyed) :
    (∀ p ∈ life, p.1.counter = none → p.2 = 0) ∧
      Reads base (life.filterMap fun p => p.1.counter.map (·, p.2)) := by
  induction life generalizing base with
  | nil => exact ⟨nofun, trivial⟩
  | cons p life ih =>
    obtain ⟨⟨counter, destroyed⟩, q⟩ := p
    obtain ⟨hcharge, hrest⟩ := h
    have hrest' : Follows (advance base counter).1 life := by
      cases life with
      | nil => trivial
      | cons p' life =>
        have halive := (isChain_cons_cons.mp hlife).1
        rw [Bool.not_eq_true'] at halive
        dsimp only at halive hrest
        rw [halive] at hrest
        exact hrest
    obtain ⟨hnone, hreads⟩ := ih hrest' (List.IsChain.tail hlife)
    cases counter with
    | none =>
      refine ⟨?_, hreads⟩
      rintro x hx hcounter
      rcases mem_cons.mp hx with rfl | hx
      · exact hcharge
      · exact hnone x hx hcounter
    | some c =>
      refine ⟨?_, hcharge, hreads⟩
      rintro x hx hcounter
      rcases mem_cons.mp hx with rfl | hx
      · cases hcounter
      · exact hnone x hx hcounter

theorem life_exact_iff (h : Follows none life) (hlife : life.IsChain fun a _ => !a.1.destroyed) :
    LifeCharged life ↔ LifeStill (life.filterMap fun p => p.1.counter) := by
  obtain ⟨hnone, hreads⟩ := h.reads hlife
  have hcounters : (life.filterMap fun p => p.1.counter) =
      (life.filterMap fun p => p.1.counter.map (·, p.2)).map Prod.fst := by
    rw [map_filterMap]
    apply filterMap_congr
    intro p _
    cases p.1.counter <;> rfl
  unfold LifeCharged LifeStill
  rw [hcounters, and_iff_right hnone]
  generalize (life.filterMap fun p => p.1.counter.map (·, p.2)) = pairs at hreads
  have hcut : stretches id (pairs.map Prod.fst) =
      (stretches Prod.fst pairs).map (List.map Prod.fst) := splitBy_map _ Prod.fst pairs
  have hexact := @stretches_exact_iff none (stretches Prod.fst pairs)
    (fun s hs => ne_nil_of_mem_splitBy hs)
    (fun s hs => (isChain_of_mem_splitBy hs).imp fun _ _ hab => of_decide_eq_true hab)
    (by rw [stretches, flatten_splitBy]; exact hreads)
  rw [hexact, hcut, List.forall_mem_map, List.map_map]
  rfl

/-! ### One flow -/

theorem Follows.append {xs ys : List (Report × ℕ)} (h : Follows base (xs ++ ys)) :
    Follows base xs ∧ ∀ hxs : xs ≠ [], (xs.getLast hxs).1.destroyed = true → Follows none ys := by
  induction xs generalizing base with
  | nil => exact ⟨trivial, fun hxs => absurd rfl hxs⟩
  | cons p xs ih =>
    obtain ⟨hcharge, hrest⟩ := h
    obtain ⟨hxs, hlast⟩ := ih hrest
    refine ⟨⟨hcharge, hxs⟩, ?_⟩
    intro hne hdestroyed
    cases xs with
    | nil =>
      rw [getLast_singleton] at hdestroyed
      rw [hdestroyed] at hrest
      exact hrest
    | cons p' xs =>
      rw [getLast_cons (cons_ne_nil p' xs)] at hdestroyed
      exact hlast (cons_ne_nil p' xs) hdestroyed

/-- Every life of a flow begins without a baseline. -/
theorem Follows.lives {ls : List (List (Report × ℕ))} (hne : ∀ life ∈ ls, life ≠ [])
    (hcut : ls.IsChain fun a b => ∃ ha : a ≠ [], ∃ _ : b ≠ [], (!(a.getLast ha).1.destroyed) = false)
    (h : Follows none ls.flatten) : ∀ life ∈ ls, Follows none life := by
  induction ls with
  | nil => nofun
  | cons l ls ih =>
    rw [flatten_cons] at h
    obtain ⟨hl, hlast⟩ := h.append
    have hrest : Follows none ls.flatten := by
      cases ls with
      | nil => trivial
      | cons l' ls =>
        obtain ⟨ha, -, hdestroyed⟩ := (isChain_cons_cons.mp hcut).1
        rw [Bool.not_eq_false'] at hdestroyed
        exact hlast ha hdestroyed
    rw [forall_mem_cons]
    exact ⟨hl, ih (fun m hm => hne m (mem_cons_of_mem l hm)) hcut.tail hrest⟩

theorem charged_iff_of_follows {h : List (Report × ℕ)} (hfollows : Follows none h) :
    ChargedExactly h ↔ StillUntilLast (h.map Prod.fst) := by
  have hlives : ∀ life ∈ lives (fun p => p.1.destroyed) h, Follows none life := by
    apply Follows.lives
    · exact fun life hlife => ne_nil_of_mem_splitBy hlife
    · exact isChain_getLast_head_splitBy (fun p _ => !p.1.destroyed) h
    · unfold lives
      rw [flatten_splitBy]
      exact hfollows
  have hmap : lives Report.destroyed (h.map Prod.fst) =
      (lives (fun p => p.1.destroyed) h).map (List.map Prod.fst) := splitBy_map _ Prod.fst h
  unfold ChargedExactly StillUntilLast
  rw [hmap, List.forall_mem_map]
  apply forall₂_congr
  intro life hlife
  rw [life_exact_iff (hlives life hlife) (isChain_of_mem_splitBy hlife), filterMap_map]
  rfl

/-! ### One event -/

theorem advance_self (c : Option ℕ) : advance c c = advance none c := by
  cases c with
  | none => rfl
  | some c => simp [advance]

variable {t : FlowTable} {e : Event} {f : Flow}

/-- An event of another flow leaves the entry alone. -/
theorem quotaProcessEvent_other (ht : t.Ok) (h : e.sampleOf f = none) :
    (quotaProcessEvent t e).1.Ok ∧ (quotaProcessEvent t e).1.entry f = t.entry f := by
  unfold Event.sampleOf at h
  unfold quotaProcessEvent
  cases hsrc : quotaEventToSrc e.ct e.nowMs with
  | none => exact ⟨ht, rfl⟩
  | some sample =>
    dsimp only
    by_cases hscope : quotaDstIsInternet e.locals sample.flow.family sample.flow.dstAddr = true
    · rw [if_pos hscope]
      have hf : f ≠ sample.flow := by
        rintro rfl
        rw [hsrc, Option.filter_some, if_pos (by simp [hscope])] at h
        cases h
      cases hlook : quotaLookup t sample with
      | none => exact ⟨ht, rfl⟩
      | some r =>
        obtain ⟨t', i, old⟩ := r
        obtain ⟨ht', hi, hflow, -, hother⟩ := quotaLookup_spec ht hlook
        obtain ⟨hok, hentry⟩ := chargeEntry_spec ht' hi sample e.destroyed
        refine ⟨hok, ?_⟩
        dsimp only
        rw [hentry, hflow, if_neg hf, hother f hf]
    · rw [if_neg hscope]
      exact ⟨ht, rfl⟩

/-- An event of the flow reads its counters against the baselines of the entry. -/
theorem quotaProcessEvent_own (ht : t.Ok) {s : QuotaSrc}
    (h : e.sampleOf f = some s) (hroom : (quotaProcessEvent t e).2 ≠ .noEntry) (d : Direction) :
    (quotaProcessEvent t e).1.Ok ∧ (quotaProcessEvent t e).2.charge d =
        (advance ((t.entry f).bind d.counter) (d.counter s)).2 ∧
      ((quotaProcessEvent t e).1.entry f).bind d.counter = if e.destroyed then none
        else (advance ((t.entry f).bind d.counter) (d.counter s)).1 := by
  obtain ⟨hsrc, hscope⟩ := Option.filter_eq_some_iff.mp h
  rw [Bool.and_eq_true, decide_eq_true_eq] at hscope
  obtain ⟨hf, hscope⟩ := hscope
  unfold quotaProcessEvent at hroom ⊢
  rw [hsrc] at hroom ⊢
  dsimp only at hroom ⊢
  rw [if_pos hscope] at hroom ⊢
  cases hlook : quotaLookup t s with
  | none =>
    rw [hlook] at hroom
    exact absurd rfl hroom
  | some r =>
    obtain ⟨t', i, old⟩ := r
    obtain ⟨ht', hi, hflow, hold, -⟩ := quotaLookup_spec ht hlook
    obtain ⟨hok, hentry⟩ := chargeEntry_spec ht' hi s e.destroyed
    have hbase : advance (d.counter old) (d.counter s) =
        advance ((t.entry f).bind d.counter) (d.counter s) := by
      rw [hold, hf]
      cases t.entry f with
      | none => exact advance_self (d.counter s)
      | some x => rfl
    refine ⟨hok, ?_, ?_⟩
    · rw [← hbase]
      cases d <;> rfl
    · dsimp only
      rw [hentry, if_pos (hf.symm.trans hflow.symm), ← hbase]
      cases e.destroyed with
      | true => rfl
      | false => cases d <;> rfl

/-- In a run with room for every flow, the history of a flow follows its baseline. -/
theorem history_follows (ht : t.Ok) {es : List Event}
    (hroom : ∀ r ∈ quotaResults t es, r ≠ .noEntry) (d : Direction) (f : Flow) :
    Follows ((t.entry f).bind d.counter) (history d f t es) := by
  induction es generalizing t with
  | nil => trivial
  | cons e es ih =>
    have hroom' : ∀ r ∈ quotaResults (quotaProcessEvent t e).1 es, r ≠ .noEntry :=
      fun r hr => hroom r (mem_cons_of_mem _ hr)
    unfold history
    rw [quotaResults, zip_cons_cons]
    cases hs : e.sampleOf f with
    | none =>
      obtain ⟨hok, hentry⟩ := quotaProcessEvent_other ht hs
      rw [filterMap_cons_none (by rw [hs]; rfl), ← hentry]
      exact ih hok hroom'
    | some s =>
      obtain ⟨hok, hcharge, hentry⟩ := quotaProcessEvent_own ht hs (hroom _ mem_cons_self) d
      rw [filterMap_cons_some (by rw [hs]; rfl)]
      refine ⟨hcharge, ?_⟩
      rw [← hentry]
      exact ih hok hroom'

theorem history_reports (d : Direction) (f : Flow) (t : FlowTable) (es : List Event) :
    (history d f t es).map Prod.fst = reports d f es := by
  induction es generalizing t with
  | nil => rfl
  | cons e es ih =>
    have hrest := ih (quotaProcessEvent t e).1
    unfold history reports at hrest ⊢
    rw [quotaResults, zip_cons_cons]
    cases hs : e.sampleOf f with
    | none =>
      rw [filterMap_cons_none (by rw [hs]; rfl), filterMap_cons_none (by rw [hs]; rfl)]
      exact hrest
    | some s =>
      rw [filterMap_cons_some (by rw [hs]; rfl), filterMap_cons_some (by rw [hs]; rfl),
        map_cons, hrest]

/-! ### The run -/

/-- **A run charges every direction of every flow its last counter minus its first between two
    resets, iff every counter stands still until the last report of its stretch.** -/
theorem charged_exactly_iff (es : List Event)
    (hroom : ∀ r ∈ quotaResults .clear es, r ≠ .noEntry) :
    (∀ (d : Direction) (f : Flow), ChargedExactly (history d f .clear es)) ↔
      ∀ (d : Direction) (f : Flow), StillUntilLast (reports d f es) := by
  have hentry : ∀ f, FlowTable.clear.entry f = none := by
    intro f
    apply Option.eq_none_iff_forall_ne_some.mpr
    intro s hs
    obtain ⟨-, i, hi⟩ := (Probing.find_eq_some FlowTable.clear_ok.reachable).mp hs
    cases (mem_replicate.mp (mem_of_getElem? hi)).2
  apply forall₂_congr
  intro d f
  have hfollows := history_follows FlowTable.clear_ok hroom d f
  rw [hentry] at hfollows
  rw [charged_iff_of_follows hfollows, history_reports]

/-- A report of an established flow from 192.168.1.7 to 8.8.8.8. -/
def movingReport (up down : ℕ) : Event where
  ct :=
    { origL3Proto := some AF_INET
      origL4Proto := some 6
      origIpv4Src := some [192, 168, 1, 7]
      origIpv4Dst := some [8, 8, 8, 8]
      origPortSrc := some 40000
      origPortDst := some 443
      origCounterBytes := some up
      replCounterBytes := some down }
  destroyed := false
  locals := []
  nowMs := 0

def movingFlow : Flow where
  family := AF_INET
  protocol := 6
  srcAddr := [192, 168, 1, 7]
  dstAddr := [8, 8, 8, 8]
  srcPort := 40000
  dstPort := 443

/-- Counters 100, 200 and 300 are charged 100 and then 200 bytes. -/
theorem moving_flow :
    let es := [movingReport 100 0, movingReport 200 0, movingReport 300 0]
    (∀ r ∈ quotaResults .clear es, r ≠ .noEntry) ∧
      (history .up movingFlow .clear es).map Prod.snd = [0, 100, 200] ∧
      ¬ ChargedExactly (history .up movingFlow .clear es) := by
  decide +kernel

/-- A flow that moves its bytes before its last report only. -/
theorem charged_exactly_iff_still :
    let es := [movingReport 100 0, movingReport 100 0, movingReport 300 0]
    (∀ r ∈ quotaResults .clear es, r ≠ .noEntry) ∧
      ((∀ (d : Direction) (f : Flow), ChargedExactly (history d f .clear es)) ↔
        ∀ (d : Direction) (f : Flow), StillUntilLast (reports d f es)) :=
  have hroom : ∀ r ∈ quotaResults .clear
      [movingReport 100 0, movingReport 100 0, movingReport 300 0], r ≠ .noEntry := by
    decide +kernel
  ⟨hroom, charged_exactly_iff _ hroom⟩

end DreamingOS.Quota
