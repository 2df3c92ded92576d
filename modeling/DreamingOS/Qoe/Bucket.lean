import Mathlib.Tactic.Linarith
import Mathlib.Data.List.Pairwise

namespace DreamingOS.Qoe

open List

/-!
# QoE probes — the token bucket

* `Bucket`, `Bucket.refill`, `Bucket.step` — the bucket of the probes, in the types of the source;
* `Ideal` — tokens that accrue in proportion to the time, up to a cap;
* `step_ideal` — **the code is the ideal bucket**, and nothing wraps;
* `Ideal.grants_le`, `Ideal.run_extra` — how many takes are granted, and that a query changes no
  later answer;
* `bucket_exact` — the two together, over every run from a new bucket.
-/

/-! ### The source -/

/-- `struct flowd_qoe_token_bucket`. -/
structure Bucket where
  (ratePerS burst : UInt32)
  (tokensMilli lastRefillMs : UInt64)
  accepted : UInt64 := 0
  rejected : UInt64 := 0

/-- `flowd_qoe_token_bucket_init`. -/
def Bucket.init (ratePerS burst : UInt32) (nowMs : UInt64) : Bucket where
  ratePerS := ratePerS
  burst := burst
  tokensMilli := burst.toUInt64 * 1000
  lastRefillMs := nowMs

def Bucket.cap (b : Bucket) : UInt64 := b.burst.toUInt64 * 1000

/-- What `qoe_token_bucket_refill` adds for the time that went by. -/
def Bucket.accrued (b : Bucket) (nowMs : UInt64) : UInt64 :=
  let elapsed := nowMs - b.lastRefillMs
  if elapsed > b.cap / b.ratePerS.toUInt64 then b.cap else elapsed * b.ratePerS.toUInt64

/-- `qoe_token_bucket_refill`. -/
def Bucket.refill (b : Bucket) (nowMs : UInt64) : Bucket :=
  if b.ratePerS = 0 ∨ b.burst = 0 ∨ nowMs ≤ b.lastRefillMs then b
  else
    { b with
      tokensMilli :=
        if b.accrued nowMs ≥ b.cap - b.tokensMilli then b.cap
        else b.tokensMilli + b.accrued nowMs
      lastRefillMs := nowMs }

/-- `flowd_qoe_token_bucket_take`. -/
def Bucket.take (b : Bucket) (nowMs : UInt64) : Bucket × Bool :=
  if b.ratePerS = 0 ∨ b.burst = 0 then (b, false)
  else
    let b := b.refill nowMs
    if b.tokensMilli < 1000 then ({ b with rejected := b.rejected + 1 }, false)
    else ({ b with tokensMilli := b.tokensMilli - 1000, accepted := b.accepted + 1 }, true)

/-- `flowd_qoe_token_bucket_available`. -/
def Bucket.available (b : Bucket) (nowMs : UInt64) : Bucket × UInt32 :=
  let b := b.refill nowMs
  (b, (b.tokensMilli / 1000).toUInt32)

inductive Call where
  | take (nowMs : UInt64)
  | available (nowMs : UInt64)

def Call.now : Call → ℕ
  | .take nowMs => nowMs.toNat
  | .available nowMs => nowMs.toNat

inductive Answer where
  | granted
  | refused
  | tokens (n : UInt32)
deriving DecidableEq

def Bucket.step (b : Bucket) : Call → Bucket × Answer
  | .take nowMs =>
    let r := b.take nowMs
    (r.1, if r.2 then .granted else .refused)
  | .available nowMs =>
    let r := b.available nowMs
    (r.1, .tokens r.2)

/-- The bucket after some calls, and their answers. -/
def runCalls {σ : Type} (step : σ → Call → σ × Answer) (b : σ) : List Call → σ × List Answer
  | [] => (b, [])
  | c :: cs =>
    let r := step b c
    let rest := runCalls step r.1 cs
    (rest.1, r.2 :: rest.2)

/-! ### The ideal bucket -/

/-- Thousandths of a token, and the time up to which they have accrued. -/
structure Ideal where
  (tokens last : ℕ)

variable {rate cap : ℕ}

/-- A clock that steps back adds nothing. -/
def Ideal.accrue (rate cap : ℕ) (i : Ideal) (now : ℕ) : Ideal :=
  ⟨min cap (i.tokens + rate * (now - i.last)), max i.last now⟩

def Ideal.step (rate cap : ℕ) (i : Ideal) (c : Call) : Ideal × Answer :=
  let i := i.accrue rate cap c.now
  match c with
  | .take _ =>
    if i.tokens < 1000 then (i, .refused) else ({ i with tokens := i.tokens - 1000 }, .granted)
  | .available _ => (i, .tokens (UInt32.ofNat (i.tokens / 1000)))

theorem Ideal.tokens_accrue_le (i : Ideal) (now : ℕ) : (i.accrue rate cap now).tokens ≤ cap :=
  Nat.min_le_left _ _

theorem Ideal.tokens_step_le (i : Ideal) (c : Call) : (i.step rate cap c).1.tokens ≤ cap := by
  have hle := @tokens_accrue_le rate cap i c.now
  unfold Ideal.step
  cases c with
  | take nowMs =>
    dsimp only at hle ⊢
    split
    · exact hle
    · exact Nat.le_trans (Nat.sub_le _ _) hle
  | available nowMs => exact hle

/-- **Accruing in pieces is accruing at once.** -/
theorem Ideal.accrue_accrue {i : Ideal} (hcap : i.tokens ≤ cap) {t now : ℕ}
    (h : t ≤ now ∨ t ≤ i.last) :
    (i.accrue rate cap t).accrue rate cap now = i.accrue rate cap now := by
  unfold Ideal.accrue
  rcases Nat.lt_or_ge i.last t with hlast | hlast
  · have hnow : t ≤ now := h.resolve_right (Nat.not_le.mpr hlast)
    have hsplit : rate * (now - i.last) = rate * (t - i.last) + rate * (now - t) := by
      rw [← Nat.mul_add, show now - i.last = t - i.last + (now - t) by omega]
    have hlast := Nat.le_of_lt hlast
    rw [Nat.max_eq_right hlast, hsplit, Nat.max_eq_right hnow,
      Nat.max_eq_right (Nat.le_trans hlast hnow)]
    refine congrArg (Ideal.mk · now) ?_
    show min cap (min cap _ + rate * (now - t)) = _
    omega
  · -- nothing accrues before `last`
    rw [Nat.sub_eq_zero_of_le hlast, Nat.mul_zero, Nat.add_zero, Nat.min_eq_right hcap,
      Nat.max_eq_left hlast]

/-- A query, or a take that is refused, is no more than a refill. -/
theorem Ideal.step_quiet {i : Ideal} {c : Call} (h : (i.step rate cap c).2 ≠ .granted) :
    (i.step rate cap c).1 = i.accrue rate cap c.now := by
  unfold Ideal.step at h ⊢
  cases c with
  | available nowMs => rfl
  | take nowMs =>
    dsimp only at h ⊢
    split
    · rfl
    rename_i henough
    rw [if_neg henough] at h
    exact absurd rfl h

/-- **A query changes no later answer.** -/
theorem Ideal.run_extra {i : Ideal} (hcap : i.tokens ≤ cap) {extra next : Call} (rest : List Call)
    (hquiet : (i.step rate cap extra).2 ≠ .granted)
    (hbetween : extra.now ≤ next.now ∨ extra.now ≤ i.last) :
    runCalls (Ideal.step rate cap) (i.step rate cap extra).1 (next :: rest) =
      runCalls (Ideal.step rate cap) i (next :: rest) := by
  have hstep : (i.step rate cap extra).1.step rate cap next = i.step rate cap next := by
    rw [step_quiet hquiet]
    unfold Ideal.step
    rw [accrue_accrue hcap hbetween]
  simp only [runCalls, hstep]

def grants (answers : List Answer) : ℕ := answers.count .granted

/-- What one step grants is paid for. -/
theorem Ideal.step_pays (i : Ideal) (c : Call) :
    (i.step rate cap c).1.tokens + 1000 * grants [(i.step rate cap c).2] =
        (i.accrue rate cap c.now).tokens ∧
      (i.step rate cap c).1.last = max i.last c.now := by
  unfold Ideal.step
  cases c with
  | available nowMs => exact ⟨rfl, rfl⟩
  | take nowMs =>
    dsimp only
    split
    · exact ⟨rfl, rfl⟩
    rename_i henough
    refine ⟨?_, rfl⟩
    show _ - 1000 + 1000 * 1 = _
    omega

/-- **The rate.**  From the first call on, what is granted was there or has accrued. -/
theorem Ideal.grants_le {i : Ideal} {calls : List Call} {start stop : ℕ}
    (hstart : ∀ c ∈ calls, start ≤ c.now) (hsorted : calls.Pairwise fun c d => c.now ≤ d.now)
    (hstop : ∀ c ∈ calls, c.now ≤ stop) (hle : start ≤ stop) :
    1000 * grants (runCalls (Ideal.step rate cap) i calls).2 ≤
      (i.accrue rate cap start).tokens + rate * (stop - start) := by
  induction calls generalizing i start with
  | nil => exact Nat.zero_le _
  | cons c calls ih =>
    obtain ⟨hfirst, hsorted⟩ := pairwise_cons.mp hsorted
    have hc := hstart c mem_cons_self
    have hcs := hstop c mem_cons_self
    obtain ⟨hpays, hlast⟩ := @step_pays rate cap i c
    have hrest := @ih (i.step rate cap c).1 c.now hfirst hsorted
      (fun d hd => hstop d (mem_cons_of_mem _ hd)) hcs
    -- the time of the call is accounted for, so that nothing accrues a second time
    have hsame : ((i.step rate cap c).1.accrue rate cap c.now).tokens =
        (i.step rate cap c).1.tokens := by
      show min cap _ = _
      rw [hlast, Nat.sub_eq_zero_of_le (Nat.le_max_right _ _), Nat.mul_zero, Nat.add_zero]
      exact Nat.min_eq_right (i.tokens_step_le c)
    have hadds : (i.accrue rate cap c.now).tokens ≤
        (i.accrue rate cap start).tokens + rate * (c.now - start) := by
      show min cap _ ≤ min cap _ + _
      have hmono : rate * (c.now - i.last) ≤ rate * (start - i.last) + rate * (c.now - start) := by
        rw [← Nat.mul_add]
        exact Nat.mul_le_mul_left _ (by omega)
      omega
    have htime : rate * (stop - start) = rate * (c.now - start) + rate * (stop - c.now) := by
      rw [← Nat.mul_add, show stop - start = c.now - start + (stop - c.now) by omega]
    have hcount : grants (runCalls (Ideal.step rate cap) i (c :: calls)).2 =
        grants [(i.step rate cap c).2] +
          grants (runCalls (Ideal.step rate cap) (i.step rate cap c).1 calls).2 := by
      show List.count _ ([_] ++ _) = _
      exact count_append
    omega

/-! ### The code is the ideal bucket -/

/-- What the ideal bucket keeps of the code's. -/
def Bucket.ideal (b : Bucket) : Ideal := ⟨b.tokensMilli.toNat, b.lastRefillMs.toNat⟩

/-- No operation of a refill wraps. -/
structure NoWrap (b : Bucket) (nowMs : UInt64) : Prop where
  cap : b.cap.toNat = b.burst.toNat * 1000
  room : (b.cap - b.tokensMilli).toNat = b.cap.toNat - b.tokensMilli.toNat ∧
    b.tokensMilli.toNat ≤ b.cap.toNat
  elapsed : b.lastRefillMs < nowMs →
    (nowMs - b.lastRefillMs).toNat + b.lastRefillMs.toNat = nowMs.toNat
  product : nowMs - b.lastRefillMs ≤ b.cap / b.ratePerS.toUInt64 →
    ((nowMs - b.lastRefillMs) * b.ratePerS.toUInt64).toNat =
      (nowMs - b.lastRefillMs).toNat * b.ratePerS.toNat
  sum : b.accrued nowMs < b.cap - b.tokensMilli →
    (b.tokensMilli + b.accrued nowMs).toNat = b.tokensMilli.toNat + (b.accrued nowMs).toNat

/-- A bucket of some rate and burst, no fuller than it may be. -/
structure Bucket.Ok (ratePerS burst : UInt32) (b : Bucket) : Prop where
  rate_eq : b.ratePerS = ratePerS
  burst_eq : b.burst = burst
  tokens_le : b.tokensMilli.toNat ≤ burst.toNat * 1000

variable {ratePerS burst : UInt32} {b : Bucket}

theorem Bucket.toNat_cap (b : Bucket) : b.cap.toNat = b.burst.toNat * 1000 := by
  have hlt := b.burst.toNat_lt
  rw [cap, UInt64.toNat_mul, UInt32.toNat_toUInt64]
  exact Nat.mod_eq_of_lt (by show _ * 1000 < _; omega)

theorem Bucket.Ok.noWrap (h : b.Ok ratePerS burst) (nowMs : UInt64) : NoWrap b nowMs := by
  have hcap := b.toNat_cap
  have hburst := b.burst.toNat_lt
  have hle : b.tokensMilli.toNat ≤ b.cap.toNat := by
    rw [hcap, h.burst_eq]
    exact h.tokens_le
  have hroom := UInt64.toNat_sub_of_le _ _ (UInt64.le_iff_toNat_le.mpr hle)
  refine ⟨hcap, ⟨hroom, hle⟩, fun hlt => ?_, fun hfew => ?_, fun hfits => ?_⟩
  · have hlast := UInt64.lt_iff_toNat_lt.mp hlt
    rw [UInt64.toNat_sub_of_le _ _ (UInt64.le_of_lt hlt)]
    omega
  · have hmul := UInt64.le_iff_toNat_le.mp hfew
    rw [UInt64.toNat_div, UInt32.toNat_toUInt64] at hmul
    have hprod := Nat.le_trans (Nat.mul_le_mul_right b.ratePerS.toNat hmul) (Nat.div_mul_le_self _ _)
    rw [UInt64.toNat_mul, UInt32.toNat_toUInt64]
    exact Nat.mod_eq_of_lt (by omega)
  · have hsum := UInt64.lt_iff_toNat_lt.mp hfits
    rw [UInt64.toNat_add]
    exact Nat.mod_eq_of_lt (by omega)

/-- **A refill accrues.** -/
theorem Bucket.Ok.refill_ideal (hrate : ratePerS ≠ 0) (hburst : burst ≠ 0) (h : b.Ok ratePerS burst)
    (nowMs : UInt64) :
    (b.refill nowMs).ideal = b.ideal.accrue ratePerS.toNat (burst.toNat * 1000) nowMs.toNat ∧
      (b.refill nowMs).Ok ratePerS burst := by
  have hw := h.noWrap nowMs
  have hcap := hw.cap
  rw [h.burst_eq] at hcap
  have htokens := h.tokens_le
  unfold refill Ideal.accrue ideal
  by_cases hlate : nowMs ≤ b.lastRefillMs
  · have hlast := UInt64.le_iff_toNat_le.mp hlate
    rw [if_pos (.inr (.inr hlate)), Nat.sub_eq_zero_of_le hlast, Nat.mul_zero, Nat.add_zero,
      Nat.min_eq_right h.tokens_le, Nat.max_eq_left hlast]
    exact ⟨rfl, h⟩
  · have hlast := UInt64.not_le.mp hlate
    have helapsed := hw.elapsed hlast
    have haccrued : b.cap.toNat ≤ ratePerS.toNat * (nowMs.toNat - b.lastRefillMs.toNat) ∧
          b.accrued nowMs = b.cap ∨
        (b.accrued nowMs).toNat = ratePerS.toNat * (nowMs.toNat - b.lastRefillMs.toNat) := by
      unfold accrued
      dsimp only
      rw [← helapsed, Nat.add_sub_cancel, Nat.mul_comm]
      split
      · next hlong =>
        have hdiv := UInt64.lt_iff_toNat_lt.mp hlong
        rw [UInt64.toNat_div, UInt32.toNat_toUInt64, h.rate_eq] at hdiv
        have hpos : 0 < ratePerS.toNat :=
          Nat.pos_of_ne_zero fun hzero => hrate (UInt32.toNat_inj.mp hzero)
        exact .inl ⟨Nat.le_of_lt ((Nat.div_lt_iff_lt_mul hpos).mp hdiv), rfl⟩
      · next hshort =>
        rw [hw.product (UInt64.not_lt.mp hshort), h.rate_eq]
        exact .inr rfl
    have hnew : (if b.accrued nowMs ≥ b.cap - b.tokensMilli then b.cap
        else b.tokensMilli + b.accrued nowMs).toNat = min (burst.toNat * 1000)
          (b.tokensMilli.toNat + ratePerS.toNat * (nowMs.toNat - b.lastRefillMs.toNat)) := by
      have hroom := hw.room
      split
      · next hfull =>
        have hge := UInt64.le_iff_toNat_le.mp hfull
        rcases haccrued with ⟨hle, -⟩ | haccrued <;> omega
      · next hfits =>
        have hlt := UInt64.lt_iff_toNat_lt.mp (UInt64.not_le.mp hfits)
        rw [hw.sum (UInt64.not_le.mp hfits)]
        rcases haccrued with ⟨-, hcapped⟩ | haccrued
        · rw [hcapped] at hlt
          omega
        · omega
    rw [if_neg (by rw [h.rate_eq, h.burst_eq]; simp [hrate, hburst, hlate]), ← hnew,
      Nat.max_eq_right (Nat.le_of_lt (UInt64.lt_iff_toNat_lt.mp hlast))]
    exact ⟨rfl, h.rate_eq, h.burst_eq, by rw [hnew]; exact Nat.min_le_left _ _⟩

/-- **A step of the code is one of the ideal bucket.** -/
theorem Bucket.Ok.step_ideal (hrate : ratePerS ≠ 0) (hburst : burst ≠ 0) (h : b.Ok ratePerS burst)
    (c : Call) :
    ((b.step c).1.ideal, (b.step c).2) = b.ideal.step ratePerS.toNat (burst.toNat * 1000) c ∧
      (b.step c).1.Ok ratePerS burst := by
  cases c with
  | available nowMs =>
    obtain ⟨hideal, hok⟩ := h.refill_ideal hrate hburst nowMs
    refine ⟨?_, hok⟩
    unfold Ideal.step
    rw [Call.now, ← hideal]
    refine Prod.ext rfl (congrArg Answer.tokens ?_)
    show ((b.refill nowMs).tokensMilli / 1000).toUInt32 = _
    rw [← UInt32.toNat_inj, UInt64.toNat_toUInt32, UInt64.toNat_div, UInt32.toNat_ofNat']
    rfl
  | take nowMs =>
    obtain ⟨hideal, hok⟩ := h.refill_ideal hrate hburst nowMs
    unfold step take Ideal.step
    dsimp only
    rw [if_neg (by rw [h.rate_eq, h.burst_eq]; simp [hrate, hburst]), Call.now, ← hideal]
    have hfew : (b.refill nowMs).tokensMilli < 1000 ↔ (b.refill nowMs).ideal.tokens < 1000 :=
      UInt64.lt_iff_toNat_lt
    by_cases hlt : (b.refill nowMs).tokensMilli < 1000
    · rw [if_pos hlt, if_pos (hfew.mp hlt)]
      exact ⟨rfl, hok.rate_eq, hok.burst_eq, hok.tokens_le⟩
    have hsub := UInt64.toNat_sub_of_le _ _ (UInt64.not_lt.mp hlt)
    rw [if_neg hlt, if_neg fun h => hlt (hfew.mpr h)]
    refine ⟨Prod.ext (congrArg (Ideal.mk · _) hsub) rfl, hok.rate_eq, hok.burst_eq, ?_⟩
    exact Nat.le_trans (Nat.le_of_eq hsub) (Nat.le_trans (Nat.sub_le _ _) hok.tokens_le)

theorem Bucket.Ok.run_ideal (hrate : ratePerS ≠ 0) (hburst : burst ≠ 0) (h : b.Ok ratePerS burst)
    (calls : List Call) :
    ((runCalls step b calls).1.ideal, (runCalls step b calls).2) =
        runCalls (Ideal.step ratePerS.toNat (burst.toNat * 1000)) b.ideal calls ∧
      (runCalls step b calls).1.Ok ratePerS burst := by
  induction calls generalizing b with
  | nil => exact ⟨rfl, h⟩
  | cons c calls ih =>
    obtain ⟨hstep, hok⟩ := h.step_ideal hrate hburst c
    obtain ⟨hrun, hend⟩ := ih hok
    refine ⟨?_, hend⟩
    show ((runCalls step (b.step c).1 calls).1.ideal, (b.step c).2 :: _) = _
    rw [runCalls, ← hstep, ← hrun]

theorem Ideal.last_le_run (i : Ideal) (calls : List Call) :
    i.last ≤ (runCalls (step rate cap) i calls).1.last ∧
      ∀ c ∈ calls, c.now ≤ (runCalls (step rate cap) i calls).1.last := by
  induction calls generalizing i with
  | nil => exact ⟨Nat.le_refl _, nofun⟩
  | cons c calls ih =>
    obtain ⟨hlast, hall⟩ := ih (i.step rate cap c).1
    rw [(i.step_pays c).2] at hlast
    refine ⟨Nat.le_trans (Nat.le_max_left _ _) hlast, fun d hd => ?_⟩
    rcases mem_cons.mp hd with rfl | hd
    · exact Nat.le_trans (Nat.le_max_right _ _) hlast
    · exact hall d hd

/-! ### Every run -/

/-- What a bucket of `rate` and `burst` keeps to, made at a time: `nowrap`, it is never fuller than
    its burst and a refill is exact; `rate`, what a stretch of calls between two times is granted;
    `ideal`, every answer is the ideal bucket's; `extra`, a query or a refused take changes no
    answer behind it, at a time up to that of the next call or of one before it. -/
structure Exact (ratePerS burst : UInt32) (madeMs : UInt64) : Prop where
  nowrap : ∀ calls nowMs, let b := (runCalls Bucket.step (.init ratePerS burst madeMs) calls).1
    b.tokensMilli.toNat ≤ burst.toNat * 1000 ∧ NoWrap b nowMs
  rate : ∀ (before stretch : List Call) (start stop : ℕ), start ≤ stop →
    (∀ c ∈ stretch, start ≤ c.now ∧ c.now ≤ stop) →
    stretch.Pairwise (fun c d => c.now ≤ d.now) →
    grants (runCalls Bucket.step
        (runCalls Bucket.step (.init ratePerS burst madeMs) before).1 stretch).2 ≤
      burst.toNat + ratePerS.toNat * (stop - start) / 1000
  ideal : ∀ calls, (runCalls Bucket.step (.init ratePerS burst madeMs) calls).2 =
    (runCalls (Ideal.step ratePerS.toNat (burst.toNat * 1000))
      ⟨burst.toNat * 1000, madeMs.toNat⟩ calls).2
  extra : ∀ (before rest : List Call) (extra next : Call),
    let b := (runCalls Bucket.step (.init ratePerS burst madeMs) before).1
    (b.step extra).2 ≠ .granted →
    (extra.now ≤ next.now ∨ extra.now ≤ madeMs.toNat ∨ ∃ c ∈ before, extra.now ≤ c.now) →
    (runCalls Bucket.step (b.step extra).1 (next :: rest)).2 =
      (runCalls Bucket.step b (next :: rest)).2

/-- **The bucket enforces its rate exactly**, whatever the clock does. -/
theorem bucket_exact (hrate : ratePerS ≠ 0) (hburst : burst ≠ 0) (madeMs : UInt64) :
    Exact ratePerS burst madeMs := by
  have hinit : (Bucket.init ratePerS burst madeMs).ideal = ⟨burst.toNat * 1000, madeMs.toNat⟩ :=
    congrArg (Ideal.mk · _) (Bucket.init ratePerS burst madeMs).toNat_cap
  have hok : (Bucket.init ratePerS burst madeMs).Ok ratePerS burst :=
    ⟨rfl, rfl, Nat.le_of_eq (congrArg Ideal.tokens hinit)⟩
  constructor
  · intro calls nowMs
    obtain ⟨-, hend⟩ := hok.run_ideal hrate hburst calls
    exact ⟨hend.tokens_le, hend.noWrap nowMs⟩
  · intro before stretch start stop hle htimes hsorted
    obtain ⟨-, hend⟩ := hok.run_ideal hrate hburst before
    have hrun := congrArg Prod.snd (hend.run_ideal hrate hburst stretch).1
    dsimp only at hrun
    rw [hrun]
    have hgrants := @Ideal.grants_le ratePerS.toNat (burst.toNat * 1000)
      (runCalls Bucket.step (.init ratePerS burst madeMs) before).1.ideal _ _ _
      (fun c hc => (htimes c hc).1) hsorted (fun c hc => (htimes c hc).2) hle
    have hcap := @Ideal.tokens_accrue_le ratePerS.toNat (burst.toNat * 1000)
      (runCalls Bucket.step (.init ratePerS burst madeMs) before).1.ideal start
    omega
  · intro calls
    rw [← hinit]
    exact congrArg Prod.snd (hok.run_ideal hrate hburst calls).1
  · intro before rest extra next b hquiet hbetween
    obtain ⟨hbefore, hend⟩ := hok.run_ideal hrate hburst before
    obtain ⟨hextra, hafter⟩ := hend.step_ideal hrate hburst extra
    have hlast : extra.now ≤ next.now ∨ extra.now ≤ b.ideal.last := by
      obtain ⟨hmade, hcalls⟩ := @Ideal.last_le_run ratePerS.toNat (burst.toNat * 1000)
        (Bucket.init ratePerS burst madeMs).ideal before
      rw [← hbefore] at hmade hcalls
      rcases hbetween with h | h | ⟨c, hc, h⟩
      · exact .inl h
      · exact .inr (Nat.le_trans h hmade)
      · exact .inr (Nat.le_trans h (hcalls c hc))
    have hsame := @Ideal.run_extra ratePerS.toNat _ b.ideal hend.tokens_le extra next rest
      (by rw [← hextra]; exact hquiet) hlast
    rw [← hextra] at hsame
    rw [congrArg Prod.snd (hafter.run_ideal hrate hburst (next :: rest)).1,
      congrArg Prod.snd (hend.run_ideal hrate hburst (next :: rest)).1, hsame]

theorem bucket_exact_default : Exact 20 40 0 := bucket_exact (by decide) (by decide) 0

end DreamingOS.Qoe
