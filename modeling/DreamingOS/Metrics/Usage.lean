import DreamingOS.Metrics.CounterRun

namespace DreamingOS.Metrics

/-!
# Metrics — what the queries of a run report

* `Exact` — the totals are those of the readings, and the usage of a period that is cut in two adds
  up;
* `Settled` — a row that a period may end with;
* `usageQuery_rows` — the usage between two rows;
* `usage_run` — **what holds in a run whose observations meet the condition**;
* `queries_take_slots` — queries for other WANs keep one from being counted.
-/

open Metering List Option

attribute [local instance] intOrder

variable {id : WanId} {now : ℤ} {s : State} {b : Book} {r r' : Checkpoint}

/-- The usage that is reported of the two parts of a period adds up to that of the whole. -/
def Additive (s : State) (id : WanId) (first middle last : ℤ) : Prop :=
  ∃ u v w, (usageQuery s id first middle).2 = some u ∧ (usageQuery s id middle last).2 = some v ∧
    (usageQuery s id first last).2 = some w ∧ w.downBytes = u.downBytes + v.downBytes ∧
    w.upBytes = u.upBytes + v.upBytes

/-- The totals of a WAN that this process has seen online are those of its readings, and usage adds
    up between the rows that satisfy a condition. -/
structure Exact (Ok : State → Book → Checkpoint → Prop) (s : State) (b : Book) : Prop where
  counted : ∀ id, b.current id = true →
    ∃ c, s.counters.find? (fun c => c.wanId = id) = some c ∧ c.Knows (b.seen id)
  additive : ∀ first ∈ s.checkpoints.rows, ∀ middle ∈ s.checkpoints.rows,
    ∀ last ∈ s.checkpoints.rows, ∀ id ∉ [[], GLOBAL, ALL_WANS, STAR], first.wanId = id →
    middle.wanId = id → last.wanId = id → first.bucketTs < middle.bucketTs →
    middle.bucketTs < last.bucketTs → Ok s b middle → Ok s b last →
    Additive s id first.bucketTs middle.bucketTs last.bucketTs

/-- **The condition on a period**: a counter that has not been seen since the row that the period
    ends with has the totals of this row; and what has been counted fits in a signed number. -/
structure Settled (s : State) (b : Book) (r : Checkpoint) : Prop where
  same : ∀ c, s.counters.find? (fun c => c.wanId = r.wanId) = some c → 0 < c.lastTs →
    c.lastTs ≤ r.bucketTs → c.totalRx = r.totalRx ∧ c.totalTx = r.totalTx
  fits : counted ((b.seen r.wanId).map Prod.fst) < 2 ^ 63 ∧
    counted ((b.seen r.wanId).map Prod.snd) < 2 ^ 63

/-! ### Rows -/

theorem signed_ofNat {n : ℕ} (h : n < 2 ^ 63) : signed (UInt64.ofNat n) = n := by
  unfold signed
  show (BitVec.ofNat 64 n).toInt = n
  rw [BitVec.toInt_eq_toNat_of_lt]
  · rw [BitVec.toNat_ofNat, Nat.mod_eq_of_lt (by omega)]
  · rw [BitVec.toNat_ofNat, Nat.mod_eq_of_lt (by omega)]
    omega

theorem counted_suffix {xs ys : List UInt64} (h : xs <:+ ys) : counted xs ≤ counted ys := by
  obtain ⟨newer, rfl⟩ := h
  unfold counted
  cases xs with
  | nil => exact Nat.zero_le _
  | cons x xs =>
    rw [map_append, map_cons]
    exact total_mono ..

/-- The totals of a row, as the query has them. -/
theorem signed_row (h : Inv s b now) (hr : r ∈ s.checkpoints.rows)
    (hfits : counted ((b.seen r.wanId).map Prod.fst) < 2 ^ 63 ∧
      counted ((b.seen r.wanId).map Prod.snd) < 2 ^ 63) :
    signed r.totalRx = counted ((b.row r.key).map Prod.fst) ∧
      signed r.totalTx = counted ((b.row r.key).map Prod.snd) := by
  obtain ⟨-, -, -, ⟨⟨-, hrx⟩, -, htx⟩, hsuffix⟩ := h.rows r hr
  rw [hrx, htx]
  exact ⟨signed_ofNat ((counted_suffix (hsuffix.map _)).trans_lt hfits.1),
    signed_ofNat ((counted_suffix (hsuffix.map _)).trans_lt hfits.2)⟩

/-- Totals grow from row to row. -/
theorem signed_row_le (h : Inv s b now) (hr : r ∈ s.checkpoints.rows)
    (hr' : r' ∈ s.checkpoints.rows) (hid : r.wanId = r'.wanId) (hle : r.bucketTs ≤ r'.bucketTs)
    (hfits : counted ((b.seen r.wanId).map Prod.fst) < 2 ^ 63 ∧
      counted ((b.seen r.wanId).map Prod.snd) < 2 ^ 63) :
    signed r.totalRx ≤ signed r'.totalRx ∧ signed r.totalTx ≤ signed r'.totalTx := by
  obtain ⟨hrx, htx⟩ := signed_row h hr hfits
  obtain ⟨hrx', htx'⟩ := signed_row h hr' (hid ▸ hfits)
  have hsuffix := h.ordered r hr r' hr' hid hle
  rw [hrx, htx, hrx', htx']
  exact ⟨Int.ofNat_le.mpr (counted_suffix (hsuffix.map _)),
    Int.ofNat_le.mpr (counted_suffix (hsuffix.map _))⟩

/-- The last row up to the time of a row is this row. -/
theorem last_row (hr : r ∈ s.checkpoints.rows) :
    (s.checkpoints.rows.filter fun x => x.wanId = r.wanId ∧ x.bucketTs ≤ r.bucketTs).argmax
      Checkpoint.bucketTs = some r := by
  have hmem : r ∈ s.checkpoints.rows.filter
      fun x => x.wanId = r.wanId ∧ x.bucketTs ≤ r.bucketTs := by
    rw [mem_filter]
    exact ⟨hr, by simp⟩
  cases hmax : (s.checkpoints.rows.filter
      fun x => x.wanId = r.wanId ∧ x.bucketTs ≤ r.bucketTs).argmax Checkpoint.bucketTs with
  | none =>
    rw [argmax_eq_none.mp hmax] at hmem
    cases hmem
  | some m =>
    have hm := argmax_mem (mem_def.mpr hmax)
    have hle := le_of_mem_argmax hmem (mem_def.mpr hmax)
    rw [mem_filter] at hm
    obtain ⟨hrow, hcond⟩ := hm
    simp only [decide_eq_true_eq] at hcond
    have hkey : m.key = r.key := by
      unfold Checkpoint.key
      rw [hcond.1, show m.bucketTs = r.bucketTs by omega]
    rw [inj_on_of_nodup_map s.checkpoints.nodup hrow hr hkey]

/-! ### Slots that are taken -/

theorem takeSlot_checkpoints : (takeSlot s id).checkpoints = s.checkpoints := by
  unfold takeSlot
  split <;> rfl

/-- A slot that is taken for a query has not been seen. -/
theorem takeSlot_find {c : Counter}
    (h : (takeSlot s id).counters.find? (fun c => c.wanId = id) = some c) :
    s.counters.find? (fun c => c.wanId = id) = some c ∨ c.lastTs = 0 := by
  unfold takeSlot at h
  cases hslot : counterFor s.counters id with
  | none =>
    rw [hslot] at h
    exact .inl h
  | some slot =>
    obtain ⟨i, counters⟩ := slot
    rw [hslot] at h
    dsimp only at h
    obtain ⟨before, x, after, rfl, -, -, ⟨heq, -⟩ | ⟨heq, rfl, rfl, -⟩⟩ := counterFor_split hslot
    · rw [← heq] at h
      exact .inl h
    · rw [find?_append] at h
      cases hfind : before.find? fun c => c.wanId = id with
      | some c' =>
        rw [hfind, some_or] at h
        rw [heq, hfind]
        exact .inl h
      | none =>
        rw [hfind, none_or] at h
        obtain rfl := mem_singleton.mp (mem_of_find?_eq_some h)
        exact .inr rfl

/-- **A period that ends with a settled row** ends with its totals. -/
theorem periodEnd_row (hr : r ∈ s.checkpoints.rows) (hsettled : Settled s b r) :
    (periodEnd (takeSlot s r.wanId) r.wanId r.bucketTs).1 = signed r.totalRx ∧
      (periodEnd (takeSlot s r.wanId) r.wanId r.bucketTs).2.1 = signed r.totalTx := by
  unfold periodEnd
  rw [takeSlot_checkpoints, last_row hr]
  dsimp only
  cases hfind : (takeSlot s r.wanId).counters.find? fun c => c.wanId = r.wanId with
  | none => exact ⟨rfl, rfl⟩
  | some c =>
    dsimp only
    split
    · next hseen =>
      obtain hc | hzero := takeSlot_find hfind
      · obtain ⟨hrx, htx⟩ := hsettled.same c hc hseen.1 hseen.2
        rw [hrx, htx]
        exact ⟨rfl, rfl⟩
      · rw [hzero] at hseen
        exact absurd hseen.1 (Int.lt_irrefl 0)
    · exact ⟨rfl, rfl⟩

/-- **The usage between two rows** is the difference of their totals. -/
theorem usageQuery_rows (h : Inv s b now) (hr : r ∈ s.checkpoints.rows)
    (hr' : r' ∈ s.checkpoints.rows) (hid : r.wanId = r'.wanId)
    (hnamed : r'.wanId ∉ [[], GLOBAL, ALL_WANS, STAR]) (hlt : r.bucketTs < r'.bucketTs)
    (hsettled : Settled s b r') :
    ∃ u, (usageQuery s r'.wanId r.bucketTs r'.bucketTs).2 = some u ∧
      u.downBytes = signed r'.totalRx - signed r.totalRx ∧
      u.upBytes = signed r'.totalTx - signed r.totalTx := by
  have hpos := (h.rows r hr).1
  obtain ⟨herx, hetx⟩ := periodEnd_row hr' hsettled
  obtain ⟨hrx, htx⟩ := signed_row_le h hr hr' hid (Int.le_of_lt hlt) (hid ▸ hsettled.fits)
  have hstart : periodStart (takeSlot s r'.wanId).checkpoints r'.wanId r.bucketTs r'.bucketTs =
      some r := by
    unfold periodStart
    rw [takeSlot_checkpoints, Table.find_eq_some.mpr ⟨hr, by rw [← hid]; rfl⟩, some_or]
  unfold usageQuery
  rw [if_neg (by omega), if_pos hnamed]
  unfold usageOne addUsage
  dsimp only
  rw [hstart]
  dsimp only
  generalize periodEnd (takeSlot s r'.wanId) r'.wanId r'.bucketTs = finish at herx hetx
  obtain ⟨erx, etx, ereset⟩ := finish
  dsimp only at herx hetx ⊢
  subst herx hetx
  rw [if_neg (by omega)]
  exact ⟨_, rfl, Int.zero_add _, Int.zero_add _⟩

/-! ### Runs -/

/-- **What a run reports**, if its observations meet the condition. -/
theorem usage_run (h : Run Meets s b now) : Exact Settled s b := by
  have hinv := run_inv h
  constructor
  · intro id hcurrent
    obtain ⟨hlive, hne⟩ := hinv.current id hcurrent
    obtain ⟨c, hc, -, hknows⟩ := hinv.known.found id (hlive ▸ hne)
    exact ⟨c, hc, hlive ▸ hknows⟩
  · rintro first hfirst middle hmiddle last hlast id hnamed rfl hmid hend hlt hlt' hok hok'
    obtain ⟨u, hu, hudown, huup⟩ := usageQuery_rows hinv hfirst hmiddle hmid.symm
      (hmid.symm ▸ hnamed) hlt hok
    obtain ⟨v, hv, hvdown, hvup⟩ := usageQuery_rows hinv hmiddle hlast (hmid.trans hend.symm)
      (hend.symm ▸ hnamed) hlt' hok'
    obtain ⟨w, hw, hwdown, hwup⟩ := usageQuery_rows hinv hfirst hlast hend.symm
      (hend.symm ▸ hnamed) (hlt.trans hlt') hok'
    rw [hmid] at hu
    rw [hend] at hv hw
    refine ⟨u, v, w, hu, hv, hw, ?_, ?_⟩
    · rw [hudown, hvdown, hwdown]
      omega
    · rw [huup, hvup, hwup]
      omega

/-- A WAN over three hours; it starts again in the last one, behind a restart of the process. -/
theorem usage_run_hours : ∃ s b, Run Meets s b 8000 ∧
    (s.counters.map fun c => (c.totalRx, c.totalTx)) = [(320, 230)] ∧ Exact Settled s b := by
  have hstart : Run Meets _ _ 1000 := .start 1000 (by decide)
  have hfirst := hstart.step _ _ 1000 1000 (.observe [0x77] 100 50 true true) (by decide) (by decide)
  have hsecond := hfirst.step _ _ 1000 4000 (.observe [0x77] 300 80 true true) (by decide)
    (by decide +kernel)
  have hquery := hsecond.step _ _ 4000 4000 (.query [0x78] 1000 4000) (by decide) trivial
  have hrestart := hquery.step _ _ 4000 8000 (.restart false false) (by decide) trivial
  have hthird := hrestart.step _ _ 8000 8000 (.observe [0x77] 20 230 true true) (by decide)
    (by decide +kernel)
  exact ⟨_, _, hthird, by decide +kernel, usage_run hthird⟩

/-- Several queries, whatever they find. -/
theorem run_queries {now : ℤ} (ids : List WanId) (h : Run (fun _ _ _ _ => True) s b now) :
    Run (fun _ _ _ _ => True) (ids.foldl (fun s id => step s now (.query id 1 2)) s) b now := by
  induction ids generalizing s with
  | nil => exact h
  | cons id ids ih => exact ih (h.step _ _ now now (.query id 1 2) (Int.le_refl _) trivial)

/-- Queries for 32 other WANs take all the slots, and the next WAN is not counted. -/
theorem queries_take_slots : ¬ ∀ s b now, Run (fun _ _ _ _ => True) s b now →
    Exact (fun _ _ _ => True) s b := by
  intro hexact
  let ids : List WanId := (List.range 32).map fun n => [0x61, UInt8.ofNat n]
  have hstart : Run (fun _ _ _ _ => True) _ _ 1000 := .start 1000 (by decide)
  have hrun := (run_queries ids hstart).step _ _ 1000 1000 (.observe [0x77] 100 50 true true)
    (by decide) trivial
  obtain ⟨c, hc, -⟩ := (hexact _ _ _ hrun).counted [0x77] (by decide +kernel)
  have hnone : (step (ids.foldl (fun s id => step s 1000 (.query id 1 2))
      (init Table.empty none 1000)) 1000 (.observe [0x77] 100 50 true true)).counters.find?
      (fun c => c.wanId = [0x77]) = none := by decide +kernel
  rw [hnone] at hc
  cases hc

end DreamingOS.Metrics
