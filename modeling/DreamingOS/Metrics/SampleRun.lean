import DreamingOS.Metrics.Conserve

namespace DreamingOS.Metrics.Samples

/-!
# Metrics — runs of samples and upkeep

* `Event`, `next`, `noted` — the calls, what they do, and what there is to be counted from then on;
* `Meets` — the condition on a call;
* `Inv.flush`, `Inv.migrate`, `Inv.maintain`, `Inv.record` — the transactions, and the calls;
* `samples_run` — **samples are conserved in a run whose calls meet the condition**;
* `failed_commit_loses` — a minute whose `COMMIT` fails is lost.
-/

open Holdings List
open Legacy (before rowid)

/-! ### Calls -/

/-- A call, with what SQLite does in it and the rows of the older database. -/
inductive Event where
  | record (id : WanId) (up down connections : ℤ) (f : Flush) (legacy : Table rowid)
    (g : Upkeep)
  | maintain (legacy : Table rowid) (g : Upkeep)

/-- What a call does at a time. -/
def next (s : Store) (now : ℤ) : Event → Store
  | .record id up down connections f legacy g => recordSample s now id up down connections f legacy g
  | .maintain legacy g => maintenance s now legacy g

/-- The upkeep commits a batch of these rows. -/
def Upkeep.commitsRows (g : Upkeep) (rows : List Legacy) : Bool :=
  g.rolls && g.selects && g.begins && g.commits && (!g.prepares || g.steps) &&
    g.failsAt.all fun n => rows.length ≤ n

/-- The rows of the older database that an upkeep takes over. -/
def takenOver (s : Store) (legacy : Table rowid) (g : Upkeep) : List Legacy :=
  if Upkeep.commitsRows g (s.rowsOf legacy g) then s.rowsOf legacy g else []

/-- A sample that is recorded does the upkeep first, when its minute is new. -/
def Upkeeps (s : Store) (now : ℤ) : Prop :=
  s.lastMaintenanceMinute ≠ bucketOf MINUTE_SEC now ∧ 0 < s.lastMaintenanceMinute

instance (s : Store) (now : ℤ) : Decidable (Upkeeps s now) := inferInstanceAs (Decidable (_ ∧ _))

/-- The samples that a call adds to those that there are. -/
def noted (s : Store) (log : List Sample) (now : ℤ) : Event → List Sample
  | .record id up down _ _ legacy g =>
    if id = [] ∨ id = GLOBAL then log
    else
      let log := if Upkeeps s now then log ++ (takenOver s legacy g).map Sample.ofLegacy else log
      log ++ [⟨.native log.length, id, now, max up 0, max down 0⟩]
  | .maintain legacy g => log ++ (takenOver s legacy g).map Sample.ofLegacy

/-! ### The condition -/

/-- A slot with a minute that is over. -/
def closed (now : ℤ) (slot : Option MinuteAcc) : Bool :=
  slot.any fun a => a.bucketTs < bucketOf MINUTE_SEC now

/-- The flush of a new minute succeeds. -/
def Flushes (s : Store) (now : ℤ) (f : Flush) : Prop :=
  s.lastMaintenanceMinute ≠ bucketOf MINUTE_SEC now ∧ f.begins = true ∧ f.commits = true ∧
    ∀ n ∈ f.failsAt, s.minutes.countP (closed now) ≤ n

/-- A flush that fails has not cleared a slot before. -/
def FlushKeeps (s : Store) (now : ℤ) (f : Flush) : Prop :=
  s.lastMaintenanceMinute = bucketOf MINUTE_SEC now ∨ f.begins = false ∨ f.failsAt = some 0 ∨
    s.minutes.countP (closed now) = 0 ∨ Flushes s now f

/-- The same of a slot as of a row: no row of five minutes is there yet for its minute. -/
def SlotsRollable (s : Store) (now : ℤ) : Prop :=
  ∀ a, some a ∈ s.minutes → a.bucketTs < rollupCutoff now →
    groupKey (bucketOf FIVE_MINUTE_SEC a.bucketTs, a.wanId) ∉ s.buckets.rows.map Bucket.key

/-- A batch is committed with its cursor, and behind the cursor that is stored. -/
def BatchFits (s : Store) (legacy : Table rowid) (g : Upkeep) : Prop :=
  Upkeep.commitsRows g (s.rowsOf legacy g) = true →
    (g.reads = true ∨ s.cursor = none) ∧ (g.prepares = true ∨ s.rowsOf legacy g = [])

/-- **The condition on a call.** -/
def Meets (s : Store) (now : ℤ) : Event → Prop
  | .record id _ _ _ f legacy g =>
    id = [] ∨ id = GLOBAL ∨ id.length ≤ 31 ∧
      (s.lastWall = 0 ∨ now - s.lastWall ≤ COLLECTION_GAP_SEC ∨ ∀ slot ∈ s.minutes, slot = none) ∧
      FlushKeeps s now f ∧
      (Flushes s now f ∨ ∀ a, some a ∈ s.minutes → a.wanId = id → bucketOf MINUTE_SEC now ≤ a.bucketTs) ∧
      (∃ slot ∈ s.minutes, slot = none ∨ (∃ a ∈ slot, a.wanId = id) ∨
        Flushes s now f ∧ closed now slot = true) ∧
      (Upkeeps s now → (g.rolls = true → Rollable s now ∧ SlotsRollable s now) ∧ BatchFits s legacy g)
  | .maintain legacy g => (g.rolls = true → Rollable s now) ∧ BatchFits s legacy g

section
variable (s : Store) (now : ℤ) (f : Flush) (legacy : Table rowid) (g : Upkeep)

instance (p : MinuteAcc → Prop) [DecidablePred p] (slots : List (Option MinuteAcc)) :
    Decidable (∀ a, some a ∈ slots → p a) :=
  decidable_of_iff (∀ slot ∈ slots, ∀ a ∈ slot, p a)
    ⟨fun h a ha => h (some a) ha a rfl, fun h _ hslot a ha => h a (ha ▸ hslot)⟩

instance : Decidable (Flushes s now f) := inferInstanceAs (Decidable (_ ∧ _ ∧ _ ∧ _))

instance : Decidable (FlushKeeps s now f) := inferInstanceAs (Decidable (_ ∨ _ ∨ _ ∨ _ ∨ _))

instance : Decidable (SlotsRollable s now) :=
  inferInstanceAs (Decidable (∀ a, some a ∈ s.minutes → _))

instance : Decidable (BatchFits s legacy g) := inferInstanceAs (Decidable (_ → _ ∧ _))

instance : (event : Event) → Decidable (Meets s now event)
  | .record _ _ _ _ _ _ _ => inferInstanceAs (Decidable (_ ∨ _ ∨ _ ∧ _ ∧ _ ∧ _ ∧ _ ∧ _))
  | .maintain _ _ => inferInstanceAs (Decidable (_ ∧ _))

end

variable {s : Store} {log : List Sample} {now bound : ℤ} {p : Places} {a : MinuteAcc}

/-! ### The clock -/

theorem clock_minutes (hle : s.lastWall ≤ now)
    (hgap : s.lastWall = 0 ∨ now - s.lastWall ≤ COLLECTION_GAP_SEC ∨ ∀ slot ∈ s.minutes, slot = none) :
    (Metrics.clock s now).minutes = s.minutes := by
  unfold Metrics.clock
  split
  · rfl
  split
  · next hzero hjump =>
    have hnone : ∀ slot ∈ s.minutes, slot = none := by
      obtain hgap | hgap | hgap := hgap
      · exact absurd hgap hzero
      · omega
      · exact hgap
    show s.minutes.map (fun _ => none) = s.minutes
    calc s.minutes.map (fun _ => none) = s.minutes.map id :=
          map_congr_left fun slot hslot => (hnone slot hslot).symm
      _ = s.minutes := List.map_id _
  · rfl

theorem clock_rest (s : Store) (now : ℤ) : (clock s now).buckets = s.buckets ∧
    (clock s now).cursor = s.cursor ∧
    (clock s now).lastMaintenanceMinute = s.lastMaintenanceMinute ∧ (clock s now).lastWall = now := by
  unfold clock
  split
  · exact ⟨rfl, rfl, rfl, rfl⟩
  · split <;> exact ⟨rfl, rfl, rfl, rfl⟩

/-! ### Flushes -/

variable {s' : Store}

/-- The invariant is about the minutes and the rows only. -/
theorem Inv.congr (h : Inv s log now bound p) (hminutes : s'.minutes = s.minutes)
    (hbuckets : s'.buckets = s.buckets) : Inv s' log now bound p := by
  obtain ⟨minutes, buckets, _, _, _, _⟩ := s
  obtain ⟨minutes', buckets', cursor, generation, lastWall, last⟩ := s'
  obtain rfl : minutes' = minutes := hminutes
  obtain rfl : buckets' = buckets := hbuckets
  exact ⟨⟨h.slot, h.free, h.row, h.once⟩, h.pos, h.owed, h.distinct, h.open', h.source, h.numbers,
    h.bounded⟩

/-- A slot behind a flush. -/
def cleared (now : ℤ) (slot : Option MinuteAcc) : Option MinuteAcc :=
  if closed now slot then none else slot

/-- The rows that a flush writes. -/
def flushedRows (now generation : ℤ) (slots : List (Option MinuteAcc)) : List Bucket :=
  slots.filterMap fun slot => if closed now slot then slot.map (·.bucket generation) else none

variable {generation : ℤ} {failsAt : Option ℕ} {slots pre : List (Option MinuteAcc)} {n : ℕ}
  {t : Table Bucket.key}

/-- The loop of a flush that comes to its end. -/
theorem flushLoop_eq (hsamples : ∀ a, some a ∈ slots → a.samples ≠ 0)
    (hfits : ∀ m ∈ failsAt, n + slots.countP (closed now) ≤ m) :
    flushLoop (bucketOf MINUTE_SEC now) generation failsAt slots n t =
      (slots.map (cleared now), some (upsertAll t (flushedRows now generation slots))) := by
  induction slots generalizing n t with
  | nil => rfl
  | cons slot slots ih =>
    have hrest : ∀ a, some a ∈ slots → a.samples ≠ 0 := fun a ha =>
      hsamples a (mem_cons_of_mem _ ha)
    rw [countP_cons] at hfits
    cases slot with
    | none =>
      unfold flushLoop
      rw [ih hrest fun m hm => by have := hfits m hm; omega]
      rfl
    | some a =>
      unfold flushLoop
      have hpos := hsamples a mem_cons_self
      by_cases hopen : bucketOf MINUTE_SEC now ≤ a.bucketTs
      · have hno : closed now (some a) = false := decide_eq_false (by omega)
        rw [if_pos hopen, ih hrest fun m hm => by have := hfits m hm; omega]
        unfold flushedRows
        rw [map_cons, filterMap_cons_none (by rw [hno]; rfl)]
        unfold cleared
        rw [hno]
        rfl
      · have hyes : closed now (some a) = true := decide_eq_true (by omega)
        have hnot : failsAt ≠ some n := by
          rintro rfl
          have := hfits n rfl
          rw [hyes] at this
          simp only [if_pos] at this
          omega
        rw [if_neg hopen, if_neg hpos, if_neg hnot]
        dsimp only
        rw [ih hrest fun m hm => by
          have := hfits m hm
          rw [hyes] at this
          simp only [if_pos] at this
          omega]
        unfold flushedRows
        rw [map_cons, filterMap_cons_some (by rw [hyes]; rfl)]
        unfold cleared
        rw [hyes]
        rfl

/-- A flush that fails at once, or has nothing to write, clears no slot. -/
theorem flushLoop_keeps (hsamples : ∀ a, some a ∈ slots → a.samples ≠ 0)
    (hkeeps : failsAt = some n ∨ slots.countP (closed now) = 0) :
    (flushLoop (bucketOf MINUTE_SEC now) generation failsAt slots n t = (slots, none)) ∨
      flushLoop (bucketOf MINUTE_SEC now) generation failsAt slots n t = (slots, some t) := by
  induction slots with
  | nil => exact .inr rfl
  | cons slot slots ih =>
    have hrest : ∀ a, some a ∈ slots → a.samples ≠ 0 := fun a ha =>
      hsamples a (mem_cons_of_mem _ ha)
    rw [countP_cons] at hkeeps
    have ih := ih hrest (hkeeps.imp id fun hzero => by omega)
    cases slot with
    | none =>
      unfold flushLoop
      obtain ih | ih := ih
      · exact .inl (by rw [ih])
      · exact .inr (by rw [ih])
    | some a =>
      unfold flushLoop
      by_cases hopen : bucketOf MINUTE_SEC now ≤ a.bucketTs
      · rw [if_pos hopen]
        obtain ih | ih := ih
        · exact .inl (by rw [ih])
        · exact .inr (by rw [ih])
      · have hyes : closed now (some a) = true := decide_eq_true (by omega)
        have hfails : failsAt = some n := by
          obtain hfails | hzero := hkeeps
          · exact hfails
          · rw [hyes] at hzero
            simp at hzero
        rw [if_neg hopen, if_neg (hsamples a mem_cons_self), if_pos hfails]
        exact .inl rfl

/-- The slots are flushed one by one. -/
theorem Inv.flushAll (h : Inv { s with minutes := pre ++ slots, buckets := t } log now bound p)
    (generation : ℤ) :
    ∃ p', Inv { s with
        minutes := pre ++ slots.map (cleared now)
        buckets := upsertAll t (flushedRows now generation slots) } log now bound p' := by
  induction slots generalizing pre t p with
  | nil => exact ⟨p, h⟩
  | cons slot slots ih =>
    rw [map_cons]
    by_cases hclosed : closed now slot = true
    · obtain ⟨a, rfl, hlt⟩ : ∃ a, slot = some a ∧ a.bucketTs < bucketOf MINUTE_SEC now := by
        cases slot with
        | none => cases hclosed
        | some a => exact ⟨a, rfl, of_decide_eq_true hclosed⟩
      have hi : (pre ++ some a :: slots)[pre.length]? = some (some a) := by simp
      have hstep := h.flushSlot hi hlt generation
      dsimp only at hstep
      rw [set_append_right _ _ (Nat.le_refl _), Nat.sub_self, set_cons_zero, append_cons] at hstep
      obtain ⟨p', hp'⟩ := ih hstep
      refine ⟨p', hp'.congr ?_ ?_⟩
      · unfold cleared
        rw [if_pos hclosed, append_cons]
      · unfold flushedRows
        rw [filterMap_cons_some (by rw [hclosed]; rfl)]
        rfl
    · rw [append_cons] at h
      obtain ⟨p', hp'⟩ := ih h
      refine ⟨p', hp'.congr ?_ ?_⟩
      · conv_lhs => unfold cleared
        rw [if_neg hclosed, append_cons]
        rfl
      · unfold flushedRows
        rw [filterMap_cons_none (by rw [if_neg hclosed])]

theorem Inv.samples_ne_zero (h : Inv s log now bound p) (ha : some a ∈ s.minutes) :
    a.samples ≠ 0 := by
  obtain ⟨i, hi, hget⟩ := getElem_of_mem ha
  exact (h.slot i a (by rw [getElem?_eq_getElem hi, hget])).1.pos

/-! ### A sample is recorded -/

variable {x : Sample} {connections : ℤ}

theorem counts_add {xs : List Sample} (h : a.samples = 0 ∧ xs = [] ∨ Counts a.samples a.rates xs) :
    Counts (a.add now x.up x.down connections).samples (a.add now x.up x.down connections).rates
      (xs ++ [x]) := by
  unfold MinuteAcc.add
  obtain ⟨hzero, rfl⟩ | hcounts := h
  · rw [if_pos hzero]
    exact counts_single
  · rw [if_neg hcounts.pos]
    exact hcounts.append counts_single

theorem add_wanId {ts up down connections : ℤ} : (a.add ts up down connections).wanId = a.wanId ∧
      (a.add ts up down connections).bucketTs = a.bucketTs := by
  unfold MinuteAcc.add
  split <;> exact ⟨rfl, rfl⟩

/-- **A sample is added** to the minute of its WAN. -/
theorem Inv.addAt (h : Inv s log now bound p) {i : ℕ} {slot : Option MinuteAcc}
    (hi : s.minutes[i]? = some slot) (hslot : slot = some a ∨ slot = none ∧ a.samples = 0)
    (hid : a.wanId = x.wanId) (hts : a.bucketTs = bucketOf MINUTE_SEC now)
    (hother : ∀ (j : ℕ) b, s.minutes[j]? = some (some b) → b.wanId = a.wanId → j = i)
    (horigin : x.origin = .native log.length) (hnow : x.ts = now) (connections : ℤ) :
    Inv { s with minutes := s.minutes.set i (some (a.add now x.up x.down connections)) }
      (log ++ [x]) now bound ⟨Function.update p.acc i (p.acc i ++ [x]), p.row⟩ := by
  have hcontent : (a.samples = 0 ∧ p.acc i = [] ∨ Counts a.samples a.rates (p.acc i)) ∧
      ∀ y ∈ p.acc i, (y ∈ log ∧ y.wanId = a.wanId ∧ bucketOf MINUTE_SEC y.ts = a.bucketTs) ∧
        y.origin.isNative = true := by
    obtain rfl | ⟨rfl, hzero⟩ := hslot
    · obtain ⟨hcounts, hall⟩ := h.slot i a hi
      exact ⟨.inr hcounts, fun y hy => ⟨hall y hy, (h.open' i a hi).2.1 y hy⟩⟩
    · rw [h.free i hi]
      exact ⟨.inl ⟨hzero, rfl⟩, nofun⟩
  obtain ⟨haddId, haddTs⟩ := @add_wanId a now x.up x.down connections
  have hfresh : x ∉ log := by
    intro hmem
    have := h.numbers x hmem _ horigin
    omega
  have hnative : x.origin.isNative = true := by
    rw [horigin]
    rfl
  have htally : ∀ y, tally
      { s with minutes := s.minutes.set i (some (a.add now x.up x.down connections)) }
      ⟨Function.update p.acc i (p.acc i ++ [x]), p.row⟩ y = tally s p y + [x].count y := by
    intro y
    have hslots := @held_update _ _ _ _ _ p.acc y i (p.acc i ++ [x]) nodup_range (lt_of_slot hi)
    rw [count_append] at hslots
    unfold tally
    dsimp only
    rw [length_set]
    omega
  have hcases : ∀ (j : ℕ) b,
      (s.minutes.set i (some (a.add now x.up x.down connections)))[j]? = some (some b) →
      j = i ∧ b = a.add now x.up x.down connections ∨ j ≠ i ∧ s.minutes[j]? = some (some b) := by
    intro j b hj
    exact (Slots.getElem?_set_cases hj).imp (And.imp_right Option.some.inj) id
  refine ⟨⟨fun j b hj => ?_, fun j hj => ?_, fun r hr => ?_, fun y => ?_⟩, h.pos, fun y hy => ?_,
    fun j k b c hj hk hsame => ?_, fun j b hj => ?_, h.source, fun y hy n hn => ?_,
    fun y hy k hk => ?_⟩
  · dsimp only
    obtain ⟨rfl, rfl⟩ | ⟨hne, hold⟩ := hcases j b hj
    · rw [Function.update_self, haddId, haddTs]
      refine ⟨counts_add hcontent.1, fun y hy => ?_⟩
      obtain hy | hy := mem_append.mp hy
      · obtain ⟨⟨hlog, hrest⟩, -⟩ := hcontent.2 y hy
        exact ⟨mem_append_left _ hlog, hrest⟩
      · obtain rfl := mem_singleton.mp hy
        exact ⟨mem_append_right _ hy, hid.symm, by rw [hnow, hts]⟩
    · rw [Function.update_of_ne hne]
      obtain ⟨hcounts, hall⟩ := h.slot j b hold
      exact ⟨hcounts, fun y hy => ⟨mem_append_left _ (hall y hy).1, (hall y hy).2⟩⟩
  · dsimp only
    obtain ⟨-, hno⟩ | ⟨hne, hold⟩ := Slots.getElem?_set_cases hj
    · cases hno
    · rw [Function.update_of_ne hne]
      exact h.free j hold
  · obtain ⟨hcounts, hall⟩ := h.row r hr
    exact ⟨hcounts, fun y hy => ⟨mem_append_left _ (hall y hy).1, (hall y hy).2⟩⟩
  · have honce := h.once y
    rw [htally]
    by_cases hy : y = x
    · subst hy
      rw [h.tally_eq_zero hfresh, count_singleton_self]
    · rw [count_eq_zero.mpr fun hmem => hy (mem_singleton.mp hmem)]
      exact honce
  · rw [htally]
    obtain hlog | hlast := mem_append.mp hy.logged
    · have hne : y ∉ [x] := by
        rintro hmem
        obtain rfl := mem_singleton.mp hmem
        exact hfresh hlog
      rw [count_eq_zero.mpr hne, Nat.add_zero]
      apply h.owed
      exact ⟨hlog, hy.native.imp id fun hno z hz => hno z (mem_append_left _ hz), hy.retained⟩
    · obtain rfl := mem_singleton.mp hlast
      rw [h.tally_eq_zero hfresh, count_singleton_self]
  · obtain ⟨rfl, rfl⟩ | ⟨hne, hold⟩ := hcases j b hj
    · obtain ⟨rfl, rfl⟩ | ⟨hne', hold'⟩ := hcases k c hk
      · rfl
      · exact (hother k c hold' (hsame.symm.trans haddId)).symm
    · obtain ⟨rfl, rfl⟩ | ⟨hne', hold'⟩ := hcases k c hk
      · exact hother j b hold (hsame.trans haddId)
      · exact h.distinct j k b c hold hold' hsame
  · dsimp only
    obtain ⟨rfl, rfl⟩ | ⟨hne, hold⟩ := hcases j b hj
    · rw [Function.update_self, haddId, haddTs]
      refine ⟨Int.le_of_eq hts, fun y hy => ?_, fun r hr hsource hkey => ?_⟩
      · obtain hy | hy := mem_append.mp hy
        · exact (hcontent.2 y hy).2
        · rwa [mem_singleton.mp hy]
      · -- the rows of samples that have been recorded are of earlier minutes
        have hlt := ((h.source r hr).2.1 hsource).1
        rw [(Prod.mk.inj hkey).1, hts] at hlt
        exact Int.lt_irrefl _ hlt
    · rw [Function.update_of_ne hne]
      exact h.open' j b hold
  · rw [length_append]
    obtain hy | hy := mem_append.mp hy
    · exact Nat.lt_add_right _ (h.numbers y hy n hn)
    · obtain rfl := mem_singleton.mp hy
      rw [horigin] at hn
      obtain rfl := Origin.native.inj hn
      exact Nat.lt_succ_self _
  · obtain hy | hy := mem_append.mp hy
    · exact h.bounded y hy k hk
    · obtain rfl := mem_singleton.mp hy
      rw [horigin] at hk
      cases hk

/-- The slot of a WAN, or a free one. -/
theorem minuteFor_spec {minutes : List (Option MinuteAcc)} {id : WanId} {bucket : ℤ}
    (hid : id.length ≤ 31)
    (hroom : ∃ slot ∈ minutes, slot = none ∨ ∃ a, slot = some a ∧ a.wanId = id) :
    ∃ i a, minuteFor minutes id bucket = some (i, a) ∧ a.wanId = id ∧ (minutes[i]? = some (some a) ∨
        minutes[i]? = some none ∧ a = { bucketTs := bucket, wanId := id } ∧
          ∀ b, some b ∈ minutes → b.wanId ≠ id) := by
  unfold minuteFor
  cases hfind : minutes.findIdx? fun slot => slot.any fun a => a.wanId = id with
  | some i =>
    obtain ⟨hi, hany, -⟩ := findIdx?_eq_some_iff_getElem.mp hfind
    cases hslot : minutes[i] with
    | none =>
      rw [hslot] at hany
      cases hany
    | some a =>
      have hget : minutes[i]? = some (some a) := by rw [getElem?_eq_getElem hi, hslot]
      rw [hslot] at hany
      refine ⟨i, a, ?_, of_decide_eq_true hany, .inl hget⟩
      dsimp only
      rw [hget]
      rfl
  | none =>
    rw [findIdx?_eq_none_iff] at hfind
    have hnone : ∀ b, some b ∈ minutes → b.wanId ≠ id := fun b hb => of_decide_eq_false (hfind _ hb)
    obtain ⟨slot, hmem, rfl | ⟨a, rfl, ha⟩⟩ := hroom
    · dsimp only
      cases hfree : minutes.findIdx? Option.isNone with
      | none =>
        rw [findIdx?_eq_none_iff] at hfree
        cases hfree none hmem
      | some i =>
        obtain ⟨hi, hisNone, -⟩ := findIdx?_eq_some_iff_getElem.mp hfree
        have hget : minutes[i]? = some none := by
          rw [getElem?_eq_getElem hi, Option.isNone_iff_eq_none.mp hisNone]
        rw [take_of_length_le hid]
        exact ⟨i, _, rfl, rfl, .inr ⟨hget, rfl, hnone⟩⟩
    · exact absurd ha (hnone a hmem)

variable {id : WanId}

/-- **The last step of a sample that is recorded.** -/
theorem Inv.addSample (h : Inv s log now bound p) (up down connections : ℤ) (hid : id.length ≤ 31)
    (hroom : ∃ slot ∈ s.minutes, slot = none ∨ ∃ a, slot = some a ∧ a.wanId = id)
    (hown : ∀ a, some a ∈ s.minutes → a.wanId = id → bucketOf MINUTE_SEC now ≤ a.bucketTs) :
    ∃ p', Inv (addSample s now id up down connections)
      (log ++ [⟨.native log.length, id, now, up, down⟩]) now bound p' := by
  obtain ⟨i, a, hfor, rfl, hcase⟩ := @minuteFor_spec _ _ (bucketOf MINUTE_SEC now) hid hroom
  have hts : a.bucketTs = bucketOf MINUTE_SEC now := by
    obtain hget | ⟨-, heq, -⟩ := hcase
    · exact Int.le_antisymm (h.open' i a hget).1 (hown a (mem_of_getElem? hget) rfl)
    · rw [heq]
  have hslot : ∃ slot, s.minutes[i]? = some slot ∧ (slot = some a ∨ slot = none ∧ a.samples = 0) := by
    obtain hget | ⟨hget, heq, -⟩ := hcase
    · exact ⟨_, hget, .inl rfl⟩
    · exact ⟨_, hget, .inr ⟨rfl, by rw [heq]⟩⟩
  have hother : ∀ (j : ℕ) b, s.minutes[j]? = some (some b) → b.wanId = a.wanId → j = i := by
    intro j b hj hsame
    obtain hget | ⟨-, -, hnone⟩ := hcase
    · exact h.distinct j i b a hj hget hsame
    · exact absurd hsame (hnone b (mem_of_getElem? hj))
  obtain ⟨slot, hi, hslot⟩ := hslot
  have hadded := h.addAt (x := ⟨.native log.length, a.wanId, now, up, down⟩) hi hslot rfl hts hother
    rfl rfl connections
  unfold Metrics.addSample
  dsimp only
  rw [hfor]
  dsimp only
  rw [if_neg (not_not.mpr hts)]
  exact ⟨_, hadded⟩

/-! ### Transactions -/

/-- What a flush does, if it clears no slot in vain. -/
theorem flush_cases {f : Flush} (h : Inv s log now bound p)
    (hminute : s.lastMaintenanceMinute ≠ bucketOf MINUTE_SEC now) (hkeeps : FlushKeeps s now f) :
    (Flushes s now f ∧ flushClosedMinutes s (bucketOf MINUTE_SEC now) f =
      { s with
        minutes := s.minutes.map (cleared now)
        buckets := upsertAll s.buckets (flushedRows now s.generation s.minutes) }) ∨
      ¬Flushes s now f ∧ flushClosedMinutes s (bucketOf MINUTE_SEC now) f = s := by
  have hsamples : ∀ a, some a ∈ s.minutes → a.samples ≠ 0 := fun a => h.samples_ne_zero
  have hfail : f.failsAt = some 0 ∨ s.minutes.countP (closed now) = 0 →
      flushClosedMinutes s (bucketOf MINUTE_SEC now) f = s := by
    intro hkeeps
    unfold flushClosedMinutes
    split
    · rfl
    obtain heq | heq :=
      @flushLoop_keeps now s.generation f.failsAt s.minutes 0 s.buckets hsamples hkeeps
    · rw [heq]
    · rw [heq]
      dsimp only
      rw [ite_self]
  by_cases hflushes : Flushes s now f
  · left
    refine ⟨hflushes, ?_⟩
    obtain ⟨-, hbegins, hcommits, hfits⟩ := hflushes
    unfold flushClosedMinutes
    rw [flushLoop_eq hsamples fun n hn => by have := hfits n hn; omega, hbegins, hcommits]
    rfl
  · right
    refine ⟨hflushes, ?_⟩
    obtain heq | hbegins | hzero | hnone | hyes := hkeeps
    · exact absurd heq hminute
    · unfold flushClosedMinutes
      rw [hbegins]
      rfl
    · exact hfail (.inl hzero)
    · exact hfail (.inr hnone)
    · exact absurd hyes hflushes

variable {r : Bucket}

theorem mem_upsertAll {t : Table Bucket.key} {rows : List Bucket}
    (h : r ∈ (upsertAll t rows).rows) : r ∈ t.rows ∨ r ∈ rows := by
  induction rows generalizing t with
  | nil => exact .inl h
  | cons new rows ih =>
    obtain hr | hr := ih h
    · obtain rfl | ⟨hold, -⟩ := mem_upsert_replace.mp hr
      · exact .inr mem_cons_self
      · exact .inl hold
    · exact .inr (mem_cons_of_mem _ hr)

theorem mem_flushedRows {generation : ℤ} {slots : List (Option MinuteAcc)}
    (h : r ∈ flushedRows now generation slots) : ∃ a, some a ∈ slots ∧ r = a.bucket generation := by
  obtain ⟨slot, hslot, hr⟩ := mem_filterMap.mp h
  split at hr
  · obtain ⟨a, rfl, rfl⟩ := Option.map_eq_some_iff.mp hr
    exact ⟨a, hslot, rfl⟩
  · cases hr

/-- A flush leaves the rows to a rollup. -/
theorem Rollable.flushed (h : Rollable s now) (hslots : SlotsRollable s now) : Rollable { s with
        minutes := s.minutes.map (cleared now)
        buckets := upsertAll s.buckets (flushedRows now s.generation s.minutes) } now := by
  have hkeys : ∀ g, groupKey g ∉ s.buckets.rows.map Bucket.key → groupKey g ∉
      (upsertAll s.buckets (flushedRows now s.generation s.minutes)).rows.map Bucket.key := by
    intro g hg hmem
    obtain ⟨r, hr, hkey⟩ := List.mem_map.mp hmem
    obtain hr | hr := mem_upsertAll hr
    · exact hg (List.mem_map.mpr ⟨r, hr, hkey⟩)
    · obtain ⟨a, -, rfl⟩ := mem_flushedRows hr
      have hres : MINUTE_SEC = FIVE_MINUTE_SEC := (Prod.mk.inj (Prod.mk.inj hkey).2).2
      exact absurd hres (by decide)
  intro r hr hdue
  apply hkeys
  obtain hr | hr := mem_upsertAll hr
  · exact h r hr hdue
  · obtain ⟨a, ha, rfl⟩ := mem_flushedRows hr
    exact hslots a ha (of_decide_eq_true hdue).2

variable {rows : List Legacy}

/-- The loop of a migration comes to its end, if no write of it fails. -/
theorem migrateLoop_eq {failsAt : Option ℕ} {n : ℕ} {t : Table Bucket.key} :
    migrateLoop failsAt rows n t = if ∀ m ∈ failsAt, m < n ∨ n + rows.length ≤ m then
        some (rows.foldl (fun t r => t.upsert r.bucket r.merge r.merge_key) t)
      else none := by
  induction rows generalizing n t with
  | nil =>
    rw [if_pos]
    · rfl
    · intro m _
      rw [length_nil]
      omega
  | cons r rows ih =>
    unfold migrateLoop
    rw [length_cons, foldl_cons, ih]
    split
    · next hfails =>
      rw [if_neg]
      intro hno
      have := hno n hfails
      omega
    · next hfails =>
      apply if_congr _ rfl rfl
      constructor
      · intro hall m hm
        have := hall m hm
        have : m ≠ n := fun heq => hfails (heq ▸ hm)
        omega
      · intro hall m hm
        have := hall m hm
        have : m ≠ n := fun heq => hfails (heq ▸ hm)
        omega

/-- **The rows of a batch are taken over** one by one. -/
theorem Inv.migrateRows (h : Inv s log now bound p)
    (hsorted : rows.Pairwise fun r r' => r.rowid < r'.rowid) (hbound : ∀ r ∈ rows, bound < r.rowid) :
    ∃ p', Inv { s with
        buckets := rows.foldl (fun t r => t.upsert r.bucket r.merge r.merge_key) s.buckets }
      (log ++ rows.map Sample.ofLegacy) now ((rows.map rowid).getLast?.getD bound) p' := by
  induction rows generalizing s log bound p with
  | nil =>
    rw [map_nil, append_nil]
    exact ⟨p, h⟩
  | cons r rows ih =>
    obtain ⟨hhead, hrest⟩ := pairwise_cons.mp hsorted
    obtain ⟨p', hp'⟩ := ih (h.migrateRow r (hbound r mem_cons_self)) hrest hhead
    refine ⟨p', ?_⟩
    rw [map_cons, append_cons, map_cons, getLast?_cons]
    exact hp'

theorem rowsOf_sorted (s : Store) (legacy : Table rowid) (g : Upkeep) :
    (s.rowsOf legacy g).Pairwise (fun r r' => r.rowid < r'.rowid) ∧
      ∀ r ∈ s.rowsOf legacy g, s.cursorOf g < r.rowid := by
  have hbatch : ∀ cursor, (batch legacy cursor).Pairwise (fun r r' => r.rowid < r'.rowid) ∧
      ∀ r ∈ batch legacy cursor, cursor < r.rowid := by
    intro cursor
    unfold batch
    generalize hrows : legacy.rows.filter (fun r => r.rowid > cursor ∧ r.wanId ≠ GLOBAL) = rows
    constructor
    · have hdistinct : (rows.map rowid).Nodup := by
        rw [← hrows]
        exact (filter_sublist.map _).nodup legacy.nodup
      have hperm := (perm_insertionSort before rows).map rowid
      have hne : (rows.insertionSort before).Pairwise (fun r r' => r.rowid ≠ r'.rowid) :=
        pairwise_map.mp (hperm.nodup_iff.mpr hdistinct)
      have hle := pairwise_insertionSort before rows
      exact ((hle.and hne).imp fun hrel => lt_of_le_of_ne hrel.1 hrel.2).sublist (take_sublist _ _)
    · intro r hr
      have hmem := (mem_insertionSort _).mp (mem_of_mem_take hr)
      rw [← hrows] at hmem
      exact (of_decide_eq_true (mem_filter.mp hmem).2).1
  unfold Store.rowsOf
  split
  · exact hbatch _
  · exact ⟨(hbatch _).1.sublist (take_sublist _ _), fun r hr => (hbatch _).2 r (mem_of_mem_take hr)⟩

/-- What a migration does, in the upkeep. -/
theorem migrateLegacyBatch_eq {legacy : Table rowid} {g : Upkeep} (hrolls : g.rolls = true) :
    migrateLegacyBatch s legacy g = if Upkeep.commitsRows g (s.rowsOf legacy g) then
        { s with
          buckets := (s.rowsOf legacy g).foldl (fun t r => t.upsert r.bucket r.merge r.merge_key)
            s.buckets
          cursor :=
            if g.prepares then
              some (((s.rowsOf legacy g).map rowid).getLast?.getD (s.cursorOf g))
            else s.cursor }
      else s := by
  unfold migrateLegacyBatch Upkeep.commitsRows
  dsimp only
  rw [hrolls, migrateLoop_eq]
  have hfits : (g.failsAt.all fun n => decide ((s.rowsOf legacy g).length ≤ n)) = true ↔
      ∀ m ∈ g.failsAt, m < 0 ∨ 0 + (s.rowsOf legacy g).length ≤ m := by
    rw [Option.all_eq_true]
    simp
  cases hselects : g.selects with
  | false => rfl
  | true =>
    cases hbegins : g.begins with
    | false => rfl
    | true =>
      by_cases hall : ∀ m ∈ g.failsAt, m < 0 ∨ 0 + (s.rowsOf legacy g).length ≤ m
      · rw [if_pos hall, hfits.mpr hall]
        cases hcommits : g.commits with
        | false => rfl
        | true =>
          cases hprepares : g.prepares with
          | false => rfl
          | true => cases hsteps : g.steps <;> rfl
      · rw [if_neg hall, Bool.eq_false_iff.mpr fun hyes => hall (hfits.mp hyes), Bool.and_false]
        rfl

/-- **A batch of the older database is taken over.** -/
theorem Inv.migrate {legacy : Table rowid} {g : Upkeep}
    (h : Inv s log now (s.cursor.getD 0) p) (hrolls : g.rolls = true) (hfits : BatchFits s legacy g) :
    ∃ p', Inv (migrateLegacyBatch s legacy g) (log ++ (takenOver s legacy g).map Sample.ofLegacy) now
      ((migrateLegacyBatch s legacy g).cursor.getD 0) p' := by
  rw [migrateLegacyBatch_eq hrolls]
  unfold takenOver
  split
  · next hcommits =>
    obtain ⟨hreads, hprepares⟩ := hfits hcommits
    have hcursor : s.cursorOf g = s.cursor.getD 0 := by
      unfold Store.cursorOf
      obtain hreads | hnone := hreads
      · rw [if_pos hreads]
      · rw [hnone]
        exact ite_self _
    obtain ⟨hsorted, hbound⟩ := rowsOf_sorted s legacy g
    rw [hcursor] at hbound
    obtain ⟨p', hp'⟩ := h.migrateRows hsorted hbound
    refine ⟨p', ?_⟩
    obtain hprepares | hnil := hprepares
    · rw [hprepares, hcursor]
      exact hp'.congr rfl rfl
    · rw [hnil] at hp' ⊢
      cases hcase : g.prepares with
      | true =>
        rw [hcursor]
        exact hp'.congr rfl rfl
      | false => exact hp'.congr rfl rfl
  · rw [map_nil, append_nil]
    exact ⟨p, h⟩

/-- **The upkeep.** -/
theorem Inv.maintain {legacy : Table rowid} {g : Upkeep}
    (h : Inv s log now (s.cursor.getD 0) p) (hroll : g.rolls = true → Rollable s now)
    (hfits : BatchFits s legacy g) :
    ∃ p', Inv (maintenance s now legacy g) (log ++ (takenOver s legacy g).map Sample.ofLegacy) now
      ((maintenance s now legacy g).cursor.getD 0) p' := by
  unfold maintenance
  cases hrolls : g.rolls with
  | false =>
    have hnone : takenOver s legacy g = [] := by
      unfold takenOver Upkeep.commitsRows
      rw [hrolls]
      rfl
    rw [hnone, map_nil, append_nil]
    exact ⟨p, h⟩
  | true =>
    have hrolled : Inv (Metrics.rollUp s now) log now ((Metrics.rollUp s now).cursor.getD 0) _ :=
      h.rollUp (hroll hrolls)
    exact hrolled.migrate hrolls hfits

/-- The upkeep does not touch the slots and the clock. -/
theorem maintenance_rest (s : Store) (now : ℤ) (legacy : Table rowid) (g : Upkeep) :
    (maintenance s now legacy g).minutes = s.minutes ∧
      (maintenance s now legacy g).lastWall = s.lastWall := by
  unfold maintenance
  cases hrolls : g.rolls with
  | false => exact ⟨rfl, rfl⟩
  | true =>
    show (migrateLegacyBatch (rollUp s now) legacy g).minutes = _ ∧
      (migrateLegacyBatch (rollUp s now) legacy g).lastWall = _
    rw [migrateLegacyBatch_eq hrolls]
    split <;> exact ⟨rfl, rfl⟩

/-! ### Calls -/

/-- **What a flush leaves**: the invariant, and a slot for the WAN, with nothing old in it. -/
theorem Inv.flush {f : Flush} (h : Inv s log now bound p)
    (hminute : s.lastMaintenanceMinute ≠ bucketOf MINUTE_SEC now) (hkeeps : FlushKeeps s now f)
    (hown : Flushes s now f ∨
      ∀ a, some a ∈ s.minutes → a.wanId = id → bucketOf MINUTE_SEC now ≤ a.bucketTs)
    (hroom : ∃ slot ∈ s.minutes, slot = none ∨ (∃ a, slot = some a ∧ a.wanId = id) ∨
      Flushes s now f ∧ closed now slot = true) :
    ∃ s' p', flushClosedMinutes s (bucketOf MINUTE_SEC now) f = s' ∧ Inv s' log now bound p' ∧
      (∀ a, some a ∈ s'.minutes → a.wanId = id → bucketOf MINUTE_SEC now ≤ a.bucketTs) ∧
      (∃ slot ∈ s'.minutes, slot = none ∨ ∃ a, slot = some a ∧ a.wanId = id) ∧
      s'.cursor = s.cursor ∧ s'.lastWall = s.lastWall ∧
      s'.lastMaintenanceMinute = s.lastMaintenanceMinute ∧
      (Rollable s now → SlotsRollable s now → Rollable s' now) := by
  obtain ⟨hflushes, heq⟩ | ⟨hno, heq⟩ := flush_cases h hminute hkeeps
  · have hall : Inv { s with minutes := [] ++ s.minutes, buckets := s.buckets } log now bound p := h
    obtain ⟨p', hp'⟩ := hall.flushAll s.generation
    refine ⟨_, p', heq, hp'.congr rfl rfl, ?_, ?_, rfl, rfl, rfl, Rollable.flushed⟩
    · intro a ha _
      obtain ⟨slot, -, hslot⟩ := List.mem_map.mp ha
      unfold cleared at hslot
      split at hslot
      · cases hslot
      rename_i hopen
      subst hslot
      have hno := of_decide_eq_false (Bool.eq_false_iff.mpr hopen)
      omega
    · obtain ⟨slot, hmem, hslot⟩ := hroom
      refine ⟨cleared now slot, List.mem_map.mpr ⟨slot, hmem, rfl⟩, ?_⟩
      unfold cleared
      split
      · exact .inl rfl
      rename_i hopen
      obtain hslot | hslot | ⟨-, hclosed⟩ := hslot
      · exact .inl hslot
      · exact .inr hslot
      · exact absurd hclosed hopen
  · refine ⟨s, p, heq, h, hown.resolve_left hno, ?_, rfl, rfl, rfl, fun hroll _ => hroll⟩
    obtain ⟨slot, hmem, hslot⟩ := hroom
    exact ⟨slot, hmem, hslot.imp_right fun hslot => hslot.resolve_right fun hyes => hno hyes.1⟩

theorem rowsOf_congr {s : Store} (h : s'.cursor = s.cursor) (legacy : Table rowid)
    (g : Upkeep) : s'.rowsOf legacy g = s.rowsOf legacy g := by
  unfold Store.rowsOf Store.cursorOf
  rw [h]

theorem takenOver_congr {s : Store} (h : s'.cursor = s.cursor) (legacy : Table rowid)
    (g : Upkeep) : takenOver s' legacy g = takenOver s legacy g := by
  unfold takenOver
  rw [rowsOf_congr h]

/-- **A new minute.** -/
theorem Inv.newMinute {f : Flush} {legacy : Table rowid} {g : Upkeep}
    (h : Inv s log now (s.cursor.getD 0) p) (hkeeps : FlushKeeps s now f)
    (hown : Flushes s now f ∨
      ∀ a, some a ∈ s.minutes → a.wanId = id → bucketOf MINUTE_SEC now ≤ a.bucketTs)
    (hroom : ∃ slot ∈ s.minutes, slot = none ∨ (∃ a, slot = some a ∧ a.wanId = id) ∨
      Flushes s now f ∧ closed now slot = true)
    (hupkeep : Upkeeps s now →
      (g.rolls = true → Rollable s now ∧ SlotsRollable s now) ∧ BatchFits s legacy g) :
    ∃ s' p', newMinute s now f legacy g = s' ∧
      Inv s' (if Upkeeps s now then log ++ (takenOver s legacy g).map Sample.ofLegacy else log) now
        (s'.cursor.getD 0) p' ∧
      (∀ a, some a ∈ s'.minutes → a.wanId = id → bucketOf MINUTE_SEC now ≤ a.bucketTs) ∧
      (∃ slot ∈ s'.minutes, slot = none ∨ ∃ a, slot = some a ∧ a.wanId = id) ∧
      s'.lastWall = s.lastWall := by
  unfold Metrics.newMinute
  dsimp only
  by_cases hminute : s.lastMaintenanceMinute = bucketOf MINUTE_SEC now
  · have hno : ¬Flushes s now f := fun hflushes => hflushes.1 hminute
    rw [if_pos hminute, if_neg fun hupkeeps : Upkeeps s now => hupkeeps.1 hminute]
    refine ⟨s, p, rfl, h, hown.resolve_left hno, ?_, rfl⟩
    obtain ⟨slot, hmem, hslot⟩ := hroom
    exact ⟨slot, hmem, hslot.imp_right fun hslot => hslot.resolve_right fun hyes => hno hyes.1⟩
  · rw [if_neg hminute]
    obtain ⟨s', p', heq, hp', hown', hroom', hcursor, hwall, hlast, hroll⟩ :=
      h.flush hminute hkeeps hown hroom
    rw [heq, hlast]
    by_cases hpos : 0 < s.lastMaintenanceMinute
    · obtain ⟨hrollable, hfits⟩ := hupkeep ⟨hminute, hpos⟩
      have hfits' : BatchFits s' legacy g := by
        unfold BatchFits
        rw [rowsOf_congr hcursor, hcursor]
        exact hfits
      obtain ⟨p'', hp''⟩ := Inv.maintain (hcursor ▸ hp')
        (fun hrolls => hroll (hrollable hrolls).1 (hrollable hrolls).2) hfits'
      obtain ⟨hminutes, hwall'⟩ := maintenance_rest s' now legacy g
      rw [if_pos hpos, if_pos (show Upkeeps s now from ⟨hminute, hpos⟩), ← takenOver_congr hcursor]
      refine ⟨_, p'', rfl, hp''.congr rfl rfl, ?_, ?_, hwall'.trans hwall⟩
      · dsimp only
        rwa [hminutes]
      · dsimp only
        rwa [hminutes]
    · rw [if_neg hpos, if_neg fun hupkeeps : Upkeeps s now => hpos hupkeeps.2]
      rw [← hcursor] at hp'
      exact ⟨_, p', rfl, hp'.congr rfl rfl, hown', hroom', hwall⟩

/-- What holds between the calls of a run. -/
structure Live (s : Store) (log : List Sample) (now : ℤ) : Prop where
  places : ∃ p, Inv s log now (s.cursor.getD 0) p
  wall : s.lastWall ≤ now

theorem flushes_congr {s s' : Store} {f : Flush} (hminutes : s'.minutes = s.minutes)
    (hlast : s'.lastMaintenanceMinute = s.lastMaintenanceMinute) :
    Flushes s' now f ↔ Flushes s now f := by
  unfold Flushes
  rw [hminutes, hlast]

theorem addSample_rest (s : Store) (now : ℤ) (id : WanId) (up down connections : ℤ) :
    (addSample s now id up down connections).cursor = s.cursor ∧
      (addSample s now id up down connections).lastWall = s.lastWall := by
  unfold addSample
  dsimp only
  split <;> exact ⟨rfl, rfl⟩

/-- **A sample is recorded.** -/
theorem Live.record {up down : ℤ} {f : Flush} {legacy : Table rowid}
    {g : Upkeep} (h : Live s log now) (hmeets : Meets s now (.record id up down connections f legacy g)) :
    Live (recordSample s now id up down connections f legacy g)
      (noted s log now (.record id up down connections f legacy g)) now := by
  unfold recordSample noted
  by_cases hno : id = [] ∨ id = GLOBAL
  · rw [if_pos hno]
    dsimp only
    rw [if_pos hno]
    exact h
  · rw [if_neg hno]
    dsimp only
    rw [if_neg hno]
    obtain ⟨hid, hgap, hkeeps, hown, hroom, hupkeep⟩ :=
      (hmeets.resolve_left fun hnil => hno (.inl hnil)).resolve_left fun hglobal =>
        hno (.inr hglobal)
    obtain ⟨⟨p, hp⟩, hwall⟩ := h
    -- the clock changes neither the minutes nor the rows
    have hminutes := clock_minutes hwall hgap
    obtain ⟨hbuckets, hcursor, hlast, hwall'⟩ := clock_rest s now
    have hflushes := @flushes_congr now s (clock s now) f hminutes hlast
    have htaken := takenOver_congr hcursor legacy g
    have hupkeeps : Upkeeps (clock s now) now ↔ Upkeeps s now := by
      unfold Upkeeps
      rw [hlast]
    have hkept : FlushKeeps (clock s now) now f := by
      unfold FlushKeeps
      rw [hflushes, hminutes, hlast]
      exact hkeeps
    have hrolled : Upkeeps (clock s now) now → (g.rolls = true → Rollable (clock s now) now ∧
        SlotsRollable (clock s now) now) ∧ BatchFits (clock s now) legacy g := by
      unfold Rollable SlotsRollable BatchFits
      rw [hupkeeps, hminutes, hbuckets, rowsOf_congr hcursor, hcursor]
      exact hupkeep
    have hclock : Inv (clock s now) log now ((clock s now).cursor.getD 0) p := by
      rw [hcursor]
      exact hp.congr hminutes hbuckets
    obtain ⟨s', p', heq, hp', hown', hroom', hwall''⟩ := hclock.newMinute hkept
      (by rw [hflushes, hminutes]; exact hown) (by rw [hflushes, hminutes]; exact hroom) hrolled
    rw [heq]
    simp only [hupkeeps, htaken] at hp'
    obtain ⟨p'', hp''⟩ := hp'.addSample (max up 0) (max down 0) connections hid hroom' hown'
    obtain ⟨hcursor', hwallAdd⟩ := addSample_rest s' now id (max up 0) (max down 0) connections
    refine ⟨⟨p'', ?_⟩, ?_⟩
    · rw [hcursor']
      exact hp''
    · rw [hwallAdd, hwall'', hwall']

/-- **Every call that meets the condition** keeps what holds between the calls. -/
theorem Live.next {event : Event} (h : Live s log now) (hmeets : Meets s now event) :
    Live (next s now event) (noted s log now event) now := by
  cases event with
  | record id up down connections f legacy g => exact h.record hmeets
  | maintain legacy g =>
    obtain ⟨⟨p, hp⟩, hwall⟩ := h
    exact ⟨hp.maintain hmeets.1 hmeets.2, (maintenance_rest s now legacy g).2.trans_le hwall⟩

theorem Live.later {now' : ℤ} (h : Live s log now) (hle : now ≤ now') : Live s log now' := by
  obtain ⟨⟨p, hp⟩, hwall⟩ := h
  exact ⟨⟨p, hp.later hle⟩, hwall.trans hle⟩

/-! ### Runs -/

/-- A run from the start of the process with an empty database, the calls of which satisfy a
    condition; the clock does not go back. -/
inductive Run (Ok : Store → ℤ → Event → Prop) : Store → List Sample → ℤ → Prop
  | start (now : ℤ) (hpos : 0 < now) : Run Ok {} [] now
  | step (s : Store) (log : List Sample) (now now' : ℤ) (event : Event) (h : Run Ok s log now)
      (hle : now ≤ now') (hok : Ok s now' event) : Run Ok (next s now' event) (noted s log now' event) now'

theorem live_start (hpos : 0 < now) : Live {} [] now := by
  have hslot : ∀ (i : ℕ) a, ({} : Store).minutes[i]? ≠ some (some a) := by
    intro i a hi
    cases eq_of_mem_replicate (mem_of_getElem? hi)
  have htally : ∀ x, tally {} ⟨fun _ => [], fun _ => []⟩ x = 0 := by
    intro x
    unfold tally
    rw [Nat.add_eq_zero_iff, held_eq_zero, held_eq_zero]
    exact ⟨fun _ _ => not_mem_nil, fun _ _ => not_mem_nil⟩
  have hrows : ∀ r, r ∉ ({} : Store).buckets.rows := fun _ => not_mem_nil
  refine ⟨⟨⟨fun _ => [], fun _ => []⟩, ⟨⟨?_, fun _ _ => rfl, fun r hr => absurd hr (hrows r),
    fun x => ?_⟩, hpos, ?_, ?_, ?_, fun r hr => absurd hr (hrows r),
    fun x hx => absurd hx not_mem_nil, fun x hx => absurd hx not_mem_nil⟩⟩,
    Int.le_of_lt hpos⟩
  · intro i a hi
    exact absurd hi (hslot i a)
  · rw [htally]
    exact Nat.zero_le _
  · intro x hx
    cases hx.logged
  · intro i j a b hi
    exact absurd hi (hslot i a)
  · intro i a hi
    exact absurd hi (hslot i a)

theorem run_live (h : Run Meets s log now) : Live s log now := by
  induction h with
  | start now hpos => exact live_start hpos
  | step s log now now' event h hle hok ih => exact (ih.later hle).next hok

/-- **Samples are conserved** in every run whose calls meet the condition. -/
theorem samples_run (h : Run Meets s log now) : Conserved s log now := by
  obtain ⟨⟨p, hp⟩, -⟩ := run_live h
  exact ⟨p, hp.toAssigned, hp.owed⟩

/-- A minute whose `COMMIT` fails is lost: its slot is free, and the row is not there. -/
theorem failed_commit_loses : ¬∀ s log now, Run (fun _ _ _ => True) s log now → Conserved s log now := by
  intro hconserved
  have hstart : Run (fun _ _ _ => True) _ _ 60 := .start 60 (by decide)
  have hfirst := hstart.step _ _ 60 60 (.record [0x77] 5 7 1 {} Table.empty {}) (by decide) trivial
  have hrun := hfirst.step _ _ 60 120 (.record [0x77] 1 2 1 { commits := false } Table.empty {})
    (by decide) trivial
  obtain ⟨p, hassigned, howed⟩ := hconserved _ _ _ hrun
  generalize hs : next _ 120 _ = s at hassigned howed
  have hslots : ∀ slot ∈ s.minutes, ∀ a ∈ slot, a.bucketTs = 120 := by
    rw [← hs]
    decide +kernel
  have hrows : s.buckets.rows = [] := by
    rw [← hs]
    decide +kernel
  have hone := howed ⟨.native 0, [0x77], 60, 5, 7⟩ ⟨by decide +kernel, .inl rfl, by decide⟩
  have hzero : tally s p ⟨.native 0, [0x77], 60, 5, 7⟩ = 0 := by
    unfold tally
    rw [hrows, map_nil, held_nil, Nat.add_zero, held_eq_zero]
    intro i hi hmem
    rw [mem_range] at hi
    cases hslot : s.minutes[i] with
    | none =>
      rw [hassigned.free i (by rw [getElem?_eq_getElem hi, hslot])] at hmem
      cases hmem
    | some a =>
      have hget : s.minutes[i]? = some (some a) := by rw [getElem?_eq_getElem hi, hslot]
      have hts := ((hassigned.slot i a hget).2 _ hmem).2.2
      rw [hslots _ (mem_of_getElem? hget) a rfl] at hts
      cases hts
  omega

/-- Three minutes, and two rows of the older database; a sample is there already in the minute of the
    second one. -/
theorem samples_run_minutes : ∃ s log, Run Meets s log 180 ∧
    (s.buckets.rows.map fun r => (r.bucketTs, r.sampleCount)) = [(60, 1), (0, 1), (120, 1)] ∧
    log.length = 5 ∧ Conserved s log 180 := by
  let legacy : Table rowid := ⟨[⟨1, 10, [0x77], 3, 4, 0⟩, ⟨2, 70, [0x77], 3, 4, 0⟩], by decide⟩
  have hstart : Run Meets _ _ 60 := .start 60 (by decide)
  have hfirst := hstart.step _ _ 60 60 (.record [0x77] 5 7 1 {} Table.empty {}) (by decide)
    (by decide +kernel)
  have hsecond := hfirst.step _ _ 60 120 (.record [0x77] 6 8 1 {} legacy {}) (by decide)
    (by decide +kernel)
  have hthird := hsecond.step _ _ 120 180 (.record [0x77] 7 9 1 {} legacy {}) (by decide)
    (by decide +kernel)
  exact ⟨_, _, hthird, by decide +kernel, by decide +kernel, samples_run hthird⟩

end DreamingOS.Metrics.Samples
