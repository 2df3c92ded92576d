import DreamingOS.Metrics.Rollup
import DreamingOS.Lib.Holdings
import DreamingOS.Lib.Slots
import Mathlib.Data.List.Dedup

namespace DreamingOS.Metrics.Samples

/-!
# Metrics — which samples a bucket counts

The samples of a run, and the minutes and rows that count them.

* `Sample`, `Counts` — a sample, and what a count and its extremes say of some samples;
* `Assigned` — every minute and every row counts its own samples, none of them twice;
* `Owed`, `Conserved` — the samples that have to be counted, and that they are;
* `Inv` — what makes the next step possible;
* `Inv.flushSlot`, `Inv.rollUp`, `Inv.migrateRow`, `Inv.addSample` — the steps.
-/

open Holdings List
open Bucket (group key)
open List (map_map mem_map)
open Function (update update_self update_of_ne)

/-! ### Samples -/

/-- A sample that has been recorded here, or a row of the older database. -/
inductive Origin where
  | native (n : ℕ)
  | legacy (rowid : ℤ)
  deriving DecidableEq

def Origin.isNative : Origin → Bool
  | .native _ => true
  | .legacy _ => false

structure Sample where
  origin : Origin
  wanId : WanId
  (ts up down : ℤ)
  deriving DecidableEq

def Sample.ofLegacy (r : Legacy) : Sample := ⟨.legacy r.rowid, r.wanId, r.ts, r.upRate, r.downRate⟩

variable {n n' : ℕ} {e e' : Extremes} {xs ys : List Sample} {x : Sample}

/-- The extremes are those of the samples. -/
structure Spans (e : Extremes) (xs : List Sample) : Prop where
  upMin : ∃ x ∈ xs, x.up = e.upMin
  upMax : ∃ x ∈ xs, x.up = e.upMax
  downMin : ∃ x ∈ xs, x.down = e.downMin
  downMax : ∃ x ∈ xs, x.down = e.downMax
  within : ∀ x ∈ xs, e.upMin ≤ x.up ∧ x.up ≤ e.upMax ∧ e.downMin ≤ x.down ∧ x.down ≤ e.downMax

/-- A count and its extremes are those of the samples. -/
structure Counts (n : ℕ) (e : Extremes) (xs : List Sample) : Prop where
  length : n = xs.length
  spans : Spans e xs

theorem spans_single : Spans (Extremes.single x.up x.down) [x] where
  upMin := ⟨x, mem_singleton_self x, rfl⟩
  upMax := ⟨x, mem_singleton_self x, rfl⟩
  downMin := ⟨x, mem_singleton_self x, rfl⟩
  downMax := ⟨x, mem_singleton_self x, rfl⟩
  within := by
    intro y hy
    obtain rfl := mem_singleton.mp hy
    exact ⟨Int.le_refl _, Int.le_refl _, Int.le_refl _, Int.le_refl _⟩

/-- One of two extremes is an extreme of all the samples. -/
theorem exists_extreme {f : Sample → ℤ} {a b c : ℤ} (ha : ∃ x ∈ xs, f x = a)
    (hb : ∃ x ∈ ys, f x = b) (hc : c = a ∨ c = b) : ∃ x ∈ xs ++ ys, f x = c := by
  obtain rfl | rfl := hc
  · obtain ⟨x, hx, hfx⟩ := ha
    exact ⟨x, mem_append_left _ hx, hfx⟩
  · obtain ⟨x, hx, hfx⟩ := hb
    exact ⟨x, mem_append_right _ hx, hfx⟩

theorem Spans.append (h : Spans e xs) (h' : Spans e' ys) : Spans (e.join e') (xs ++ ys) where
  upMin := exists_extreme h.upMin h'.upMin (min_choice ..)
  upMax := exists_extreme h.upMax h'.upMax (max_choice ..)
  downMin := exists_extreme h.downMin h'.downMin (min_choice ..)
  downMax := exists_extreme h.downMax h'.downMax (max_choice ..)
  within := by
    intro x hx
    simp only [Extremes.join, min_le_iff, le_max_iff]
    obtain hx | hx := mem_append.mp hx
    · obtain ⟨h₁, h₂, h₃, h₄⟩ := h.within x hx
      exact ⟨.inl h₁, .inl h₂, .inl h₃, .inl h₄⟩
    · obtain ⟨h₁, h₂, h₃, h₄⟩ := h'.within x hx
      exact ⟨.inr h₁, .inr h₂, .inr h₃, .inr h₄⟩

theorem counts_single : Counts 1 (Extremes.single x.up x.down) [x] := ⟨rfl, spans_single⟩

theorem Counts.append (h : Counts n e xs) (h' : Counts n' e' ys) :
    Counts (n + n') (e.join e') (xs ++ ys) :=
  ⟨by rw [h.length, h'.length, length_append], h.spans.append h'.spans⟩

theorem Counts.ne_nil (h : Counts n e xs) : xs ≠ [] := by
  rintro rfl
  obtain ⟨x, hx, -⟩ := h.spans.upMin
  cases hx

theorem Counts.pos (h : Counts n e xs) : n ≠ 0 := by
  rw [h.length]
  exact fun hzero => h.ne_nil (length_eq_zero_iff.mp hzero)

/-! ### Samples and their places -/

/-- The samples of the slots, and those of the rows. -/
structure Places where
  acc : ℕ → List Sample
  row : BucketKey → List Sample

/-- How often a sample is counted. -/
def tally (s : Store) (p : Places) (x : Sample) : ℕ :=
  held (List.range s.minutes.length) p.acc x + held (s.buckets.rows.map key) p.row x

/-- **Every minute and every row counts its samples**, and no sample is counted twice. -/
structure Assigned (s : Store) (log : List Sample) (p : Places) : Prop where
  slot : ∀ (i : ℕ) a, s.minutes[i]? = some (some a) → Counts a.samples a.rates (p.acc i) ∧
    ∀ x ∈ p.acc i, x ∈ log ∧ x.wanId = a.wanId ∧ bucketOf MINUTE_SEC x.ts = a.bucketTs
  free : ∀ i : ℕ, s.minutes[i]? = some none → p.acc i = []
  row : ∀ r ∈ s.buckets.rows, Counts r.sampleCount r.rates (p.row r.key) ∧
    ∀ x ∈ p.row r.key, x ∈ log ∧ x.wanId = r.wanId ∧ bucketOf r.resolution x.ts = r.bucketTs
  once : ∀ x, tally s p x ≤ 1

/-- A sample that has to be counted: its retention has not ended, and where it is a row of the older
    database, its minute has no sample that has been recorded here. -/
structure Owed (log : List Sample) (now : ℤ) (x : Sample) : Prop where
  logged : x ∈ log
  native : x.origin.isNative = true ∨ ∀ y ∈ log, y.origin.isNative = true → y.wanId = x.wanId →
    bucketOf MINUTE_SEC y.ts ≠ bucketOf MINUTE_SEC x.ts
  retained : now - RETENTION_SEC ≤ bucketOf FIVE_MINUTE_SEC x.ts

/-- **Samples are conserved**: there is an assignment that counts what has to be counted. -/
def Conserved (s : Store) (log : List Sample) (now : ℤ) : Prop :=
  ∃ p, Assigned s log p ∧ ∀ x, Owed log now x → tally s p x = 1

/-- What the next step needs. -/
structure Inv (s : Store) (log : List Sample) (now bound : ℤ) (p : Places) : Prop
    extends Assigned s log p where
  pos : 0 < now
  owed : ∀ x, Owed log now x → tally s p x = 1
  distinct : ∀ (i j : ℕ) a b, s.minutes[i]? = some (some a) → s.minutes[j]? = some (some b) →
    a.wanId = b.wanId → i = j
  open' : ∀ (i : ℕ) a, s.minutes[i]? = some (some a) → a.bucketTs ≤ bucketOf MINUTE_SEC now ∧
    (∀ x ∈ p.acc i, x.origin.isNative = true) ∧
    ∀ r ∈ s.buckets.rows, r.source = .nativeCounterRate → r.key ≠ (a.bucketTs, a.wanId, MINUTE_SEC)
  source : ∀ r ∈ s.buckets.rows, (r.resolution = MINUTE_SEC ∨ r.resolution = FIVE_MINUTE_SEC) ∧
    (r.source = .nativeCounterRate → r.bucketTs < bucketOf MINUTE_SEC now ∧
      ∃ x ∈ p.row r.key, x.origin.isNative = true) ∧
    (r.source = .legacyRateEstimate → ∀ x ∈ p.row r.key, x.origin.isNative = false) ∧
    (r.resolution = MINUTE_SEC → r.source ≠ .minuteRollup)
  numbers : ∀ x ∈ log, ∀ n, x.origin = .native n → n < log.length
  bounded : ∀ x ∈ log, ∀ k, x.origin = .legacy k → k ≤ bound

variable {s : Store} {log : List Sample} {now bound : ℤ} {p : Places} {a : MinuteAcc} {i : ℕ}

/-! ### Buckets -/

theorem bucketOf_mono {resolution t t' : ℤ} (hr : 0 < resolution) (ht : 0 ≤ t) (h : t ≤ t') :
    bucketOf resolution t ≤ bucketOf resolution t' := by
  unfold bucketOf
  rw [Int.tdiv_eq_ediv_of_nonneg ht, Int.tdiv_eq_ediv_of_nonneg (ht.trans h)]
  exact Int.mul_le_mul_of_nonneg_right (Int.ediv_le_ediv hr h) (Int.le_of_lt hr)

/-- The five minutes of a minute are those of its samples. -/
theorem bucketOf_five (ts : ℤ) :
    bucketOf FIVE_MINUTE_SEC (bucketOf MINUTE_SEC ts) = bucketOf FIVE_MINUTE_SEC ts := by
  unfold bucketOf FIVE_MINUTE_SEC MINUTE_SEC
  have hnonneg : ∀ m : ℤ, 0 ≤ m → (m.tdiv 60 * 60).tdiv 300 * 300 = m.tdiv 300 * 300 := by
    intro m hm
    rw [show m.tdiv 60 = m / 60 from Int.tdiv_eq_ediv_of_nonneg hm,
      show m.tdiv 300 = m / 300 from Int.tdiv_eq_ediv_of_nonneg hm,
      Int.tdiv_eq_ediv_of_nonneg (by omega)]
    omega
  obtain h | h := Int.le_total 0 ts
  · exact hnonneg ts h
  · obtain ⟨m, rfl⟩ : ∃ m, ts = -m := ⟨-ts, by omega⟩
    rw [Int.neg_tdiv, Int.neg_tdiv, Int.neg_mul, Int.neg_tdiv, Int.neg_mul, Int.neg_mul,
      hnonneg m (by omega)]

variable {now' : ℤ}

theorem Owed.earlier (h : Owed log now' x) (hnow : now ≤ now') : Owed log now x :=
  ⟨h.logged, h.native, by have := h.retained; omega⟩

/-- Time goes by. -/
theorem Inv.later (h : Inv s log now bound p) (hnow : now ≤ now') : Inv s log now' bound p := by
  have hmono : bucketOf MINUTE_SEC now ≤ bucketOf MINUTE_SEC now' :=
    bucketOf_mono (by decide) (Int.le_of_lt h.pos) hnow
  refine ⟨h.toAssigned, h.pos.trans_le hnow, fun x hx => h.owed x (hx.earlier hnow), h.distinct,
    fun i a hi => ⟨(h.open' i a hi).1.trans hmono, (h.open' i a hi).2⟩, fun r hr => ?_, h.numbers,
    h.bounded⟩
  obtain ⟨hres, hnative, hrest⟩ := h.source r hr
  exact ⟨hres, fun hsource => ⟨(hnative hsource).1.trans_le hmono, (hnative hsource).2⟩, hrest⟩

/-! ### A slot is flushed -/

variable {t : Table key} {r : Bucket}

theorem mem_upsert_replace {new : Bucket} : r ∈ (t.upsert new new.replace new.replace_key).rows ↔
      r = new ∨ (r ∈ t.rows ∧ r.key ≠ new.key) := by
  rw [Table.mem_upsert]
  constructor
  · rintro (h | ⟨r₀, -, hkey, rfl⟩ | ⟨-, rfl⟩)
    · exact .inr h
    · left
      obtain ⟨hts, hrest⟩ := Prod.mk.inj hkey
      obtain ⟨hid, hres⟩ := Prod.mk.inj hrest
      unfold Bucket.replace
      rw [hts, hid, hres]
    · exact .inl rfl
  · rintro (rfl | h)
    · by_cases hkey : r.key ∈ t.rows.map key
      · obtain ⟨r₀, hr₀, hkey⟩ := mem_map.mp hkey
        refine .inr (.inl ⟨r₀, hr₀, hkey, ?_⟩)
        obtain ⟨hts, hrest⟩ := Prod.mk.inj hkey
        obtain ⟨hid, hres⟩ := Prod.mk.inj hrest
        unfold Bucket.replace
        rw [hts, hid, hres]
      · exact .inr (.inr ⟨hkey, rfl⟩)
    · exact .inl h

/-- What the rows hold after a row is put in, or replaced. -/
theorem held_upsert (t : Table key) (row : BucketKey → List Sample) (new : Bucket)
    (f : Bucket → Bucket) (hf : ∀ r, (f r).key = r.key) (items : List Sample) (x : Sample) :
    held ((t.upsert new f hf).rows.map key) (update row new.key items) x +
        (if new.key ∈ t.rows.map key then (row new.key).count x else 0) =
      held (t.rows.map key) row x + items.count x := by
  rw [Table.upsert_keys]
  split
  · next h => exact held_update t.nodup h
  rename_i h
  rw [held_append, held_update_not_mem h, held_cons, update_self, held_nil]
  rfl

theorem lt_of_slot {slot : Option MinuteAcc} (h : s.minutes[i]? = some slot) :
    i ∈ List.range s.minutes.length :=
  mem_range.mpr (List.getElem?_eq_some_iff.mp h).1

/-- A slot with a sample has one that has been recorded here. -/
theorem Inv.exists_native (h : Inv s log now bound p) (hi : s.minutes[i]? = some (some a)) :
    ∃ y ∈ p.acc i, y.origin.isNative = true ∧ y ∈ log ∧ y.wanId = a.wanId ∧
      bucketOf MINUTE_SEC y.ts = a.bucketTs := by
  obtain ⟨hcounts, hall⟩ := h.slot i a hi
  obtain ⟨y, hy⟩ := exists_mem_of_ne_nil _ hcounts.ne_nil
  exact ⟨y, hy, (h.open' i a hi).2.1 y hy, hall y hy⟩

/-- **A slot is flushed**: its samples are those of the row, in the place of the rows of the older
    database that the minute may have had. -/
theorem Inv.flushSlot (h : Inv s log now bound p) (hi : s.minutes[i]? = some (some a))
    (hclosed : a.bucketTs < bucketOf MINUTE_SEC now) (generation : ℤ) :
    Inv { s with
        minutes := s.minutes.set i none
        buckets := s.buckets.upsert (a.bucket generation) (a.bucket generation).replace
          (a.bucket generation).replace_key }
      log now bound
      ⟨update p.acc i [], update p.row (a.bucket generation).key (p.acc i)⟩ := by
  obtain ⟨hcounts, hall⟩ := h.slot i a hi
  obtain ⟨hopen, hnative, hnone⟩ := h.open' i a hi
  obtain ⟨y, hy, hynative, hylog, hyid, hyts⟩ := h.exists_native hi
  generalize hnew : a.bucket generation = new
  have hkey : new.key = (a.bucketTs, a.wanId, MINUTE_SEC) := by rw [← hnew]; rfl
  have hsource : new.source = .nativeCounterRate := by rw [← hnew]; rfl
  have hts : new.bucketTs = a.bucketTs := by rw [← hnew]; rfl
  have hid : new.wanId = a.wanId := by rw [← hnew]; rfl
  have hres : new.resolution = MINUTE_SEC := by rw [← hnew]; rfl
  -- the samples of the row that is replaced are not owed
  have hlost : new.key ∈ s.buckets.rows.map key →
      ∀ x, Owed log now x → (p.row new.key).count x = 0 := by
    intro hmem x hx
    obtain ⟨r, hr, hrkey⟩ := mem_map.mp hmem
    obtain ⟨-, hnativeRow, hlegacy, hminute⟩ := h.source r hr
    obtain ⟨hrts, hrest⟩ := Prod.mk.inj (hrkey.trans hkey)
    obtain ⟨hrid, hrres⟩ := Prod.mk.inj hrest
    have hrsource : r.source = .legacyRateEstimate := by
      cases hcase : r.source with
      | nativeCounterRate => exact absurd (hrkey.trans hkey) (hnone r hr hcase)
      | legacyRateEstimate => rfl
      | minuteRollup => exact absurd hcase (hminute hrres)
    rw [count_eq_zero, ← hrkey]
    intro hxrow
    have hxlegacy := hlegacy hrsource x hxrow
    obtain ⟨-, hxid, hxts⟩ := (h.row r hr).2 x hxrow
    obtain hxnative | hno := hx.native
    · rw [hxlegacy] at hxnative
      cases hxnative
    · apply hno y hylog hynative
      · rw [hyid, hxid, hrid]
      · rw [hyts, ← hrts, ← hxts, hrres]
  have htally : ∀ x, tally
      { s with
        minutes := s.minutes.set i none
        buckets := s.buckets.upsert new new.replace new.replace_key }
      ⟨update p.acc i [], update p.row new.key (p.acc i)⟩ x +
        (if new.key ∈ s.buckets.rows.map key then (p.row new.key).count x else 0) =
      tally s p x := by
    intro x
    have hslots := @held_update _ _ _ _ _ p.acc x i [] nodup_range (lt_of_slot hi)
    have hrows := held_upsert s.buckets p.row new new.replace new.replace_key (p.acc i) x
    unfold tally
    dsimp only
    rw [length_set]
    rw [count_nil] at hslots
    omega
  have hother : ∀ (j : ℕ) b, (s.minutes.set i none)[j]? = some (some b) →
      j ≠ i ∧ s.minutes[j]? = some (some b) := by
    intro j b hj
    obtain ⟨-, hno⟩ | hold := Slots.getElem?_set_cases hj
    · cases hno
    · exact hold
  refine ⟨⟨?_, ?_, ?_, ?_⟩, h.pos, ?_, ?_, ?_, ?_, h.numbers, h.bounded⟩
  · intro j b hj
    obtain ⟨hne, hold⟩ := hother j b hj
    dsimp only
    rw [update_of_ne hne]
    exact h.slot j b hold
  · intro j hj
    dsimp only
    obtain ⟨rfl, -⟩ | ⟨hne, hold⟩ := Slots.getElem?_set_cases hj
    · rw [update_self]
    · rw [update_of_ne hne]
      exact h.free j hold
  · intro r hr
    dsimp only
    obtain rfl | ⟨hold, hne⟩ := mem_upsert_replace.mp hr
    · rw [update_self, ← hnew]
      exact ⟨hcounts, hall⟩
    · rw [update_of_ne hne]
      exact h.row r hold
  · intro x
    have hx := htally x
    have honce := h.once x
    omega
  · intro x hx
    have heq := htally x
    rw [h.owed x hx] at heq
    split at heq
    · next hmem => rwa [hlost hmem x hx, Nat.add_zero] at heq
    · exact heq
  · intro j k b c hj hk hsame
    exact h.distinct j k b c (hother j b hj).2 (hother k c hk).2 hsame
  · intro j b hj
    obtain ⟨hne, hold⟩ := hother j b hj
    obtain ⟨hle, hbnative, hbrows⟩ := h.open' j b hold
    dsimp only
    rw [update_of_ne hne]
    refine ⟨hle, hbnative, fun r hr hrsource => ?_⟩
    obtain rfl | ⟨hr, -⟩ := mem_upsert_replace.mp hr
    · rw [hkey]
      intro heq
      obtain ⟨-, hrest⟩ := Prod.mk.inj heq
      exact hne (h.distinct j i b a hold hi (Prod.mk.inj hrest).1.symm)
    · exact hbrows r hr hrsource
  · intro r hr
    dsimp only
    obtain rfl | ⟨hold, hne⟩ := mem_upsert_replace.mp hr
    · rw [update_self, hts, hsource]
      exact ⟨.inl hres, fun _ => ⟨hclosed, y, hy, hynative⟩, nofun, fun _ => nofun⟩
    · rw [update_of_ne hne]
      exact h.source r hold

/-! ### Minutes are rolled up -/

/-- The key of the row of a group. -/
def groupKey (g : ℤ × WanId) : BucketKey := (g.1, g.2, FIVE_MINUTE_SEC)

variable {g : ℤ × WanId}

theorem groupKey_inj {g' : ℤ × WanId} (h : groupKey g = groupKey g') : g = g' := by
  obtain ⟨hts, hrest⟩ := Prod.mk.inj h
  exact Prod.ext hts (Prod.mk.inj hrest).1

/-- **The condition of a rollup**: no row of five minutes is there yet for the minutes that are due. -/
def Rollable (s : Store) (now : ℤ) : Prop :=
  ∀ r ∈ s.buckets.rows, r.due (rollupCutoff now) = true →
    groupKey r.group ∉ s.buckets.rows.map key

instance (s : Store) (now : ℤ) : Decidable (Rollable s now) :=
  inferInstanceAs (Decidable (∀ _ ∈ _, _))

variable {due : List Bucket}

theorem mem_groupRows : r ∈ groupRows due ↔ ∃ g ∈ (due.map group).dedup, ∃ first rest,
      due.filter (fun r => r.group = g) = first :: rest ∧ r = groupRow g first rest := by
  unfold groupRows
  rw [mem_filterMap]
  constructor
  · rintro ⟨g, hg, hr⟩
    cases hfilter : due.filter fun r => r.group = g with
    | nil =>
      rw [hfilter] at hr
      cases hr
    | cons first rest =>
      rw [hfilter] at hr
      exact ⟨g, hg, first, rest, hfilter, (Option.some.inj hr).symm⟩
  · rintro ⟨g, hg, first, rest, hfilter, rfl⟩
    exact ⟨g, hg, by rw [hfilter]⟩

theorem groupRows_keys (due : List Bucket) :
    (groupRows due).map key = (due.map group).dedup.map groupKey := by
  have hgroups : ∀ g ∈ (due.map group).dedup, ∃ first rest,
      due.filter (fun r => r.group = g) = first :: rest := by
    intro g hg
    obtain ⟨r, hr, rfl⟩ := mem_map.mp (mem_dedup.mp hg)
    apply exists_cons_of_ne_nil
    exact ne_nil_of_mem (mem_filter.mpr ⟨hr, by simp⟩)
  unfold groupRows
  generalize (due.map group).dedup = groups at hgroups
  induction groups with
  | nil => rfl
  | cons g groups ih =>
    obtain ⟨first, rest, hfilter⟩ := hgroups g mem_cons_self
    rw [filterMap_cons_some (by rw [hfilter]), map_cons, map_cons,
      ih fun g hg => hgroups g (mem_cons_of_mem _ hg)]
    rfl

/-- New rows are put in one behind the other. -/
theorem upsertAll_fresh {rows : List Bucket}
    (hnew : ∀ r ∈ rows, r.key ∉ t.rows.map key) (hnodup : (rows.map key).Nodup) :
    (upsertAll t rows).rows = t.rows ++ rows := by
  induction rows generalizing t with
  | nil => exact (append_nil _).symm
  | cons r rows ih =>
    have hfresh := hnew r mem_cons_self
    rw [map_cons, nodup_cons] at hnodup
    have hrows : (t.upsert r r.replace r.replace_key).rows = t.rows ++ [r] := by
      unfold Table.upsert
      rw [dif_neg hfresh]
      rfl
    show (upsertAll (t.upsert r r.replace r.replace_key) rows).rows = _
    rw [ih, hrows, append_assoc]
    · rfl
    · intro r' hr' hmem
      rw [hrows, map_append, mem_append, map_singleton, mem_singleton] at hmem
      obtain hmem | hmem := hmem
      · exact hnew r' (mem_cons_of_mem _ hr') hmem
      · exact hnodup.1 (hmem ▸ mem_map.mpr ⟨r', hr', rfl⟩)
    · exact hnodup.2

/-- The rows that are left after a rollup. -/
theorem rollUp_rows (h : Rollable s now) : (rollUp s now).buckets.rows =
      (s.buckets.rows.filter (fun r => !r.due (rollupCutoff now)) ++
        groupRows (s.buckets.rows.filter (Bucket.due (rollupCutoff now)))).filter
          fun r => !decide (r.resolution = FIVE_MINUTE_SEC ∧ r.bucketTs < now - RETENTION_SEC) := by
  have hnodup : ((groupRows (s.buckets.rows.filter (Bucket.due (rollupCutoff now)))).map
      key).Nodup := by
    rw [groupRows_keys]
    exact (nodup_dedup _).map fun _ _ => groupKey_inj
  have hnew : ∀ r ∈ groupRows (s.buckets.rows.filter (Bucket.due (rollupCutoff now))),
      r.key ∉ s.buckets.rows.map key := by
    intro r hr
    have hkey : r.key ∈ (groupRows _).map key := mem_map.mpr ⟨r, hr, rfl⟩
    rw [groupRows_keys] at hkey
    obtain ⟨g, hg, hgr⟩ := mem_map.mp hkey
    obtain ⟨r₀, hr₀, rfl⟩ := mem_map.mp (mem_dedup.mp hg)
    rw [mem_filter] at hr₀
    rw [← hgr]
    exact h r₀ hr₀.1 hr₀.2
  have hundue : (groupRows (s.buckets.rows.filter (Bucket.due (rollupCutoff now)))).filter
      (fun r => !r.due (rollupCutoff now)) =
      groupRows (s.buckets.rows.filter (Bucket.due (rollupCutoff now))) := by
    rw [filter_eq_self]
    intro r hr
    obtain ⟨g, -, first, rest, -, rfl⟩ := mem_groupRows.mp hr
    unfold Bucket.due groupRow FIVE_MINUTE_SEC MINUTE_SEC
    simp
  show (List.filter _ (List.filter _ (upsertAll _ _).rows)) = _
  rw [upsertAll_fresh hnew hnodup, filter_append, hundue]

variable {row : BucketKey → List Sample}

/-- The samples of rows that are put together. -/
theorem counts_fold {rest : List Bucket} (h : Counts n e xs)
    (hrest : ∀ r ∈ rest, Counts r.sampleCount r.rates (row r.key)) :
    Counts (rest.foldl (fun n r => n + r.sampleCount) n) (rest.foldl (fun e r => e.join r.rates) e)
      (xs ++ rest.flatMap fun r => row r.key) := by
  induction rest generalizing n e xs with
  | nil => rwa [flatMap_nil, append_nil]
  | cons r rest ih =>
    rw [flatMap_cons, ← append_assoc]
    exact ih (h.append (hrest r mem_cons_self)) fun r hr => hrest r (mem_cons_of_mem _ hr)

/-- The samples of the rows after a rollup. -/
def rolledRow (due : List Bucket) (row : BucketKey → List Sample) (k : BucketKey) : List Sample :=
  if k.2.2 = FIVE_MINUTE_SEC ∧ (k.1, k.2.1) ∈ due.map group then
    (due.filter fun r => r.group = (k.1, k.2.1)).flatMap fun r => row r.key
  else row k

theorem rolledRow_group (h : g ∈ (due.map group).dedup) : rolledRow due row (groupKey g) =
      (due.filter fun r => r.group = g).flatMap fun r => row r.key := by
  unfold rolledRow
  rw [if_pos ⟨rfl, mem_dedup.mp h⟩]
  rfl

theorem rolledRow_old (h : Rollable s now) (hr : r ∈ s.buckets.rows) :
    rolledRow (s.buckets.rows.filter (Bucket.due (rollupCutoff now))) row r.key = row r.key := by
  unfold rolledRow
  rw [if_neg]
  rintro ⟨hres, hmem⟩
  obtain ⟨r₀, hr₀, hgroup⟩ := mem_map.mp hmem
  rw [mem_filter] at hr₀
  apply h r₀ hr₀.1 hr₀.2
  rw [hgroup]
  refine mem_map.mpr ⟨r, hr, ?_⟩
  unfold groupKey
  rw [← hres]

/-- What the rows hold after a rollup, in front of the deletion of those that are too old. -/
theorem held_rolled (h : Rollable s now) (row : BucketKey → List Sample) (x : Sample) :
    held (s.buckets.rows.filter (fun r => !r.due (rollupCutoff now)) ++
        groupRows (s.buckets.rows.filter (Bucket.due (rollupCutoff now))))
      (fun r => rolledRow (s.buckets.rows.filter (Bucket.due (rollupCutoff now))) row r.key) x =
      held s.buckets.rows (fun r => row r.key) x := by
  generalize hdue : s.buckets.rows.filter (Bucket.due (rollupCutoff now)) = due
  have hgroups : held (groupRows due) (fun r => rolledRow due row r.key) x =
      held due (fun r => row r.key) x := by
    have hkeys : held (groupRows due) (fun r => rolledRow due row r.key) x =
        held ((groupRows due).map key) (rolledRow due row) x := by
      unfold held
      rw [map_map]
      rfl
    rw [hkeys, groupRows_keys]
    have hmap : held ((due.map group).dedup.map groupKey) (rolledRow due row) x =
        held (due.map group).dedup (fun g => rolledRow due row (groupKey g)) x := by
      unfold held
      rw [map_map]
      rfl
    rw [hmap, held_congr fun g hg => rolledRow_group hg]
    exact held_groups (nodup_dedup _) fun r hr =>
      mem_dedup.mpr (mem_map.mpr ⟨r, hr, rfl⟩)
  have hold : held (s.buckets.rows.filter fun r => !r.due (rollupCutoff now))
      (fun r => rolledRow due row r.key) x =
      held (s.buckets.rows.filter fun r => !r.due (rollupCutoff now)) (fun r => row r.key) x := by
    apply held_congr
    intro r hr
    rw [← hdue]
    exact rolledRow_old h (mem_of_mem_filter hr)
  have hsplit : held s.buckets.rows (fun r => row r.key) x =
      held (s.buckets.rows.filter (Bucket.due (rollupCutoff now))) (fun r => row r.key) x +
        held (s.buckets.rows.filter fun r => !r.due (rollupCutoff now)) (fun r => row r.key) x :=
    held_filter _
  rw [held_append, hgroups, hold, hsplit, hdue, Nat.add_comm]

/-- **Minutes are rolled up.** -/
theorem Inv.rollUp (h : Inv s log now bound p) (hroll : Rollable s now) :
    Inv (rollUp s now) log now bound
      ⟨p.acc, rolledRow (s.buckets.rows.filter (Bucket.due (rollupCutoff now))) p.row⟩ := by
  have hrows := rollUp_rows hroll
  have hheld := held_rolled hroll p.row
  generalize hdue : s.buckets.rows.filter (Bucket.due (rollupCutoff now)) = due at hrows hheld ⊢
  have hdueMem : ∀ r ∈ due, r ∈ s.buckets.rows ∧ r.resolution = MINUTE_SEC := by
    intro r hr
    rw [← hdue, mem_filter] at hr
    have hcond := hr.2
    unfold Bucket.due at hcond
    simp only [decide_eq_true_eq] at hcond
    exact ⟨hr.1, hcond.1⟩
  have hsub : ∀ r ∈ (Metrics.rollUp s now).buckets.rows,
      r ∈ s.buckets.rows.filter (fun r => !r.due (rollupCutoff now)) ++ groupRows due := by
    intro r hr
    rw [hrows] at hr
    exact mem_of_mem_filter hr
  have hmem : ∀ r ∈ s.buckets.rows.filter (fun r => !r.due (rollupCutoff now)) ++ groupRows due,
      (r ∈ s.buckets.rows ∧ rolledRow due p.row r.key = p.row r.key) ∨
      ∃ g ∈ (due.map group).dedup, ∃ first rest,
        due.filter (fun r => r.group = g) = first :: rest ∧ r = groupRow g first rest := by
    intro r hr
    obtain hr | hr := mem_append.mp hr
    · have hold := mem_of_mem_filter hr
      exact .inl ⟨hold, hdue ▸ rolledRow_old hroll hold⟩
    · exact .inr (mem_groupRows.mp hr)
  have hassigned : ∀ r ∈ s.buckets.rows.filter (fun r => !r.due (rollupCutoff now)) ++ groupRows due,
      Counts r.sampleCount r.rates (rolledRow due p.row r.key) ∧
      ∀ x ∈ rolledRow due p.row r.key, x ∈ log ∧ x.wanId = r.wanId ∧
        bucketOf r.resolution x.ts = r.bucketTs := by
    intro r hr
    obtain ⟨hold, hsame⟩ | ⟨g, hg, first, rest, hfilter, rfl⟩ := hmem r hr
    · rw [hsame]
      exact h.row r hold
    have hgroupMem : ∀ r ∈ first :: rest, r ∈ due ∧ r.group = g := by
      intro r hr
      rw [← hfilter, mem_filter] at hr
      exact ⟨hr.1, by simpa using hr.2⟩
    show Counts _ _ (rolledRow due p.row (groupKey g)) ∧ ∀ x ∈ rolledRow due p.row (groupKey g), _
    rw [rolledRow_group hg, hfilter, flatMap_cons]
    constructor
    · exact counts_fold (h.row first (hdueMem first (hgroupMem first mem_cons_self).1).1).1
        fun r hr => (h.row r (hdueMem r (hgroupMem r (mem_cons_of_mem _ hr)).1).1).1
    · intro x hx
      have hflat : x ∈ (first :: rest).flatMap fun r => p.row r.key := hx
      obtain ⟨r, hr, hx⟩ := mem_flatMap.mp hflat
      obtain ⟨hrdue, hrgroup⟩ := hgroupMem r hr
      obtain ⟨hrold, hres⟩ := hdueMem r hrdue
      obtain ⟨hlog, hid, hts⟩ := (h.row r hrold).2 x hx
      rw [hres] at hts
      refine ⟨hlog, ?_, ?_⟩
      · rw [hid, ← hrgroup]
        rfl
      · show bucketOf FIVE_MINUTE_SEC x.ts = g.1
        rw [← bucketOf_five, hts, ← hrgroup]
        rfl
  -- what the rows that are too old hold is not owed
  have htally : ∀ x, tally (Metrics.rollUp s now) ⟨p.acc, rolledRow due p.row⟩ x ≤ tally s p x ∧
      (Owed log now x → tally (Metrics.rollUp s now) ⟨p.acc, rolledRow due p.row⟩ x = tally s p x) := by
    intro x
    have hkept := @held_filter _ _ _ (s.buckets.rows.filter (fun r => !r.due (rollupCutoff now)) ++
      groupRows due) (fun r => rolledRow due p.row r.key) x
      fun r => decide (r.resolution = FIVE_MINUTE_SEC ∧ r.bucketTs < now - RETENTION_SEC)
    rw [hheld, ← hrows] at hkept
    have hkeys : ∀ (rows : List Bucket) (row : BucketKey → List Sample),
        held (rows.map key) row x = held rows (fun r => row r.key) x := by
      intro rows row
      unfold held
      rw [map_map]
      rfl
    unfold tally
    rw [hkeys, hkeys, show (Metrics.rollUp s now).minutes = s.minutes from rfl]
    dsimp only
    refine ⟨by omega, fun hx => ?_⟩
    have hexpired : held ((s.buckets.rows.filter (fun r => !r.due (rollupCutoff now)) ++
        groupRows due).filter fun r =>
          decide (r.resolution = FIVE_MINUTE_SEC ∧ r.bucketTs < now - RETENTION_SEC))
        (fun r => rolledRow due p.row r.key) x = 0 := by
      rw [held_eq_zero]
      intro r hr hxr
      obtain ⟨hr, hold⟩ := mem_filter.mp hr
      obtain ⟨hres, hlt⟩ := of_decide_eq_true hold
      have hbucket := ((hassigned r hr).2 x hxr).2.2
      rw [hres] at hbucket
      have hretained := hx.retained
      omega
    omega
  refine ⟨⟨h.slot, h.free, fun r hr => hassigned r (hsub r hr), fun x => (htally x).1.trans (h.once x)⟩, h.pos,
    fun x hx => ((htally x).2 hx).trans (h.owed x hx), h.distinct, fun i a hi => ?_, fun r hr => ?_,
    h.numbers, h.bounded⟩
  · obtain ⟨hle, hnative, hrowsNative⟩ := h.open' i a hi
    refine ⟨hle, hnative, fun r hr hsource => ?_⟩
    obtain ⟨hold, -⟩ | ⟨g, -, first, rest, -, rfl⟩ := hmem r (hsub r hr)
    · exact hrowsNative r hold hsource
    · cases hsource
  · obtain ⟨hold, hsame⟩ | ⟨g, -, first, rest, -, rfl⟩ := hmem r (hsub r hr)
    · dsimp only
      rw [hsame]
      exact h.source r hold
    · exact ⟨.inr rfl, nofun, nofun, nofun⟩

/-! ### Rows of the older database -/

/-- What is counted has been logged. -/
theorem Assigned.tally_eq_zero (h : Assigned s log p) (hx : x ∉ log) : tally s p x = 0 := by
  unfold tally
  rw [Nat.add_eq_zero_iff, held_eq_zero, held_eq_zero]
  constructor
  · intro i hi hmem
    rw [mem_range] at hi
    cases hslot : s.minutes[i] with
    | none =>
      rw [h.free i (by rw [getElem?_eq_getElem hi, hslot])] at hmem
      cases hmem
    | some a =>
      exact hx ((h.slot i a (by rw [getElem?_eq_getElem hi, hslot])).2 x hmem).1
  · intro k hk hmem
    obtain ⟨r, hr, rfl⟩ := mem_map.mp hk
    exact hx ((h.row r hr).2 x hmem).1

theorem counts_ofLegacy (r : Legacy) :
    Counts 1 (Extremes.single r.upRate r.downRate) [Sample.ofLegacy r] :=
  @counts_single (Sample.ofLegacy r)

/-- The sample that a row of the older database adds: none to a minute that has been observed. -/
def migrated (t : Table key) (r : Legacy) : List Sample :=
  if ∃ r₀ ∈ t.rows, r₀.key = r.bucket.key ∧ r₀.source ≠ .legacyRateEstimate then [] else [Sample.ofLegacy r]

/-- The samples of its minute from then on. -/
def withMigrated (t : Table key) (row : BucketKey → List Sample) (r : Legacy) : List Sample :=
  (if r.bucket.key ∈ t.rows.map key then row r.bucket.key else []) ++ migrated t r

theorem tally_migrateRow (s : Store) (p : Places) (r : Legacy) (x : Sample) :
    tally { s with buckets := s.buckets.upsert r.bucket r.merge r.merge_key }
        ⟨p.acc, update p.row r.bucket.key (withMigrated s.buckets p.row r)⟩ x =
      tally s p x + (migrated s.buckets r).count x := by
  have hrows := held_upsert s.buckets p.row r.bucket r.merge r.merge_key
    (withMigrated s.buckets p.row r) x
  have hcount : (withMigrated s.buckets p.row r).count x =
      (if r.bucket.key ∈ s.buckets.rows.map key then (p.row r.bucket.key).count x else 0) +
        (migrated s.buckets r).count x := by
    unfold withMigrated
    rw [count_append]
    split <;> rfl
  unfold tally
  dsimp only
  omega

/-- A row of the older database, in a minute that has been observed, is not owed. -/
theorem Inv.migrated_eq (h : Inv s log now bound p) (r : Legacy)
    (howed : Owed (log ++ [Sample.ofLegacy r]) now (Sample.ofLegacy r)) : migrated s.buckets r = [Sample.ofLegacy r] := by
  unfold migrated
  rw [if_neg]
  rintro ⟨r₀, hr₀, hkey, hsource⟩
  obtain ⟨hts, hrest⟩ := Prod.mk.inj hkey
  obtain ⟨hid, hres⟩ := Prod.mk.inj hrest
  obtain ⟨-, hnative, -, hminute⟩ := h.source r₀ hr₀
  have hcase : r₀.source = .nativeCounterRate := by
    cases hcase : r₀.source with
    | nativeCounterRate => rfl
    | legacyRateEstimate => exact absurd hcase hsource
    | minuteRollup => exact absurd hcase (hminute hres)
  obtain ⟨-, y, hy, hynative⟩ := hnative hcase
  obtain ⟨hylog, hyid, hyts⟩ := (h.row r₀ hr₀).2 y hy
  obtain hno | hno := howed.native
  · cases hno
  apply hno y (mem_append_left _ hylog) hynative
  · rw [hyid, hid]
    rfl
  · rw [hres] at hyts
    exact hyts.trans hts

theorem Inv.sample_not_mem (h : Inv s log now bound p) {r : Legacy} (hbound : bound < r.rowid) :
    Sample.ofLegacy r ∉ log := by
  intro hmem
  have := h.bounded _ hmem r.rowid rfl
  omega

/-- **A row of the older database is taken over.** -/
theorem Inv.migrateRow (h : Inv s log now bound p) (r : Legacy) (hbound : bound < r.rowid) :
    Inv { s with buckets := s.buckets.upsert r.bucket r.merge r.merge_key } (log ++ [Sample.ofLegacy r]) now
      r.rowid ⟨p.acc, update p.row r.bucket.key (withMigrated s.buckets p.row r)⟩ := by
  have htally := tally_migrateRow s p r
  have hfresh := h.tally_eq_zero (h.sample_not_mem hbound)
  -- every row is an old one, one with a further sample, or a new one
  have hrow : ∀ r' ∈ (s.buckets.upsert r.bucket r.merge r.merge_key).rows, (r' ∈ s.buckets.rows ∧
        update p.row r.bucket.key (withMigrated s.buckets p.row r) r'.key = p.row r'.key) ∨
      (r'.source = .legacyRateEstimate ∧ r'.key = r.bucket.key ∧
        Counts r'.sampleCount r'.rates (withMigrated s.buckets p.row r) ∧
        ∀ x ∈ withMigrated s.buckets p.row r, x = Sample.ofLegacy r ∨ x.origin.isNative = false ∧
          x ∈ log ∧ x.wanId = r'.wanId ∧ bucketOf r'.resolution x.ts = r'.bucketTs) := by
    intro r' hr'
    obtain ⟨hold, hne⟩ | ⟨r₀, hr₀, hkey, rfl⟩ | ⟨hnew, rfl⟩ := Table.mem_upsert.mp hr'
    · exact .inl ⟨hold, by rw [update_of_ne hne]⟩
    · have hmem : r.bucket.key ∈ s.buckets.rows.map key := hkey ▸ mem_map.mpr ⟨r₀, hr₀, rfl⟩
      by_cases hsource : r₀.source = .legacyRateEstimate
      · have hmigrated : migrated s.buckets r = [Sample.ofLegacy r] := by
          unfold migrated
          rw [if_neg]
          rintro ⟨r₁, hr₁, hkey₁, hsource₁⟩
          rw [inj_on_of_nodup_map s.buckets.nodup hr₁ hr₀ (hkey₁.trans hkey.symm)] at hsource₁
          exact hsource₁ hsource
        obtain ⟨hcounts, hall⟩ := h.row r₀ hr₀
        obtain ⟨-, -, hlegacy, -⟩ := h.source r₀ hr₀
        right
        rw [Legacy.merge_key]
        unfold withMigrated Legacy.merge
        rw [if_pos hmem, hmigrated, if_pos hsource, ← hkey]
        refine ⟨hsource, rfl, hcounts.append (counts_ofLegacy r), fun x hx => ?_⟩
        obtain hx | hx := mem_append.mp hx
        · exact .inr ⟨hlegacy hsource x hx, hall x hx⟩
        · exact .inl (mem_singleton.mp hx)
      · left
        have hmigrated : migrated s.buckets r = [] := by
          unfold migrated
          rw [if_pos ⟨r₀, hr₀, hkey, hsource⟩]
        unfold Legacy.merge
        rw [if_neg hsource, hkey, update_self]
        unfold withMigrated
        rw [if_pos hmem, hmigrated, append_nil]
        exact ⟨hr₀, rfl⟩
    · have hmigrated : migrated s.buckets r = [Sample.ofLegacy r] := by
        unfold migrated
        rw [if_neg]
        rintro ⟨r₁, hr₁, hkey₁, -⟩
        exact hnew (hkey₁ ▸ mem_map.mpr ⟨r₁, hr₁, rfl⟩)
      right
      unfold withMigrated
      rw [if_neg hnew, hmigrated, nil_append]
      exact ⟨rfl, rfl, counts_ofLegacy r, fun x hx => .inl (mem_singleton.mp hx)⟩
  refine ⟨⟨fun i a hi => ?_, h.free, fun r' hr' => ?_, fun x => ?_⟩, h.pos, fun x hx => ?_,
    h.distinct, fun i a hi => ?_, fun r' hr' => ?_, ?_, ?_⟩
  · obtain ⟨hcounts, hall⟩ := h.slot i a hi
    exact ⟨hcounts, fun x hx => ⟨mem_append_left _ (hall x hx).1, (hall x hx).2⟩⟩
  · dsimp only
    obtain ⟨hold, hsame⟩ | ⟨-, hkey, hcounts, hall⟩ := hrow r' hr'
    · rw [hsame]
      obtain ⟨hcounts, hall⟩ := h.row r' hold
      exact ⟨hcounts, fun x hx => ⟨mem_append_left _ (hall x hx).1, (hall x hx).2⟩⟩
    · rw [hkey, update_self]
      refine ⟨hcounts, fun x hx => ?_⟩
      obtain rfl | ⟨-, hlog, hrest⟩ := hall x hx
      · obtain ⟨hts, hrest⟩ := Prod.mk.inj hkey
        obtain ⟨hid, hres⟩ := Prod.mk.inj hrest
        refine ⟨mem_append_right _ (mem_singleton_self _), hid.symm, ?_⟩
        rw [hts, hres]
        rfl
      · exact ⟨mem_append_left _ hlog, hrest⟩
  · have hx := htally x
    have honce := h.once x
    have hcount : (migrated s.buckets r).count x = 0 ∨
        x = Sample.ofLegacy r ∧ (migrated s.buckets r).count x ≤ 1 := by
      unfold migrated
      split
      · exact .inl rfl
      by_cases hxr : x = Sample.ofLegacy r
      · subst hxr
        exact .inr ⟨rfl, by simp⟩
      · exact .inl (count_eq_zero.mpr fun hmem => hxr (mem_singleton.mp hmem))
    obtain hzero | ⟨rfl, hle⟩ := hcount
    · omega
    · omega
  · have heq := htally x
    obtain hlog | hlast := mem_append.mp hx.logged
    · have hne : x ≠ Sample.ofLegacy r := by
        rintro rfl
        exact h.sample_not_mem hbound hlog
      have hcount : (migrated s.buckets r).count x = 0 := by
        rw [count_eq_zero]
        unfold migrated
        split
        · exact not_mem_nil
        · exact fun hmem => hne (mem_singleton.mp hmem)
      rw [heq, hcount, Nat.add_zero]
      apply h.owed
      refine ⟨hlog, hx.native.imp id fun hno y hy => hno y (mem_append_left _ hy), hx.retained⟩
    · obtain rfl := mem_singleton.mp hlast
      rw [heq, hfresh, h.migrated_eq r hx]
      simp
  · obtain ⟨hle, hnative, hnone⟩ := h.open' i a hi
    refine ⟨hle, hnative, fun r' hr' hsource => ?_⟩
    obtain ⟨hold, -⟩ | ⟨hlegacy, -⟩ := hrow r' hr'
    · exact hnone r' hold hsource
    · rw [hlegacy] at hsource
      cases hsource
  · dsimp only
    obtain ⟨hold, hsame⟩ | ⟨hlegacy, hkey, -, hall⟩ := hrow r' hr'
    · rw [hsame]
      exact h.source r' hold
    rw [hkey, update_self, hlegacy]
    have hres : r'.resolution = MINUTE_SEC := (Prod.mk.inj (Prod.mk.inj hkey).2).2
    refine ⟨.inl hres, nofun, fun _ x hx => ?_, fun _ => nofun⟩
    obtain rfl | ⟨hno, -⟩ := hall x hx
    · rfl
    · exact hno
  · intro x hx n hn
    rw [length_append]
    obtain hx | hx := mem_append.mp hx
    · exact Nat.lt_add_right _ (h.numbers x hx n hn)
    · obtain rfl := mem_singleton.mp hx
      cases hn
  · intro x hx k hk
    obtain hx | hx := mem_append.mp hx
    · have := h.bounded x hx k hk
      omega
    · obtain rfl := mem_singleton.mp hx
      obtain rfl := Origin.legacy.inj hk
      exact Int.le_refl _

end DreamingOS.Metrics.Samples
