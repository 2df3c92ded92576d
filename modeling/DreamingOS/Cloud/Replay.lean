import Mathlib.Data.List.Rotate
import Mathlib.Data.List.Sort

namespace DreamingOS.Cloud

open List

/-!
# Cloud replay guard — the cache of request ids

`cloud_replay_seen`: a fixed ring of ids, each with the second it was recorded in.

* `sweep`, `freeSlot`, `replaySeen` — the two loops of the source, and the function;
* `ring` — the slots in the order of the ring, from the next one to be written on;
* `Queued` — the ring is a queue: free slots, then ids in the order of their recording;
* `Tidy` — a call that has to evict an entry finds the oldest one in the next slot;
* `replaySeen_cases` — **what a call does to the ring**: it answers from the ids that are not
  expired, or drops the oldest slot and appends the new id.
-/

/-! ### The code -/

/-- `CLOUD_ISSUED_AT_SKEW_S`. -/
def issuedAtSkew : ℤ := 300

/-- `CLOUD_REPLAY_CACHE_SIZE`. -/
def replayCacheSize : ℕ := 512

/-- The bytes of a request id. -/
abbrev RequestId := List UInt8

/-- `struct cloud_replay_entry`, when its id is not empty. -/
structure ReplayEntry where
  id : RequestId
  seenAt : ℤ
  deriving DecidableEq

/-- The ring; a slot whose id is empty is `none`. -/
structure ReplayCache where
  entries : List (Option ReplayEntry)
  next : ℕ

def ReplayCache.start : ReplayCache := ⟨List.replicate replayCacheSize none, 0⟩

/-- An entry that no replay can use any more. -/
def ReplayEntry.expired (e : ReplayEntry) (now : ℤ) : Bool := now - e.seenAt > issuedAtSkew * 2

/-- The first loop, from slot `i` on, with the oldest entry so far and its second.  The slots it
    leaves, and the oldest entry, or `none` where the id was found. -/
def sweep (id : RequestId) (now : ℤ) :
    ℕ → ℕ × ℤ → List (Option ReplayEntry) → List (Option ReplayEntry) × Option (ℕ × ℤ)
  | _, oldest, [] => ([], some oldest)
  | i, oldest, none :: slots =>
    let (slots, result) := sweep id now (i + 1) oldest slots
    (none :: slots, result)
  | i, oldest, some e :: slots =>
    if e.expired now then
      let (slots, result) := sweep id now (i + 1) oldest slots
      (none :: slots, result)
    else if e.id = id then (some e :: slots, none)
    else
      let oldest := if oldest.2 = 0 ∨ e.seenAt < oldest.2 then (i, e.seenAt) else oldest
      let (slots, result) := sweep id now (i + 1) oldest slots
      (some e :: slots, result)

/-- The second loop: the first free slot from `next` on. -/
def freeSlot (entries : List (Option ReplayEntry)) (next : ℕ) : Option ℕ :=
  ((List.range replayCacheSize).map fun i => (next + i) % replayCacheSize).find? fun slot =>
    entries[slot]? = some none

/-- Writing a slot. -/
def record (entries : List (Option ReplayEntry)) (slot : ℕ) (e : ReplayEntry) : ReplayCache :=
  ⟨entries.set slot (some e), (slot + 1) % replayCacheSize⟩

theorem record_next (entries : List (Option ReplayEntry)) (slot : ℕ) (e : ReplayEntry) :
    (record entries slot e).next = (slot + 1) % replayCacheSize := rfl

/-- `cloud_replay_seen`: whether the id was served before; a fresh one is recorded. -/
def replaySeen (c : ReplayCache) (id : RequestId) (now : ℤ) : Bool × ReplayCache :=
  if id = [] then (true, c)
  else match sweep id now 0 (0, 0) c.entries with
    | (entries, none) => (true, { c with entries })
    -- a free slot, or else that of the oldest live entry
    | (entries, some oldest) =>
      (false, record entries ((freeSlot entries c.next).getD oldest.1) ⟨id, now⟩)

/-! ### Expiry -/

/-- A slot after the entries that are expired are cleared. -/
def clear (now : ℤ) : Option ReplayEntry → Option ReplayEntry
  | none => none
  | some e => if e.expired now then none else some e

variable {e : ReplayEntry}

theorem expired_mono {now later : ℤ} (h : now ≤ later)
    (hexp : e.expired now = true) : e.expired later = true := by
  simp only [ReplayEntry.expired, decide_eq_true_eq] at hexp ⊢
  omega

theorem clear_clear {now later : ℤ} (h : now ≤ later) (slot : Option ReplayEntry) :
    clear later (clear now slot) = clear later slot := by
  cases slot with
  | none => rfl
  | some e =>
    unfold clear
    by_cases hexp : e.expired now = true
    · simp [hexp, expired_mono h hexp]
    · simp [hexp]

/-- The slots in which an id is found. -/
def Holds (id : RequestId) (now : ℤ) (slots : List (Option ReplayEntry)) : Prop :=
  ∃ e, some e ∈ slots ∧ e.expired now = false ∧ e.id = id

variable {slots : List (Option ReplayEntry)} {now : ℤ} {id : RequestId}

theorem holds_cons_none : Holds id now (none :: slots) ↔ Holds id now slots := by
  simp [Holds]

theorem holds_cons_some : Holds id now (some e :: slots) ↔
      (e.expired now = false ∧ e.id = id) ∨ Holds id now slots := by
  constructor
  · rintro ⟨f, hf, hlive, hid⟩
    rcases mem_cons.mp hf with heq | hf
    · obtain rfl := Option.some.inj heq
      exact .inl ⟨hlive, hid⟩
    · exact .inr ⟨f, hf, hlive, hid⟩
  · rintro (⟨hlive, hid⟩ | ⟨f, hf, hlive, hid⟩)
    · exact ⟨e, mem_cons_self, hlive, hid⟩
    · exact ⟨f, mem_cons_of_mem _ hf, hlive, hid⟩

/-- The oldest entry of a loop over slots that are all to be kept. -/
def pickOldest : ℕ → ℕ × ℤ → List (Option ReplayEntry) → ℕ × ℤ
  | _, oldest, [] => oldest
  | i, oldest, none :: slots => pickOldest (i + 1) oldest slots
  | i, oldest, some e :: slots =>
    pickOldest (i + 1) (if oldest.2 = 0 ∨ e.seenAt < oldest.2 then (i, e.seenAt) else oldest) slots

/-- What the first loop finds: the id, with some expired entries cleared on the way; or nothing,
    with all of them cleared, and the oldest entry of the others. -/
theorem sweep_cases (id : RequestId) (now : ℤ) (i : ℕ) (oldest : ℕ × ℤ)
    (slots : List (Option ReplayEntry)) :
    (Holds id now slots ∧ ∃ left, sweep id now i oldest slots = (left, none) ∧
      left.map (clear now) = slots.map (clear now)) ∨
    (¬ Holds id now slots ∧ sweep id now i oldest slots =
      (slots.map (clear now), some (pickOldest i oldest (slots.map (clear now))))) := by
  induction slots generalizing i oldest with
  | nil => exact .inr ⟨by simp [Holds], rfl⟩
  | cons slot slots ih =>
    cases slot with
    | none =>
      rw [holds_cons_none, sweep]
      rcases ih (i + 1) oldest with ⟨hholds, left, hsweep, hleft⟩ | ⟨hnot, hsweep⟩
      · exact .inl ⟨hholds, none :: left, by rw [hsweep], by simp [hleft]⟩
      · exact .inr ⟨hnot, by rw [hsweep]; rfl⟩
    | some e =>
      rw [holds_cons_some, sweep]
      by_cases hexp : e.expired now = true
      · have hnotlive : ¬ (e.expired now = false ∧ e.id = id) := fun h => by
          rw [hexp] at h
          cases h.1
        rw [if_pos hexp]
        rcases ih (i + 1) oldest with ⟨hholds, left, hsweep, hleft⟩ | ⟨hnot, hsweep⟩
        · refine .inl ⟨.inr hholds, none :: left, by rw [hsweep], ?_⟩
          simp [hleft, clear, hexp]
        · refine .inr ⟨fun h => h.elim hnotlive hnot, ?_⟩
          rw [hsweep]
          simp [clear, hexp, pickOldest]
      rw [if_neg hexp]
      by_cases hid : e.id = id
      · rw [if_pos hid]
        exact .inl ⟨.inl ⟨eq_false_of_ne_true hexp, hid⟩, _, rfl, rfl⟩
      rw [if_neg hid]
      generalize hnewer : (if oldest.2 = 0 ∨ e.seenAt < oldest.2 then (i, e.seenAt) else oldest) =
        newer
      dsimp only
      rcases ih (i + 1) newer with ⟨hholds, left, hsweep, hleft⟩ | ⟨hnot, hsweep⟩
      · refine .inl ⟨.inr hholds, some e :: left, by rw [hsweep], by simp [hleft]⟩
      · refine .inr ⟨fun h => h.elim (fun h => hid h.2) hnot, ?_⟩
        rw [hsweep]
        simp [clear, hexp, pickOldest, hnewer]

/-! ### The ring -/

/-- The slots in the order of the ring: from the next one to be written on, around to the last one
    written. -/
def ring (entries : List (Option ReplayEntry)) (next : ℕ) : List (Option ReplayEntry) :=
  entries.rotate next

/-- The ring is a queue: free slots, and behind them the entries in the order of their times, none
    of them later than `now`. -/
def Queued (now : ℤ) (slots : List (Option ReplayEntry)) : Prop :=
  ∃ (free : ℕ) (live : List ReplayEntry), slots = List.replicate free none ++ live.map some ∧
    live.Pairwise (fun e f => e.seenAt ≤ f.seenAt) ∧ ∀ e ∈ live, e.seenAt ≤ now

/-- A cleared queue is a queue: the expired entries are the first ones. -/
theorem Queued.clear {now later : ℤ} (h : Queued now slots)
    (hle : now ≤ later) : Queued later (slots.map (Cloud.clear later)) := by
  obtain ⟨free, live, rfl, hsorted, hlast⟩ := h
  induction live generalizing free with
  | nil => exact ⟨free, [], by simp [Cloud.clear], List.Pairwise.nil, forall_mem_nil _⟩
  | cons e live ih =>
    obtain ⟨hfirst, hsorted'⟩ := pairwise_cons.mp hsorted
    have hlast' := fun f hf => hlast f (mem_cons_of_mem _ hf)
    by_cases hexp : e.expired later = true
    · -- one more free slot in front of the others
      have hsplit : (List.replicate free none ++ (e :: live).map some).map (Cloud.clear later) =
          (List.replicate (free + 1) none ++ live.map some).map (Cloud.clear later) := by
        simp [Cloud.clear, hexp, replicate_succ']
      rw [hsplit]
      exact ih (free + 1) hsorted' hlast'
    · have hkeep : ∀ f ∈ e :: live, f.expired later = false := by
        intro f hf
        have hseen : e.seenAt ≤ f.seenAt := by
          rcases mem_cons.mp hf with rfl | hf
          · exact Int.le_refl _
          · exact hfirst f hf
        simp only [ReplayEntry.expired, decide_eq_true_eq, decide_eq_false_iff_not] at hexp ⊢
        omega
      have hmap : ((e :: live).map some).map (Cloud.clear later) = (e :: live).map some := by
        rw [List.map_map]
        apply map_congr_left
        intro f hf
        show Cloud.clear later (some f) = some f
        rw [Cloud.clear, hkeep f hf]
        rfl
      refine ⟨free, e :: live, ?_, hsorted, fun f hf => Int.le_trans (hlast f hf) hle⟩
      rw [map_append, hmap]
      simp [Cloud.clear]

/-- Appending an entry of now to a queue whose first slot is given up. -/
theorem Queued.push {slot : Option ReplayEntry}
    (h : Queued now (slot :: slots)) (he : e.seenAt = now) :
    Queued now (slots ++ [some e]) := by
  obtain ⟨free, live, hslots, hsorted, hlast⟩ := h
  have happend : ∀ live : List ReplayEntry, live.Pairwise (fun e f => e.seenAt ≤ f.seenAt) →
      (∀ f ∈ live, f.seenAt ≤ now) →
      (live ++ [e]).Pairwise (fun e f => e.seenAt ≤ f.seenAt) ∧
        ∀ f ∈ live ++ [e], f.seenAt ≤ now := by
    intro live hsorted hlast
    refine ⟨pairwise_append.mpr ⟨hsorted, pairwise_singleton _ _, ?_⟩, ?_⟩
    · intro f hf g hg
      rw [mem_singleton.mp hg, he]
      exact hlast f hf
    · intro f hf
      rcases mem_append.mp hf with hf | hf
      · exact hlast f hf
      · rw [mem_singleton.mp hf, he]
  cases free with
  | zero =>
    cases live with
    | nil => cases hslots
    | cons f live =>
      obtain ⟨-, rfl⟩ := List.cons.inj hslots
      obtain ⟨hsorted', hlast'⟩ := happend live (pairwise_cons.mp hsorted).2
        fun g hg => hlast g (mem_cons_of_mem _ hg)
      exact ⟨0, live ++ [e], by simp, hsorted', hlast'⟩
  | succ free =>
    obtain ⟨-, rfl⟩ := List.cons.inj hslots
    obtain ⟨hsorted', hlast'⟩ := happend live hsorted hlast
    exact ⟨free, live ++ [e], by simp, hsorted', hlast'⟩

/-- A queue with no free slot in front has none at all. -/
theorem Queued.full (h : Queued now (some e :: slots)) : none ∉ some e :: slots := by
  obtain ⟨free, live, hslots, -, -⟩ := h
  cases free with
  | zero =>
    rw [hslots]
    simp
  | succ free => cases hslots

theorem Queued.le_of_mem {e f : ReplayEntry}
    (h : Queued now (some e :: slots)) (hf : some f ∈ slots) : e.seenAt ≤ f.seenAt := by
  obtain ⟨free, live, hslots, hsorted, -⟩ := h
  cases free with
  | succ free => cases hslots
  | zero =>
    cases live with
    | nil => cases hslots
    | cons g live =>
      obtain ⟨hge, rfl⟩ := List.cons.inj hslots
      obtain rfl := Option.some.inj hge
      simp only [List.mem_map, Option.some.injEq, exists_eq_right] at hf
      exact (pairwise_cons.mp hsorted).1 f hf

/-! ### Eviction -/

theorem pickOldest_append (i : ℕ) (oldest : ℕ × ℤ) (pre post : List (Option ReplayEntry)) :
    pickOldest i oldest (pre ++ post) =
      pickOldest (i + pre.length) (pickOldest i oldest pre) post := by
  induction pre generalizing i oldest with
  | nil => rfl
  | cons slot pre ih =>
    have hlength : i + (slot :: pre).length = i + 1 + pre.length := by
      rw [length_cons]
      omega
    rw [hlength]
    cases slot with
    | none => exact ih (i + 1) oldest
    | some e => exact ih (i + 1) _

/-- Over entries later than `m`, no entry of `m` or before is found. -/
theorem pickOldest_later {m : ℤ} (i : ℕ) (oldest : ℕ × ℤ) (slots : List (Option ReplayEntry))
    (hstart : oldest.2 = 0 ∨ m < oldest.2) (hlater : ∀ e, some e ∈ slots → m < e.seenAt) :
    (pickOldest i oldest slots).2 = 0 ∨ m < (pickOldest i oldest slots).2 := by
  induction slots generalizing i oldest with
  | nil => exact hstart
  | cons slot slots ih =>
    have hlater' := fun e he => hlater e (mem_cons_of_mem _ he)
    cases slot with
    | none => exact ih (i + 1) oldest hstart hlater'
    | some e =>
      apply ih (i + 1) _ _ hlater'
      split
      · exact .inr (hlater e mem_cons_self)
      · exact hstart

attribute [local simp] pickOldest in
/-- An entry of second `oldest.2` stays the oldest over entries that are not earlier. -/
theorem pickOldest_same (i : ℕ) (oldest : ℕ × ℤ) (slots : List (Option ReplayEntry))
    (hstart : oldest.2 ≠ 0) (hlater : ∀ e, some e ∈ slots → oldest.2 ≤ e.seenAt) :
    pickOldest i oldest slots = oldest := by
  induction slots generalizing i with
  | nil => rfl
  | cons slot slots ih =>
    have hlater' := fun e he => hlater e (mem_cons_of_mem _ he)
    cases slot with
    | none => exact ih (i + 1) hlater'
    | some e =>
      have hnot : ¬ (oldest.2 = 0 ∨ e.seenAt < oldest.2) := by
        have := hlater e mem_cons_self
        omega
      rw [pickOldest, if_neg hnot]
      exact ih (i + 1) hlater'

/-- The slots as the second loop sees them. -/
def ReplayCache.cleared (c : ReplayCache) (now : ℤ) : List (Option ReplayEntry) :=
  c.entries.map (clear now)

/-- The entry in the next slot is earlier than those of the slots before it, and its second is not
    the one the loop takes for none yet. -/
def NextOldest (c : ReplayCache) (now : ℤ) : Prop :=
  ∀ e, (c.cleared now)[c.next]? = some (some e) →
    (∀ f, some f ∈ (c.cleared now).take c.next → e.seenAt < f.seenAt) ∧
      (e.seenAt ≠ 0 ∨ c.next + 1 = replayCacheSize)

/-- Where a call is to evict an entry, the oldest one is in the next slot of the ring. -/
def Tidy (c : ReplayCache) (id : RequestId) (now : ℤ) : Prop :=
  id ≠ [] → ¬ Holds id now c.entries → none ∉ c.cleared now → NextOldest c now

/-! ### One call -/

/-- Writing a slot and stepping on makes it the last one of the ring. -/
theorem rotate_set {α : Type*} (l : List α) (n : ℕ) (x : α) (hn : n < l.length) :
    (l.set n x).rotate ((n + 1) % l.length) = (l.rotate n).tail ++ [x] := by
  obtain ⟨pre, y, post, rfl, rfl⟩ : ∃ pre y post, l = pre ++ y :: post ∧ pre.length = n :=
    ⟨l.take n, l[n], l.drop (n + 1), by simp, length_take_of_le (Nat.le_of_lt hn)⟩
  have hset : (pre ++ y :: post).set pre.length x = (pre ++ [x]) ++ post := by simp
  have hlength : (pre ++ y :: post).length = ((pre ++ [x]) ++ post).length := by simp
  calc ((pre ++ y :: post).set pre.length x).rotate ((pre.length + 1) % (pre ++ y :: post).length)
      = ((pre ++ [x]) ++ post).rotate (pre ++ [x]).length := by
        rw [hset, hlength, rotate_mod, length_append, length_singleton]
    _ = post ++ (pre ++ [x]) := rotate_append_length_eq _ _
    _ = ((pre ++ y :: post).rotate pre.length).tail ++ [x] := by
        rw [rotate_append_length_eq]
        simp

/-- The slot in front of the ring. -/
theorem rotate_head {α : Type*} (l : List α) (n : ℕ) (hn : n < l.length) :
    ∃ y pre post, l = pre ++ y :: post ∧ pre.length = n ∧ l.rotate n = y :: (post ++ pre) := by
  refine ⟨l[n], l.take n, l.drop (n + 1), by simp, length_take_of_le (Nat.le_of_lt hn), ?_⟩
  rw [rotate_eq_drop_append_take (Nat.le_of_lt hn), drop_eq_getElem_cons hn]
  rfl

/-- What holds of the cache after a call at `now`. -/
structure ReplayCache.Inv (c : ReplayCache) (now : ℤ) : Prop where
  length : c.entries.length = replayCacheSize
  next : c.next < replayCacheSize
  queued : Queued now (ring (c.cleared now) c.next)

variable {c : ReplayCache}

theorem ReplayCache.cleared_cleared {now later : ℤ} (h : now ≤ later) :
    (c.cleared now).map (Cloud.clear later) = c.cleared later := by
  rw [ReplayCache.cleared, List.map_map]
  exact map_congr_left fun slot _ => clear_clear h slot

theorem ring_cleared {now later : ℤ} (h : now ≤ later) (next : ℕ) :
    (ring (c.cleared now) next).map (clear later) = ring (c.cleared later) next := by
  rw [ring, map_rotate, ReplayCache.cleared_cleared h]
  rfl

theorem ReplayCache.start_inv (now : ℤ) : ReplayCache.start.Inv now where
  length := length_replicate
  next := by decide
  queued := by
    have hcleared : ReplayCache.start.cleared now = List.replicate replayCacheSize none := by
      simp [ReplayCache.cleared, ReplayCache.start, clear]
    rw [hcleared]
    show Queued now ((List.replicate replayCacheSize none).rotate 0)
    exact ⟨replayCacheSize, [], by simp, List.Pairwise.nil, forall_mem_nil _⟩

/-- The cache keeps its invariant while nothing is recorded. -/
theorem ReplayCache.Inv.later {now later : ℤ} (h : c.Inv now)
    (hle : now ≤ later) : c.Inv later where
  length := h.length
  next := h.next
  queued := by
    rw [← ring_cleared hle]
    exact h.queued.clear hle

theorem freeSlot_full {entries : List (Option ReplayEntry)} {next : ℕ} (h : none ∉ entries) :
    freeSlot entries next = none := by
  refine find?_eq_none.mpr fun i _ => ?_
  simp only [decide_eq_true_eq]
  exact fun hi => h (mem_of_getElem? hi)

/-- The slot a fresh id is written to is the next one of the ring. -/
theorem slot_eq_next (h : c.Inv now) (htidy : none ∉ c.cleared now → NextOldest c now) :
    (freeSlot (c.cleared now) c.next).getD (pickOldest 0 (0, 0) (c.cleared now)).1 = c.next := by
  have hlength : (c.cleared now).length = replayCacheSize := by
    rw [ReplayCache.cleared, length_map, h.length]
  obtain ⟨slot, pre, post, hcleared, hpre, hrotate⟩ :=
    rotate_head (c.cleared now) c.next (by rw [hlength]; exact h.next)
  have hget : (c.cleared now)[c.next]? = some slot := by
    rw [hcleared, ← hpre]
    simp
  have hqueued : Queued now (slot :: (post ++ pre)) := hrotate ▸ h.queued
  cases slot with
  | none =>
    -- the slot is free, and the search begins with it
    have hfirst : freeSlot (c.cleared now) c.next = some c.next := by
      have hmod : (c.next + 0) % (511 + 1) = c.next := Nat.mod_eq_of_lt h.next
      unfold freeSlot
      rw [show replayCacheSize = 511 + 1 from rfl, range_succ_eq_map, map_cons, find?_cons_of_pos]
      · show some ((c.next + 0) % (511 + 1)) = some c.next
        rw [hmod]
      · show decide ((c.cleared now)[(c.next + 0) % (511 + 1)]? = some none) = true
        rw [hmod, hget]
        rfl
    rw [hfirst, Option.getD_some]
  | some e =>
    have hnone : none ∉ c.cleared now := by
      have := hqueued.full
      rw [hcleared]
      simpa [or_comm, or_assoc] using this
    obtain ⟨hbefore, hzero⟩ := htidy hnone e hget
    have htake : (c.cleared now).take c.next = pre := by rw [hcleared, ← hpre, take_left]
    rw [htake] at hbefore
    have hpick : pickOldest 0 (0, 0) (c.cleared now) = (c.next, e.seenAt) := by
      have hacc := pickOldest_later 0 (0, 0) pre (.inl rfl) hbefore
      rw [hcleared, pickOldest_append, pickOldest, if_pos hacc, Nat.zero_add, hpre]
      rcases hzero with hzero | hlast
      · exact pickOldest_same _ _ _ hzero fun f hf =>
          hqueued.le_of_mem (mem_append_left _ hf)
      · -- no slot is left
        have hpost : post = [] := by
          rw [hcleared, length_append, length_cons] at hlength
          exact eq_nil_of_length_eq_zero (by omega)
        rw [hpost]
        rfl
    rw [freeSlot_full hnone, Option.getD_none, hpick]

/-- **What a call does to the ring.**  It finds the id and leaves the ring, or drops the slot in
    front and appends the id. -/
theorem replaySeen_cases (h : c.Inv now) (hid : id ≠ []) (htidy : Tidy c id now) :
    ((replaySeen c id now).2.Inv now) ∧ ((Holds id now c.entries ∧ (replaySeen c id now).1 = true ∧
        ring ((replaySeen c id now).2.cleared now) (replaySeen c id now).2.next =
          ring (c.cleared now) c.next) ∨
      (¬ Holds id now c.entries ∧
        replaySeen c id now = (false, record (c.cleared now) c.next ⟨id, now⟩) ∧
        ring ((replaySeen c id now).2.cleared now) (replaySeen c id now).2.next =
          (ring (c.cleared now) c.next).tail ++ [some ⟨id, now⟩])) := by
  have hcleared_length : (c.cleared now).length = replayCacheSize := by
    rw [ReplayCache.cleared, length_map, h.length]
  rcases sweep_cases id now 0 (0, 0) c.entries with ⟨hholds, left, hsweep, hleft⟩ | ⟨hnot, hsweep⟩
  · have hseen : replaySeen c id now = (true, ⟨left, c.next⟩) := by
      rw [replaySeen, if_neg hid, hsweep]
    have hsame : ReplayCache.cleared ⟨left, c.next⟩ now = c.cleared now := hleft
    have hlength : left.length = replayCacheSize := by
      have hlength := congrArg List.length hleft
      rw [length_map, length_map] at hlength
      exact hlength.trans h.length
    rw [hseen]
    refine ⟨⟨hlength, h.next, ?_⟩, .inl ⟨hholds, rfl, by rw [hsame]⟩⟩
    rw [hsame]
    exact h.queued
  · have hseen : replaySeen c id now = (false, record (c.cleared now) c.next ⟨id, now⟩) := by
      have hslot := slot_eq_next h (htidy hid hnot)
      rw [replaySeen, if_neg hid, hsweep]
      show (false, record (c.cleared now) ((freeSlot (c.cleared now) c.next).getD
        (pickOldest 0 (0, 0) (c.cleared now)).1) ⟨id, now⟩) = _
      rw [hslot]
    have hlive : ReplayEntry.expired ⟨id, now⟩ now = false := by
      simp [ReplayEntry.expired, issuedAtSkew]
    -- the slots that are written are clear of what has expired
    have hclear : (record (c.cleared now) c.next ⟨id, now⟩).cleared now =
        (c.cleared now).set c.next (some ⟨id, now⟩) := by
      show ((c.cleared now).set c.next (some ⟨id, now⟩)).map (clear now) = _
      rw [map_set, ReplayCache.cleared_cleared (Int.le_refl now), clear, hlive]
      rfl
    have hring : ring ((record (c.cleared now) c.next ⟨id, now⟩).cleared now)
        (record (c.cleared now) c.next ⟨id, now⟩).next =
          (ring (c.cleared now) c.next).tail ++ [some ⟨id, now⟩] := by
      rw [hclear, ring, record_next, ← hcleared_length]
      exact rotate_set _ _ _ (by rw [hcleared_length]; exact h.next)
    rw [hseen]
    refine ⟨⟨?_, Nat.mod_lt _ (by decide), ?_⟩, .inr ⟨hnot, rfl, hring⟩⟩
    · show ((c.cleared now).set c.next (some ⟨id, now⟩)).length = replayCacheSize
      rw [length_set, hcleared_length]
    · rw [hring]
      obtain ⟨slot, pre, post, -, -, hrotate⟩ :=
        rotate_head (c.cleared now) c.next (by rw [hcleared_length]; exact h.next)
      have hqueued : Queued now (slot :: (post ++ pre)) := hrotate ▸ h.queued
      rw [ring, hrotate]
      exact hqueued.push rfl

/-- Where all ids were recorded in the second of the call, the one evicted is in the lowest slot,
    however old it is in the ring. -/
theorem replaySeen_tie (hid : id ≠ []) (hnow : now ≠ 0) (hne : c.entries ≠ [])
    (hall : ∀ slot ∈ c.entries, ∃ e, slot = some e ∧ e.seenAt = now ∧ e.id ≠ id) :
    replaySeen c id now = (false, record c.entries 0 ⟨id, now⟩) := by
  have hcleared : c.entries.map (clear now) = c.entries := by
    have hkeep : ∀ slot ∈ c.entries, clear now slot = slot := by
      intro slot hslot
      obtain ⟨e, rfl, rfl, -⟩ := hall slot hslot
      simp [clear, ReplayEntry.expired, issuedAtSkew]
    rw [map_congr_left hkeep, List.map_id']
  rcases sweep_cases id now 0 (0, 0) c.entries with ⟨⟨e, he, -, heid⟩, -⟩ | ⟨-, hsweep⟩
  · obtain ⟨f, hf, -, hother⟩ := hall _ he
    obtain rfl := Option.some.inj hf
    exact absurd heid hother
  · have hfull : none ∉ c.entries := fun hmem => by
      obtain ⟨e, he, -⟩ := hall none hmem
      cases he
    rw [hcleared] at hsweep
    have hpick : (pickOldest 0 (0, 0) c.entries).1 = 0 := by
      cases hentries : c.entries with
      | nil => exact absurd hentries hne
      | cons slot slots =>
        rw [hentries] at hall
        obtain ⟨e, rfl, rfl, -⟩ := hall slot mem_cons_self
        rw [pickOldest, if_pos (.inl rfl), pickOldest_same _ _ _ hnow]
        intro f hf
        obtain ⟨g, hg, hsame, -⟩ := hall _ (mem_cons_of_mem _ hf)
        obtain rfl := Option.some.inj hg
        exact Int.le_of_eq hsame.symm
    rw [replaySeen, if_neg hid, hsweep]
    show (false, record c.entries ((freeSlot c.entries c.next).getD
      (pickOldest 0 (0, 0) c.entries).1) ⟨id, now⟩) = _
    rw [freeSlot_full hfull, Option.getD_none, hpick]

/-- The next id takes the slot of the one just recorded. -/
theorem replaySeen_tie_again {entries : List (Option ReplayEntry)} {last id : RequestId}
    (hid : id ≠ []) (hnow : now ≠ 0) (hne : entries ≠ []) (hlast : last ≠ id)
    (hall : ∀ slot ∈ entries, ∃ e, slot = some e ∧ e.seenAt = now ∧ e.id ≠ id) :
    replaySeen (record entries 0 ⟨last, now⟩) id now = (false, record entries 0 ⟨id, now⟩) := by
  have hset : (record entries 0 ⟨last, now⟩).entries = entries.set 0 (some ⟨last, now⟩) := rfl
  rw [replaySeen_tie hid hnow]
  · rw [hset]
    simp [record]
  · rw [hset]
    simpa using hne
  · intro slot hslot
    rcases mem_or_eq_of_mem_set hslot with hslot | rfl
    · exact hall slot hslot
    · exact ⟨_, rfl, rfl, hlast⟩

end DreamingOS.Cloud
