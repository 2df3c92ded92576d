import DreamingOS.Metrics.Counter
import DreamingOS.Lib.Metering

namespace DreamingOS.Metrics

/-!
# Metrics — the byte counters over a run

What is counted of the readings of a WAN, over observations, queries and restarts.

* `Knows` — a raw value and a total are those of some readings;
* `Known` — the counters in memory, or in a file, know the readings that they should;
* `Book` — the readings of every WAN, and how many of them memory, file and rows know of;
* `Event`, `step`, `note`, `Run` — the runs;
* `Meets` — what an observation has to find, for its WAN to be counted.
-/

open Metering List Option
open Function (update update_self update_of_ne)

/-- The readings of a WAN while it was online, the last one first: received and sent. -/
abbrev Readings := List (UInt64 × UInt64)

variable {id : WanId} {rx tx : UInt64} {now : ℤ} {s : State} {c : Counter} {h : Readings}

/-! ### Totals -/

/-- What has been counted in one direction. -/
def counted (xs : List UInt64) : ℕ := total (xs.map UInt64.toNat)

/-- A raw value and a total are those of the readings. -/
def Knows (xs : List UInt64) (raw all : UInt64) : Prop :=
  xs.head? = some raw ∧ all = UInt64.ofNat (counted xs)

/-- In both directions. -/
def Counter.Knows (c : Counter) (h : Readings) : Prop :=
  Metrics.Knows (h.map Prod.fst) c.rawRx c.totalRx ∧ Metrics.Knows (h.map Prod.snd) c.rawTx c.totalTx

def Checkpoint.Knows (r : Checkpoint) (h : Readings) : Prop :=
  Metrics.Knows (h.map Prod.fst) r.rawRx r.totalRx ∧ Metrics.Knows (h.map Prod.snd) r.rawTx r.totalTx

theorem increase_eq (raw bytes : UInt64) :
    increase raw bytes = UInt64.ofNat (gain raw.toNat bytes.toNat) := by
  unfold increase gain
  by_cases hle : raw ≤ bytes
  · rw [if_pos hle, if_pos (UInt64.le_iff_toNat_le.mp hle)]
    apply UInt64.toNat_inj.mp
    rw [UInt64.toNat_sub_of_le _ _ hle, UInt64.toNat_ofNat']
    exact (Nat.mod_eq_of_lt (Nat.lt_of_le_of_lt (Nat.sub_le ..) bytes.toNat_lt)).symm
  · rw [if_neg hle, if_neg (mt UInt64.le_iff_toNat_le.mpr hle)]
    exact UInt64.ofNat_toNat.symm

/-- The readings of one direction are taken up from earlier ones. -/
def TakesUp (y : UInt64) (newer base : List UInt64) : Prop :=
  match base with
  | [] => newer = []
  | r :: _ => Resumes y.toNat r.toNat (newer.map UInt64.toNat)

instance (y : UInt64) (newer base : List UInt64) : Decidable (TakesUp y newer base) :=
  match base with
  | [] => inferInstanceAs (Decidable (newer = []))
  | _ :: _ => inferInstanceAs (Decidable (Resumes ..))

/-- **A total goes on** from that of earlier readings, if these can be taken up. -/
theorem knows_count {y raw all : UInt64} {newer base : List UInt64} (h : Knows base raw all)
    (htakes : TakesUp y newer base) :
    Knows (y :: (newer ++ base)) y (all + increase raw y) := by
  refine ⟨rfl, ?_⟩
  cases base with
  | nil => cases h.1
  | cons r older =>
    obtain rfl := some.inj h.1
    have htotal := (total_taken_up y.toNat r.toNat (newer.map UInt64.toNat)
      (older.map UInt64.toNat)).mpr htakes
    unfold counted
    rw [h.2, increase_eq, ← UInt64.ofNat_add, map_cons, map_append, map_cons, htotal]
    rfl

/-- The first reading is the total. -/
theorem knows_first (y : UInt64) : Knows [y] y y := ⟨rfl, UInt64.ofNat_toNat.symm⟩

/-! ### Runs -/

/-- What happens to the counters. -/
inductive Event where
  | observe (id : WanId) (rx tx : UInt64) (online written : Bool)
  | query (id : WanId) (start stop : ℤ)
  | restart (inOrder written : Bool)

/-- One event; a process that does not end in order saves nothing. -/
def step (s : State) (now : ℤ) : Event → State
  | .observe id rx tx online written => observe s id rx tx online now written
  | .query id start stop => (usageQuery s id start stop).1
  | .restart inOrder written =>
    let s := if inOrder then close s now written else s
    init s.checkpoints s.snapshot now

/-- The readings of the WANs: all of them, those that the counters in memory know of, those of the
    file, and those of the rows; and the WANs that this process has seen online. -/
structure Book where
  (seen live saved : WanId → Readings)
  row : ℤ × WanId → Readings
  current : WanId → Bool

def Book.empty : Book := ⟨fun _ => [], fun _ => [], fun _ => [], fun _ => [], fun _ => false⟩

/-- The counter that an observation finds or makes. -/
def slotOf (s : State) (id : WanId) : Option Counter :=
  (counterFor s.counters id).bind fun slot => slot.2[slot.1]?

/-- The file is written behind an observation. -/
def Book.save (b : Book) (s : State) (now : ℤ) (written : Bool) : Book :=
  if s.saves now written then { b with saved := b.live } else b

/-- A reading of a WAN that is online. -/
def Book.read (b : Book) (s : State) (id : WanId) (rx tx : UInt64) (now : ℤ) (written : Bool) : Book :=
  let readings := (rx, tx) :: b.seen id
  let b := { b with
    seen := update b.seen id readings
    current := update b.current id true }
  match slotOf s id with
  | none => b
  | some c =>
    Book.save
      { b with
        live := update b.live id readings
        row :=
          if (c.observe s.checkpoints.rows id rx tx now).2.isSome then
            update b.row (now, id) readings
          else b.row }
      s now written

/-- What an event adds to the book. -/
def note (s : State) (b : Book) (now : ℤ) : Event → Book
  | .observe id rx tx online written =>
    if id = [] then b
    else if online then b.read s id rx tx now written
    else if (slotOf s id).isSome then b.save s now written
    else b
  | .query _ _ _ => b
  | .restart inOrder written =>
    let saved := if inOrder ∧ State.saves { s with lastSnapshot := 0 } now written then b.live else b.saved
    let s := if inOrder then close s now written else s
    { b with
      saved := saved
      live := if (takenUp s.snapshot now).isSome then saved else fun _ => []
      current := fun _ => false }

/-- The runs whose events satisfy a condition, from an empty table and without a file. -/
inductive Run (Ok : State → Book → ℤ → Event → Prop) : State → Book → ℤ → Prop
  | start (now : ℤ) (hnow : 0 < now) : Run Ok (init Table.empty none now) Book.empty now
  | step (s : State) (b : Book) (now now' : ℤ) (e : Event) (h : Run Ok s b now) (hnow : now ≤ now')
    (hok : Ok s b now' e) : Run Ok (step s now' e) (note s b now' e) now'

/-! ### What an observation has to find -/

/-- The readings that a counter goes on from: those that it knows, or those of its last row. -/
def Book.base (b : Book) (s : State) (id : WanId) : Readings :=
  if b.live id ≠ [] then b.live id
  else
    match lastCheckpoint s.checkpoints.rows id with
    | none => []
    | some r => b.row r.key

/-- An identifier that is stored, and read back from a file, as it is. -/
def plain (id : WanId) : Bool := id ≠ [] ∧ id.length ≤ 31 ∧ ¬ id.any isSpace

/-- **The condition**: the identifier is plain; the WAN has a slot, or one is free; and neither
    direction has started again since the readings that the counter goes on from, unless it is the
    last of these that was lost. -/
def Meets (s : State) (b : Book) (_now : ℤ) : Event → Prop
  | .observe id rx tx online _ =>
    id ≠ [] → plain id = true ∧ ((∃ c ∈ s.counters, c.wanId = id) ∨ s.counters.length < WAN_CAP) ∧
      (online = true → let base := b.base s id
        let newer := (b.seen id).take ((b.seen id).length - base.length)
        TakesUp rx (newer.map Prod.fst) (base.map Prod.fst) ∧
          TakesUp tx (newer.map Prod.snd) (base.map Prod.snd))
  | _ => True

instance (s : State) (b : Book) (now : ℤ) (e : Event) : Decidable (Meets s b now e) :=
  match e with
  | .observe .. => inferInstanceAs (Decidable (_ → _))
  | .query .. => inferInstanceAs (Decidable True)
  | .restart .. => inferInstanceAs (Decidable True)

/-! ### Counters that know their readings -/

/-- The counters of a process or of a file know these readings. -/
structure Known (counters : List Counter) (live : WanId → Readings) : Prop where
  found : ∀ id, live id ≠ [] → ∃ c, counters.find? (fun c => c.wanId = id) = some c ∧
    0 < c.firstTs ∧ c.Knows (live id)
  blank : ∀ id c, live id = [] → counters.find? (fun c => c.wanId = id) = some c → c.firstTs = 0
  late : counters.Pairwise fun c c' => c.wanId = c'.wanId → c'.firstTs = 0
  plain : ∀ c ∈ counters, 0 < c.firstTs → Metrics.plain c.wanId = true
  nonneg : ∀ c ∈ counters, 0 ≤ c.firstTs

/-- What holds in a run. -/
structure Inv (s : State) (b : Book) (now : ℤ) : Prop where
  pos : 0 < now
  known : Known s.counters b.live
  room : s.counters.length ≤ WAN_CAP
  saved : ∀ file, s.snapshot = some file → Known file.counters b.saved ∧
    (∀ c ∈ file.counters, 0 < c.firstTs) ∧ file.counters.length ≤ WAN_CAP
  unsaved : s.snapshot = none → ∀ id, b.saved id = []
  suffix : ∀ id, b.live id <:+ b.seen id ∧ b.saved id <:+ b.seen id
  current : ∀ id, b.current id = true → b.live id = b.seen id ∧ b.seen id ≠ []
  rows : ∀ r ∈ s.checkpoints.rows, 0 < r.bucketTs ∧ r.bucketTs ≤ now ∧ b.row r.key ≠ [] ∧
    r.Knows (b.row r.key) ∧ b.row r.key <:+ b.seen r.wanId
  ordered : ∀ r ∈ s.checkpoints.rows, ∀ r' ∈ s.checkpoints.rows, r.wanId = r'.wanId →
    r.bucketTs ≤ r'.bucketTs → b.row r.key <:+ b.row r'.key

/-! ### Slots -/

/-- What `counter_for` returns, as a list with the slot in it. -/
theorem counterFor_split {counters counters' : List Counter} {i : ℕ}
    (h : counterFor counters id = some (i, counters')) :
    ∃ before c after, counters' = before ++ c :: after ∧ i = before.length ∧
      (∀ x ∈ before, x.wanId ≠ id) ∧
      ((counters = counters' ∧ c.wanId = id) ∨
        (counters = before ∧ after = [] ∧ c = Counter.blank id ∧ counters.length < WAN_CAP)) := by
  unfold counterFor at h
  split at h
  · next i' hfind =>
    obtain ⟨rfl, rfl⟩ := Prod.mk.inj (some.inj h)
    obtain ⟨hlt, hid, hbefore⟩ := findIdx?_eq_some_iff_getElem.mp hfind
    refine ⟨counters.take i', counters[i'], counters.drop (i' + 1), ?_, ?_, ?_, .inl ⟨rfl, ?_⟩⟩
    · rw [getElem_cons_drop, take_append_drop]
    · rw [length_take]
      omega
    · intro x hx hxid
      obtain ⟨j, hj, rfl⟩ := mem_take_iff_getElem.mp hx
      have hno := hbefore j (by omega)
      simp [hxid] at hno
    · simpa using hid
  · next hfind =>
    split at h
    · next hroom =>
      obtain ⟨rfl, rfl⟩ := Prod.mk.inj (some.inj h)
      refine ⟨counters, Counter.blank id, [], rfl, rfl, ?_, .inr ⟨rfl, rfl, rfl, hroom⟩⟩
      intro x hx
      have hno := findIdx?_eq_none_iff.mp hfind x hx
      simpa using hno
    · cases h

theorem plain_length (h : plain id = true) : id.length ≤ 31 := by
  unfold plain at h
  simp only [decide_eq_true_eq] at h
  exact h.2.1

theorem blank_wanId (h : plain id = true) : (Counter.blank id).wanId = id :=
  take_of_length_le (plain_length h)

/-- A slot for a WAN: there is one, and its counter has the identifier. -/
theorem slot_of_meets (hplain : plain id = true) {counters : List Counter}
    (hroom : (∃ c ∈ counters, c.wanId = id) ∨ counters.length < WAN_CAP) :
    ∃ before c after, counterFor counters id = some (before.length, before ++ c :: after) ∧
      c.wanId = id ∧ (∀ x ∈ before, x.wanId ≠ id) ∧
      (counters = before ++ c :: after ∨
        (counters = before ∧ after = [] ∧ c = Counter.blank id ∧ counters.length < WAN_CAP)) := by
  cases hslot : counterFor counters id with
  | none =>
    unfold counterFor at hslot
    split at hslot
    · cases hslot
    next hfind =>
    split at hslot
    · cases hslot
    next hfull =>
    obtain ⟨c, hc, hid⟩ | hlt := hroom
    · have hno := findIdx?_eq_none_iff.mp hfind c hc
      simp [hid] at hno
    · exact absurd hlt hfull
  | some slot =>
    obtain ⟨i, counters'⟩ := slot
    obtain ⟨before, c, after, rfl, rfl, hbefore, hcase⟩ := counterFor_split hslot
    refine ⟨before, c, after, rfl, ?_, hbefore, ?_⟩
    · obtain ⟨-, hid⟩ | ⟨-, -, rfl, -⟩ := hcase
      · exact hid
      · exact blank_wanId hplain
    · obtain ⟨heq, -⟩ | hnew := hcase
      · exact .inl heq
      · exact .inr hnew

theorem find_split {before after : List Counter} (hbefore : ∀ x ∈ before, x.wanId ≠ id)
    (hc : c.wanId = id) (k : WanId) :
    (before ++ c :: after).find? (fun c => c.wanId = k) = if k = id then some c
      else (before.find? fun c => c.wanId = k).or (after.find? fun c => c.wanId = k) := by
  rw [find?_append]
  split
  · next hk =>
    subst hk
    have hnone : before.find? (fun c => c.wanId = k) = none := by
      rw [find?_eq_none]
      intro x hx
      simpa using hbefore x hx
    rw [hnone, find?_cons]
    simp [hc]
  · next hk =>
    rw [find?_cons]
    simp [hc, Ne.symm hk]

section
variable {counters before after : List Counter} {live live' : WanId → Readings}

/-- **The counter of a WAN is written**: the counters know what they should, if this one does. -/
theorem Known.set (h : Known counters live) {c' : Counter} (hid : c.wanId = id)
    (hbefore : ∀ x ∈ before, x.wanId ≠ id)
    (hcase : counters = before ++ c :: after ∨ (counters = before ∧ after = []))
    (hid' : c'.wanId = id) (hplain : Metrics.plain id = true) (hnonneg : 0 ≤ c'.firstTs)
    (hlive : live' id ≠ [] → 0 < c'.firstTs ∧ c'.Knows (live' id))
    (hblank : live' id = [] → c'.firstTs = 0) (hothers : ∀ k, k ≠ id → live' k = live k) :
    Known (before ++ c' :: after) live' := by
  have hmem : ∀ x ∈ before ++ c' :: after, x = c' ∨ x ∈ counters := by
    intro x hx
    rw [mem_append, mem_cons] at hx
    obtain rfl | ⟨rfl, rfl⟩ := hcase
    · rw [mem_append, mem_cons]
      tauto
    · simp only [not_mem_nil] at hx
      tauto
  have hfind : ∀ k, k ≠ id → (before ++ c' :: after).find? (fun c => c.wanId = k) =
      counters.find? fun c => c.wanId = k := by
    intro k hk
    rw [find_split hbefore hid', if_neg hk]
    obtain rfl | ⟨rfl, rfl⟩ := hcase
    · rw [find_split hbefore hid, if_neg hk]
    · rw [find?_nil, or_none]
  have hself : (before ++ c' :: after).find? (fun c => c.wanId = id) = some c' := by
    rw [find_split hbefore hid', if_pos rfl]
  constructor
  · intro k hk
    by_cases hkid : k = id
    · subst hkid
      exact ⟨c', hself, hlive hk⟩
    rw [hfind k hkid]
    rw [hothers k hkid] at hk ⊢
    exact h.found k hk
  · intro k x hk hx
    by_cases hkid : k = id
    · subst hkid
      rw [hself] at hx
      obtain rfl := some.inj hx
      exact hblank hk
    · rw [hfind k hkid] at hx
      rw [hothers k hkid] at hk
      exact h.blank k x hk hx
  · have hlate := h.late
    rw [pairwise_append, pairwise_cons]
    obtain rfl | ⟨rfl, rfl⟩ := hcase
    · rw [pairwise_append, pairwise_cons] at hlate
      refine ⟨hlate.1, ⟨fun y hy hsame => ?_, hlate.2.1.2⟩, fun x hx y hy hsame => ?_⟩
      · exact hlate.2.1.1 y hy (hid.trans (hid'.symm.trans hsame))
      · obtain rfl | hy := mem_cons.mp hy
        · exact absurd (hsame.trans hid') (hbefore x hx)
        · exact hlate.2.2 x hx y (mem_cons_of_mem _ hy) hsame
    · refine ⟨hlate, ⟨nofun, List.Pairwise.nil⟩, fun x hx y hy hsame => ?_⟩
      obtain rfl := mem_singleton.mp hy
      exact absurd (hsame.trans hid') (hbefore x hx)
  · intro x hx hpos
    obtain rfl | hx := hmem x hx
    · rw [hid']
      exact hplain
    · exact h.plain x hx hpos
  · intro x hx
    obtain rfl | hx := hmem x hx
    · exact hnonneg
    · exact h.nonneg x hx

/-- A slot that a query takes knows nothing. -/
theorem Known.append_blank (h : Known counters live) (id : WanId) :
    Known (counters ++ [Counter.blank id]) live := by
  constructor
  · intro k hk
    obtain ⟨c, hc, hknows⟩ := h.found k hk
    refine ⟨c, ?_, hknows⟩
    rw [find?_append, hc, some_or]
  · intro k c hk hc
    rw [find?_append] at hc
    cases hfind : counters.find? fun c => c.wanId = k with
    | some c' =>
      rw [hfind, some_or] at hc
      obtain rfl := some.inj hc
      exact h.blank k c' hk hfind
    | none =>
      rw [hfind, none_or] at hc
      obtain rfl := mem_singleton.mp (mem_of_find?_eq_some hc)
      rfl
  · rw [pairwise_append]
    refine ⟨h.late, pairwise_singleton _ _, fun x hx y hy _ => ?_⟩
    obtain rfl := mem_singleton.mp hy
    rfl
  · intro x hx hpos
    rw [mem_append, mem_singleton] at hx
    obtain hx | rfl := hx
    · exact h.plain x hx hpos
    · exact absurd hpos (Int.lt_irrefl 0)
  · intro x hx
    rw [mem_append, mem_singleton] at hx
    obtain hx | rfl := hx
    · exact h.nonneg x hx
    · exact Int.le_refl 0

/-- A counter that knows something is the one that its WAN finds. -/
theorem Known.find_of_pos (h : Known counters live) (hc : c ∈ counters) (hpos : 0 < c.firstTs) :
    counters.find? (fun x => x.wanId = c.wanId) = some c := by
  cases hfind : counters.find? fun x => x.wanId = c.wanId with
  | none =>
    have hno := find?_eq_none.mp hfind c hc
    simp at hno
  | some x =>
    obtain ⟨hid, before, after, rfl, hbefore⟩ := find?_eq_some_iff_append.mp hfind
    have hlate := h.late
    rw [pairwise_append, pairwise_cons] at hlate
    rw [mem_append, mem_cons] at hc
    obtain hc | rfl | hc := hc
    · have hno := hbefore c hc
      simp at hno
    · rfl
    · have hzero := hlate.2.1.1 c hc (by simpa using hid)
      exact absurd hpos (by rw [hzero]; exact Int.lt_irrefl 0)

/-- What a file knows of. -/
theorem Known.filter (h : Known counters live) :
    Known (counters.filter fun c => 0 < c.firstTs) live := by
  constructor
  · intro k hk
    obtain ⟨c, hc, hpos, hknows⟩ := h.found k hk
    refine ⟨c, ?_, hpos, hknows⟩
    rw [find?_filter]
    obtain ⟨hid, before, after, rfl, hbefore⟩ := find?_eq_some_iff_append.mp hc
    rw [find?_eq_some_iff_append]
    refine ⟨by simpa [hpos] using hid, before, after, rfl, fun x hx => ?_⟩
    have hno := hbefore x hx
    simp only [Bool.not_eq_true', decide_eq_false_iff_not] at hno ⊢
    simp [hno]
  · intro k c hk hc
    have hmem := mem_of_find?_eq_some hc
    have hpos : 0 < c.firstTs := by simpa using of_mem_filter hmem
    have hid : c.wanId = k := by simpa using find?_some hc
    subst hid
    exact h.blank _ c hk (h.find_of_pos (mem_of_mem_filter hmem) hpos)
  · exact h.late.filter _
  · exact fun x hx => h.plain x (mem_of_mem_filter hx)
  · exact fun x hx => h.nonneg x (mem_of_mem_filter hx)

/-! ### Restoring -/

theorem plain_no_space (h : Metrics.plain id = true) : ∀ b ∈ id, isSpace b = false := by
  unfold Metrics.plain at h
  simp only [decide_eq_true_eq, List.any_eq_true, not_exists, not_and, Bool.not_eq_true] at h
  exact h.2.2

theorem readId_plain (h : Metrics.plain id = true) : readId id = some id := by
  have hspace := plain_no_space h
  have hdrop : ∀ xs : WanId, (∀ b ∈ xs, isSpace b = false) → xs.dropWhile isSpace = xs := by
    intro xs hxs
    cases xs with
    | nil => rfl
    | cons b xs => rw [dropWhile_cons_of_neg (by simp [hxs b mem_cons_self])]
  have hcore : ((id.dropWhile isSpace).reverse.dropWhile isSpace).reverse = id := by
    rw [hdrop id hspace, hdrop _ (fun b hb => hspace b (mem_reverse.mp hb)), reverse_reverse]
  have hne : id ≠ [] := by
    unfold Metrics.plain at h
    simp only [decide_eq_true_eq] at h
    exact h.1
  unfold readId
  rw [hcore, if_neg]
  rintro (hn | hr | hempty | hany)
  · exact absurd (hspace _ hn) (by decide)
  · exact absurd (hspace _ hr) (by decide)
  · exact hne hempty
  · obtain ⟨b, hb, hsp⟩ := List.any_eq_true.mp hany
    rw [hspace b hb] at hsp
    cases hsp

/-- What is taken up from the lines of a file are its counters. -/
theorem restoreCounters_eq {savedAt : ℤ} {lines out : List Counter}
    (hlate : (counters ++ lines).Pairwise fun c c' => c.wanId = c'.wanId → c'.firstTs = 0)
    (hplain : ∀ c ∈ lines, Metrics.plain c.wanId = true) (hpos : ∀ c ∈ lines, 0 < c.firstTs)
    (h : restoreCounters savedAt lines counters = some out) : out = counters ++ lines := by
  induction lines generalizing counters with
  | nil =>
    obtain rfl := some.inj h
    exact (append_nil _).symm
  | cons c lines ih =>
    have hc := hplain c mem_cons_self
    unfold restoreCounters at h
    rw [readId_plain hc] at h
    simp only [bind_eq_bind, bind_some] at h
    split at h
    · cases h
    obtain ⟨⟨i, counters'⟩, hslot, h⟩ := bind_eq_some_iff.mp h
    obtain ⟨before, x, after, rfl, rfl, hbefore, hcase⟩ := counterFor_split hslot
    dsimp only at h
    split at h
    · cases h
    have hnew : ∀ y ∈ counters, y.wanId ≠ c.wanId := by
      intro y hy hid
      rw [pairwise_append] at hlate
      have hzero := hlate.2.2 y hy c mem_cons_self hid
      have hone := hpos c mem_cons_self
      omega
    obtain ⟨rfl, hid⟩ | ⟨rfl, rfl, rfl, -⟩ := hcase
    · exact absurd hid (hnew x (mem_append_right _ mem_cons_self))
    · rw [set_append_right _ _ (Nat.le_refl _), Nat.sub_self, set_cons_zero] at h
      have hrest := ih (by simpa using hlate) (fun y hy => hplain y (mem_cons_of_mem _ hy))
        (fun y hy => hpos y (mem_cons_of_mem _ hy)) h
      rw [hrest]
      simp

theorem takenUp_known {snapshot : Option Snapshot} {file : Snapshot} {out : List Counter}
    (hsaved : ∀ file, snapshot = some file → Known file.counters live ∧
      (∀ c ∈ file.counters, 0 < c.firstTs) ∧ file.counters.length ≤ WAN_CAP)
    (h : takenUp snapshot now = some (file, out)) : Known out live ∧ out.length ≤ WAN_CAP := by
  unfold takenUp at h
  obtain ⟨file', hfile, hread⟩ := bind_eq_some_iff.mp h
  obtain ⟨hknown, hpos, hlen⟩ := hsaved file' hfile
  split at hread
  · cases hread
  obtain ⟨counters, hrestore, hpair⟩ := map_eq_some_iff.mp hread
  obtain ⟨rfl, rfl⟩ := Prod.mk.inj hpair
  have hout := restoreCounters_eq (by simpa using hknown.late)
    (fun c hc => hknown.plain c hc (hpos c hc)) hpos hrestore
  rw [nil_append] at hout
  rw [hout]
  exact ⟨hknown, hlen⟩

theorem known_nil : Known [] fun _ => [] :=
  ⟨fun _ h => absurd rfl h, nofun, List.Pairwise.nil, nofun, nofun⟩

end

/-! ### The file -/

/-- The file is written, or not. -/
theorem Inv.save {b : Book} (h : Inv s b now) (written : Bool) :
    Inv (metricsSnapshot s now written) (b.save s now written) now := by
  unfold metricsSnapshot Book.save
  split
  · refine ⟨h.pos, h.known, h.room, ?_, nofun, fun id => ⟨(h.suffix id).1, (h.suffix id).1⟩,
      h.current, h.rows, h.ordered⟩
    intro file hfile
    obtain rfl := some.inj hfile
    refine ⟨h.known.filter, fun c hc => by simpa using of_mem_filter hc, ?_⟩
    exact (length_filter_le _ _).trans h.room
  · exact h

/-- Neither the clock nor the generation matter. -/
theorem Inv.clock {b : Book} (h : Inv s b now) (generation lastWall : ℤ) :
    Inv { s with generation := generation, lastWall := lastWall } b now :=
  ⟨h.pos, h.known, h.room, h.saved, h.unsaved, h.suffix, h.current, h.rows, h.ordered⟩

theorem Inv.later {b : Book} {now' : ℤ} (h : Inv s b now) (hnow : now ≤ now') : Inv s b now' :=
  ⟨h.pos.trans_le hnow, h.known, h.room, h.saved, h.unsaved, h.suffix, h.current,
    fun r hr => ⟨(h.rows r hr).1, (h.rows r hr).2.1.trans hnow, (h.rows r hr).2.2⟩, h.ordered⟩

/-! ### Queries -/

/-- A query takes slots, and does nothing else. -/
theorem Inv.takeSlot {b : Book} (h : Inv s b now) (id : WanId) : Inv (takeSlot s id) b now := by
  unfold Metrics.takeSlot
  cases hslot : counterFor s.counters id with
  | none => exact h
  | some slot =>
    obtain ⟨i, counters⟩ := slot
    obtain ⟨before, c, after, rfl, -, -, ⟨heq, -⟩ | ⟨rfl, rfl, rfl, hroom⟩⟩ := counterFor_split hslot
    · dsimp only
      rw [← heq]
      exact h
    · refine ⟨h.pos, h.known.append_blank id, ?_, h.saved, h.unsaved, h.suffix, h.current, h.rows,
        h.ordered⟩
      rw [length_append, length_singleton]
      exact hroom

theorem usageAll_state {b : Book} (h : Inv s b now) (start stop : ℤ) (ids : List WanId)
    (out : Option Usage) : Inv (usageAll start stop ids s out).1 b now := by
  induction ids generalizing s out with
  | nil => exact h
  | cons id ids ih =>
    have hone : Inv (usageOne s id start stop (out.getD {})).1 b now := h.takeSlot id
    unfold usageAll
    split
    · next heq =>
      rw [heq] at hone
      exact ih hone out
    · next heq =>
      rw [heq] at hone
      exact ih hone _

theorem usageQuery_state {b : Book} (h : Inv s b now) (id : WanId) (start stop : ℤ) :
    Inv (usageQuery s id start stop).1 b now := by
  unfold usageQuery
  split
  · exact h
  split
  · exact h.takeSlot id
  · exact usageAll_state h ..

/-! ### Restarts -/

/-- A process begins. -/
theorem Inv.begin {b : Book} (h : Inv s b now) : Inv (init s.checkpoints s.snapshot now)
      { b with
        live := if (takenUp s.snapshot now).isSome then b.saved else fun _ => []
        current := fun _ => false } now := by
  unfold init
  cases htaken : takenUp s.snapshot now with
  | none =>
    exact ⟨h.pos, known_nil, Nat.zero_le _, h.saved, h.unsaved,
      fun id => ⟨nil_suffix, (h.suffix id).2⟩, nofun, h.rows, h.ordered⟩
  | some pair =>
    obtain ⟨file, counters⟩ := pair
    obtain ⟨hknown, hlen⟩ := takenUp_known h.saved htaken
    exact ⟨h.pos, hknown, hlen, h.saved, h.unsaved, fun id => ⟨(h.suffix id).2, (h.suffix id).2⟩,
      nofun, h.rows, h.ordered⟩

/-- A process ends in order. -/
theorem Inv.close {b : Book} (h : Inv s b now) (written : Bool) :
    Inv (close s now written) (b.save { s with lastSnapshot := 0 } now written) now := by
  have hdeleted : Inv
      { s with
        checkpoints := s.checkpoints.delete fun r => r.bucketTs < now - RETENTION_SEC
        lastSnapshot := 0 } b now :=
    ⟨h.pos, h.known, h.room, h.saved, h.unsaved, h.suffix, h.current,
      fun r hr => h.rows r (mem_of_mem_filter hr),
      fun r hr r' hr' => h.ordered r (mem_of_mem_filter hr) r' (mem_of_mem_filter hr')⟩
  exact hdeleted.save written

theorem Inv.restart {b : Book} (h : Inv s b now) (inOrder written : Bool) :
    Inv (step s now (.restart inOrder written)) (note s b now (.restart inOrder written)) now := by
  unfold step note
  cases inOrder with
  | false => exact h.begin
  | true =>
    have hclosed := (h.close written).begin
    unfold Book.save at hclosed
    dsimp only at hclosed ⊢
    simp only [if_true, true_and]
    split at hclosed
    · next hsaves =>
      rw [if_pos hsaves]
      exact hclosed
    · next hsaves =>
      rw [if_neg hsaves]
      exact hclosed

/-! ### Observations -/

variable {before after : List Counter} {b : Book}

theorem lastCheckpoint_mem {rows : List Checkpoint} {r : Checkpoint}
    (h : lastCheckpoint rows id = some r) : r ∈ rows ∧ r.wanId = id := by
  have hmem := argmax_mem (mem_def.mpr h)
  rw [mem_filter] at hmem
  exact ⟨hmem.1, by simpa using hmem.2⟩

/-- The last readings in front of those that the counter goes on from. -/
theorem newer_append {base seen : Readings} (h : base <:+ seen) :
    seen.take (seen.length - base.length) ++ base = seen := suffix_iff_eq_append.mp h

theorem restarted_count (c : Counter) (rx tx : UInt64) (now : ℤ) (hc : 0 < c.firstTs) :
    (c.count rx tx now).totalRx = c.totalRx + increase c.rawRx rx ∧
      (c.count rx tx now).totalTx = c.totalTx + increase c.rawTx tx ∧
      (c.count rx tx now).firstTs = c.firstTs := by
  unfold Counter.count
  rw [if_neg (Int.ne_of_gt hc)]
  exact ⟨rfl, rfl, rfl⟩

theorem count_raw (c : Counter) (rx tx : UInt64) (now : ℤ) : (c.count rx tx now).rawRx = rx ∧
    (c.count rx tx now).rawTx = tx ∧ (c.count rx tx now).wanId = c.wanId := by
  unfold Counter.count
  split <;> exact ⟨rfl, rfl, rfl⟩

/-- A counter that knows some readings, and takes them up, knows the new ones as well. -/
theorem count_knows {base newer : Readings} (hc : 0 < c.firstTs) (hbase : c.Knows base)
    (hrx : TakesUp rx (newer.map Prod.fst) (base.map Prod.fst))
    (htx : TakesUp tx (newer.map Prod.snd) (base.map Prod.snd)) :
    (c.count rx tx now).Knows ((rx, tx) :: (newer ++ base)) := by
  obtain ⟨htotalRx, htotalTx, -⟩ := restarted_count c rx tx now hc
  obtain ⟨hrawRx, hrawTx, -⟩ := count_raw c rx tx now
  constructor
  · rw [hrawRx, htotalRx, map_cons, map_append]
    exact knows_count hbase.1 hrx
  · rw [hrawTx, htotalTx, map_cons, map_append]
    exact knows_count hbase.2 htx

/-- **An observation counts its WAN**, if the condition is met. -/
theorem Inv.observed (h : Inv s b now) (hc : slotOf s id = some c) (hid : c.wanId = id)
    (hfind : ∀ x, s.counters.find? (fun x => x.wanId = id) = some x → x = c)
    (hzero : s.counters.find? (fun x => x.wanId = id) = none → c.firstTs = 0)
    (hrx : TakesUp rx (((b.seen id).take ((b.seen id).length - (b.base s id).length)).map Prod.fst)
      ((b.base s id).map Prod.fst))
    (htx : TakesUp tx (((b.seen id).take ((b.seen id).length - (b.base s id).length)).map Prod.snd)
      ((b.base s id).map Prod.snd)) :
    0 < (c.observe s.checkpoints.rows id rx tx now).1.firstTs ∧
      (c.observe s.checkpoints.rows id rx tx now).1.wanId = id ∧
      (c.observe s.checkpoints.rows id rx tx now).1.Knows ((rx, tx) :: b.seen id) := by
  unfold Counter.observe
  dsimp only
  by_cases hlive : b.live id = []
  · -- the counter is new to the process
    have hblank : c.firstTs = 0 := by
      cases hsome : s.counters.find? fun x => x.wanId = id with
      | none => exact hzero hsome
      | some x => exact hfind x hsome ▸ h.known.blank id x hlive hsome
    unfold Book.base at hrx htx
    rw [if_neg (not_not.mpr hlive)] at hrx htx
    unfold Counter.seed
    rw [if_neg (not_not.mpr hblank)]
    cases hlast : lastCheckpoint s.checkpoints.rows id with
    | none =>
      rw [hlast] at hrx htx
      have hnothing : b.seen id = [] := by simpa [TakesUp] using hrx
      refine ⟨?_, (count_raw c ..).2.2.trans hid, ?_⟩
      · unfold Counter.count
        rw [if_pos hblank]
        exact h.pos
      · rw [hnothing]
        unfold Counter.count
        rw [if_pos hblank]
        exact ⟨knows_first rx, knows_first tx⟩
    | some r =>
      obtain ⟨hr, hrid⟩ := lastCheckpoint_mem hlast
      obtain ⟨hpos, -, -, hknows, hsuffix⟩ := h.rows r hr
      rw [hlast] at hrx htx
      rw [hrid] at hsuffix
      dsimp only at hrx htx ⊢
      generalize hseeded : ({ c with
        rawRx := r.rawRx
        rawTx := r.rawTx
        totalRx := r.totalRx
        totalTx := r.totalTx
        resetCount := r.resetCount
        checkpointHour := hourOf r.bucketTs
        generation := r.generation
        firstTs := r.bucketTs } : Counter) = seeded
      have hfirst : seeded.firstTs = r.bucketTs := by rw [← hseeded]
      have hwan : seeded.wanId = c.wanId := by rw [← hseeded]
      have hseededKnows : seeded.Knows (b.row r.key) := by
        rw [← hseeded]
        exact hknows
      have hseededPos : 0 < seeded.firstTs := hfirst.symm ▸ hpos
      refine ⟨?_, (count_raw seeded ..).2.2.trans (hwan.trans hid), ?_⟩
      · rw [(restarted_count seeded _ _ _ hseededPos).2.2]
        exact hseededPos
      · have hcount := @count_knows rx tx now seeded _ _ hseededPos hseededKnows hrx htx
        rwa [newer_append hsuffix] at hcount
  · -- the counter has been read before
    obtain ⟨x, hx, hpos, hknows⟩ := h.known.found id hlive
    obtain rfl := hfind x hx
    unfold Book.base at hrx htx
    rw [if_pos hlive] at hrx htx
    have hseed : x.seed s.checkpoints.rows id = x := by
      unfold Counter.seed
      rw [if_pos (Int.ne_of_gt hpos)]
    rw [hseed]
    refine ⟨?_, (count_raw x ..).2.2.trans hid, ?_⟩
    · rw [(restarted_count x _ _ _ hpos).2.2]
      exact hpos
    · have hcount := @count_knows rx tx now x _ _ hpos hknows hrx htx
      rwa [newer_append (h.suffix id).1] at hcount

/-- The counter of a WAN knows a new reading. -/
theorem Inv.write (h : Inv s b now) {counters : List Counter} {readings : Readings}
    (hknown : Known counters (update b.live id readings))
    (hroom : counters.length ≤ WAN_CAP) (hreadings : b.seen id <:+ readings) (hne : readings ≠ []) :
    Inv { s with counters := counters }
      { b with
        seen := update b.seen id readings
        live := update b.live id readings
        current := update b.current id true } now := by
  have hseen : ∀ k, b.seen k <:+ update b.seen id readings k := by
    intro k
    by_cases hk : k = id
    · subst hk
      rw [update_self]
      exact hreadings
    · rw [update_of_ne hk]
  refine ⟨h.pos, hknown, hroom, h.saved, h.unsaved, fun k => ⟨?_, ?_⟩, fun k hk => ?_, fun r hr => ?_,
    h.ordered⟩
  · dsimp only
    by_cases hk : k = id
    · subst hk
      rw [update_self, update_self]
    · rw [update_of_ne hk, update_of_ne hk]
      exact (h.suffix k).1
  · exact (h.suffix k).2.trans (hseen k)
  · dsimp only at hk ⊢
    by_cases hkid : k = id
    · subst hkid
      rw [update_self, update_self]
      exact ⟨rfl, hne⟩
    · rw [update_of_ne hkid] at hk
      rw [update_of_ne hkid, update_of_ne hkid]
      exact h.current k hk
  · obtain ⟨hpos, hle, hrow, hknows, hsuffix⟩ := h.rows r hr
    exact ⟨hpos, hle, hrow, hknows, hsuffix.trans (hseen r.wanId)⟩

theorem mem_writeCheckpoint {rows : Table Checkpoint.key} {new r : Checkpoint}
    (h : r ∈ (writeCheckpoint rows new).rows) : r = new ∨ (r ∈ rows.rows ∧ r.key ≠ new.key) := by
  unfold writeCheckpoint at h
  obtain ⟨hr, hkey⟩ | ⟨r₀, hr₀, hkey, rfl⟩ | ⟨-, rfl⟩ := Table.mem_upsert.mp h
  · exact .inr ⟨hr, hkey⟩
  · left
    obtain ⟨hts, hid⟩ := Prod.mk.inj hkey
    unfold Checkpoint.overwrite
    rw [hts, hid]
  · exact .inl rfl

/-- A checkpoint knows the readings of its WAN. -/
theorem Inv.checkpoint (h : Inv s b now) {new : Checkpoint} (hts : new.bucketTs = now)
    (hid : new.wanId = id) (hknows : new.Knows (b.seen id)) (hne : b.seen id ≠ []) :
    Inv { s with checkpoints := writeCheckpoint s.checkpoints new }
      { b with row := update b.row (now, id) (b.seen id) } now := by
  have hkey : new.key = (now, id) := by
    unfold Checkpoint.key
    rw [hts, hid]
  have hold : ∀ r : Checkpoint, r.key ≠ new.key →
      update b.row (now, id) (b.seen id) r.key = b.row r.key := by
    intro r hr
    rw [update_of_ne (hkey ▸ hr)]
  have hnew : update b.row (now, id) (b.seen id) new.key = b.seen id := by
    rw [hkey, update_self]
  refine ⟨h.pos, h.known, h.room, h.saved, h.unsaved, h.suffix, h.current, ?_, ?_⟩
  · intro r hr
    obtain rfl | ⟨hr, hother⟩ := mem_writeCheckpoint hr
    · dsimp only
      rw [hnew, hts, hid]
      exact ⟨h.pos, Int.le_refl _, hne, hknows, suffix_refl _⟩
    · dsimp only
      rw [hold r hother]
      exact h.rows r hr
  · intro r hr r' hr' hsame hle
    dsimp only
    obtain rfl | ⟨hold₁, hother⟩ := mem_writeCheckpoint hr
    · obtain rfl | ⟨hold₂, hother'⟩ := mem_writeCheckpoint hr'
      · exact suffix_refl _
      · -- a row that is not behind the new one is the new one
        have hle' := (h.rows r' hold₂).2.1
        have hboth : r'.key = r.key := by
          unfold Checkpoint.key
          rw [hsame, show r'.bucketTs = r.bucketTs by omega]
        exact absurd hboth hother'
    · rw [hold r hother]
      obtain rfl | ⟨hold₂, hother'⟩ := mem_writeCheckpoint hr'
      · rw [hnew, ← hid, ← hsame]
        exact (h.rows r hold₁).2.2.2.2
      · rw [hold r' hother']
        exact h.ordered r hold₁ r' hold₂ hsame hle

theorem getElem?_split : (before ++ c :: after)[before.length]? = some c := by
  rw [getElem?_append_right (Nat.le_refl _), Nat.sub_self, getElem?_cons_zero]

theorem set_split (d : Counter) : (before ++ c :: after).set before.length d = before ++ d :: after := by
  rw [set_append_right _ _ (Nat.le_refl _), Nat.sub_self, set_cons_zero]

theorem slotOf_split (hslot : counterFor s.counters id = some (before.length, before ++ c :: after)) :
    slotOf s id = some c := by
  unfold slotOf
  rw [hslot]
  exact getElem?_split

variable {written : Bool}

theorem observe_offline (hid : id ≠ [])
    (hslot : counterFor s.counters id = some (before.length, before ++ c :: after)) :
    observe s id rx tx false now written = metricsSnapshot
        { observeClock s now with
          counters := before ++ { c with online := false, lastTs := now } :: after }
        now written := by
  unfold observe
  rw [if_neg hid]
  dsimp only
  rw [show counterFor (observeClock s now).counters id = _ from hslot]
  dsimp only
  rw [getElem?_split]
  dsimp only
  rw [set_split]
  rfl

theorem observe_online (hid : id ≠ [])
    (hslot : counterFor s.counters id = some (before.length, before ++ c :: after)) :
    observe s id rx tx true now written = match c.observe s.checkpoints.rows id rx tx now with
      | (d, none) =>
        metricsSnapshot { observeClock s now with counters := before ++ d :: after } now written
      | (d, some flag) =>
        metricsSnapshot
          { observeClock s now with
            checkpoints := writeCheckpoint s.checkpoints
              (d.checkpoint now (observeClock s now).generation flag)
            counters := before ++ { d with checkpointHour := hourOf now } :: after }
          now written := by
  unfold observe
  rw [if_neg hid]
  dsimp only
  rw [show counterFor (observeClock s now).counters id = _ from hslot]
  dsimp only
  rw [getElem?_split]
  dsimp only
  rw [if_neg (show ¬ (!true) = true by decide),
    show (observeClock s now).checkpoints = s.checkpoints from rfl]
  obtain ⟨counted, flag⟩ := c.observe s.checkpoints.rows id rx tx now
  cases flag <;> dsimp only <;> rw [set_split]

/-- What an observation finds. -/
theorem slot_facts (h : Inv s b now) (hplain : plain id = true)
    (hroom : (∃ c ∈ s.counters, c.wanId = id) ∨ s.counters.length < WAN_CAP) :
    ∃ before c after, counterFor s.counters id = some (before.length, before ++ c :: after) ∧
      c.wanId = id ∧ (∀ x ∈ before, x.wanId ≠ id) ∧
      (s.counters = before ++ c :: after ∨ (s.counters = before ∧ after = [])) ∧
      (before ++ c :: after).length ≤ WAN_CAP ∧ 0 ≤ c.firstTs ∧
      (∀ x, s.counters.find? (fun x => x.wanId = id) = some x → x = c) ∧
      (s.counters.find? (fun x => x.wanId = id) = none → c.firstTs = 0) := by
  obtain ⟨before, c, after, hslot, hid, hbefore, hcase⟩ := slot_of_meets hplain hroom
  refine ⟨before, c, after, hslot, hid, hbefore, ?_, ?_, ?_, ?_, ?_⟩
  · obtain heq | ⟨heq, hafter, -⟩ := hcase
    · exact .inl heq
    · exact .inr ⟨heq, hafter⟩
  · obtain heq | ⟨heq, rfl, rfl, hlt⟩ := hcase
    · rw [← heq]
      exact h.room
    · rw [length_append, length_singleton, ← heq]
      exact hlt
  · obtain heq | ⟨-, -, rfl, -⟩ := hcase
    · exact h.known.nonneg c (heq ▸ mem_append_right _ mem_cons_self)
    · exact Int.le_refl 0
  · intro x hx
    obtain heq | ⟨heq, -⟩ := hcase
    · rw [heq, find_split hbefore hid, if_pos rfl] at hx
      exact (some.inj hx).symm
    · rw [heq] at hx
      exact absurd (by simpa using find?_some hx) (hbefore x (mem_of_find?_eq_some hx))
  · intro hnone
    obtain heq | ⟨-, -, rfl, -⟩ := hcase
    · rw [heq, find_split hbefore hid, if_pos rfl] at hnone
      cases hnone
    · rfl

theorem Inv.after_offline (h : Inv s b now) (hid : id ≠ [])
    (hmeets : Meets s b now (.observe id rx tx false written)) :
    Inv (step s now (.observe id rx tx false written))
      (note s b now (.observe id rx tx false written)) now := by
  obtain ⟨hplain, hroom, -⟩ := hmeets hid
  obtain ⟨before, c, after, hslot, hwan, hbefore, hcase, hlen, hnonneg, hfind, hzero⟩ :=
    slot_facts h hplain hroom
  have hknown : Known (before ++ { c with online := false, lastTs := now } :: after) b.live := by
    refine h.known.set hwan hbefore hcase hwan hplain hnonneg (fun hlive => ?_) (fun hlive => ?_)
      fun _ _ => rfl
    · obtain ⟨x, hx, hpos, hknows⟩ := h.known.found id hlive
      obtain rfl := hfind x hx
      exact ⟨hpos, hknows⟩
    · show c.firstTs = 0
      cases hsome : s.counters.find? fun x => x.wanId = id with
      | none => exact hzero hsome
      | some x => exact hfind x hsome ▸ h.known.blank id x hlive hsome
  have hset : Inv
      { observeClock s now with
        counters := before ++ { c with online := false, lastTs := now } :: after } b now :=
    ⟨h.pos, hknown, by simpa using hlen, h.saved, h.unsaved, h.suffix, h.current, h.rows, h.ordered⟩
  dsimp only [step, note]
  rw [observe_offline hid hslot, if_neg hid, if_neg Bool.false_ne_true,
    if_pos (by rw [slotOf_split hslot]; rfl)]
  exact hset.save written

theorem Inv.after_online (h : Inv s b now) (hid : id ≠ [])
    (hmeets : Meets s b now (.observe id rx tx true written)) :
    Inv (step s now (.observe id rx tx true written))
      (note s b now (.observe id rx tx true written)) now := by
  obtain ⟨hplain, hroom, htakes⟩ := hmeets hid
  obtain ⟨hrx, htx⟩ := htakes rfl
  obtain ⟨before, c, after, hslot, hwan, hbefore, hcase, hlen, hnonneg, hfind, hzero⟩ :=
    slot_facts h hplain hroom
  have hslotOf := slotOf_split hslot
  obtain ⟨hpos, hdwan, hknows⟩ := h.observed hslotOf hwan hfind hzero hrx htx
  have hreadings : b.seen id <:+ (rx, tx) :: b.seen id := suffix_cons ..
  -- whatever the hour of its checkpoint, the counter knows the new reading
  have hwrite : ∀ d : Counter, d.wanId = id → 0 < d.firstTs → d.Knows ((rx, tx) :: b.seen id) →
      Inv { s with counters := before ++ d :: after }
        { b with
          seen := update b.seen id ((rx, tx) :: b.seen id)
          live := update b.live id ((rx, tx) :: b.seen id)
          current := update b.current id true } now := by
    intro d hd hdpos hdknows
    refine h.write ?_ (by simpa using hlen) hreadings (cons_ne_nil _ _)
    refine h.known.set hwan hbefore hcase hd hplain (Int.le_of_lt hdpos) (fun _ => ?_) (fun hno => ?_)
      fun k hk => update_of_ne hk ..
    · rw [update_self]
      exact ⟨hdpos, hdknows⟩
    · rw [update_self] at hno
      cases hno
  dsimp only [step, note]
  rw [observe_online hid hslot, if_neg hid, if_pos rfl]
  unfold Book.read
  rw [hslotOf]
  dsimp only
  cases hobserve : c.observe s.checkpoints.rows id rx tx now with
  | mk d due =>
    rw [hobserve] at hpos hdwan hknows
    cases due with
    | none =>
      have hdone := (hwrite d hdwan hpos hknows).clock (observeClock s now).generation now
      exact hdone.save written
    | some flag =>
      have hdone := (hwrite { d with checkpointHour := hourOf now } hdwan hpos hknows).clock
        (observeClock s now).generation now
      have hrow := hdone.checkpoint
        (show (d.checkpoint now (observeClock s now).generation flag).bucketTs = now from rfl) hdwan
        (by dsimp only; rw [update_self]; exact hknows)
        (by dsimp only; rw [update_self]; exact cons_ne_nil _ _)
      dsimp only at hrow
      rw [update_self] at hrow
      exact hrow.save written

/-- **What holds in a run whose observations meet the condition.** -/
theorem run_inv (h : Run Meets s b now) : Inv s b now := by
  induction h with
  | start now hnow =>
    exact ⟨hnow, known_nil, Nat.zero_le _, nofun, fun _ _ => rfl,
      fun _ => ⟨nil_suffix, nil_suffix⟩, nofun, nofun, nofun⟩
  | step s b now now' e _ hnow hok ih =>
    have hlater := ih.later hnow
    cases e with
    | observe id rx tx online written =>
      by_cases hid : id = []
      · subst hid
        exact hlater
      cases online with
      | false => exact hlater.after_offline hid hok
      | true => exact hlater.after_online hid hok
    | query id start stop => exact usageQuery_state hlater id start stop
    | restart inOrder written => exact hlater.restart inOrder written

end DreamingOS.Metrics
