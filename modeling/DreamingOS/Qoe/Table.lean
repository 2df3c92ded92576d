import DreamingOS.Qoe.Cache

namespace DreamingOS.Qoe

/-!
# The path-quality cache — its probe loops

The cache as a table with open addressing, and what the three probe loops find in it.

* `cells`, `Table` — the cells of the cache, and a capacity that is a power of two;
* `findExact_eq`, `lookupExact_eq` — a search is the walk of its key;
* `Chosen`, `findSlot_chosen` — the slot that a record is put into.
-/

open Probing List Option

variable {entries : List Entry} {c : Cache} {k : Key} {now i : ℕ} {e : Entry}

/-! ### Cells -/

/-- What is in a slot. -/
def Entry.cell (e : Entry) : Cell Entry := if e.free then .empty else .live e

def cells (entries : List Entry) : List (Cell Entry) := entries.map Entry.cell

/-- The entry of a key. -/
def present (c : Cache) (k : Key) : Option Entry := (findExact c k).map Prod.snd

theorem cell_live : e.free = false → e.cell = .live e := by
  intro h
  unfold Entry.cell
  rw [h]
  rfl

theorem cell_free : e.free = true → e.cell = .empty := by
  intro h
  unfold Entry.cell
  rw [h]
  rfl

theorem cells_live : (cells entries)[i]? = some (.live e) ↔ entries[i]? = some e ∧ e.free = false := by
  unfold cells
  rw [getElem?_map]
  constructor
  · intro h
    obtain ⟨e', he', hcell⟩ := map_eq_some_iff.mp h
    cases hfree : e'.free with
    | true =>
      rw [cell_free hfree] at hcell
      cases hcell
    | false =>
      rw [cell_live hfree] at hcell
      obtain rfl := Cell.live.inj hcell
      exact ⟨he', hfree⟩
  · rintro ⟨h, hfree⟩
    rw [h, map_some, cell_live hfree]

theorem length_cells : (cells entries).length = entries.length := length_map ..

theorem cells_set : cells (entries.set i e) = (cells entries).set i e.cell := map_set ..

/-! ### Searches -/

theorem probes_eq {j : ℕ} (h : c.capacity = 2 ^ j) :
    probes c.capacity k = places (cells c.entries).length (start c.capacity k) := by
  unfold probes places
  rw [length_cells, ← Cache.capacity, h]
  exact map_congr_left fun p _ => Nat.and_two_pow_sub_one_eq_mod _ j

/-- What a walk has come to. -/
def walkEntry (entries : List Entry) : Walk → Option (ℕ × Entry)
  | .found i => entries[i]?.map (i, ·)
  | .missing _ => none

theorem findExactLoop_eq {slots : List ℕ} (free : Option ℕ) : findExactLoop entries k slots =
      walkEntry entries (walk Entry.key (cells entries) k slots free) := by
  induction slots generalizing free with
  | nil => rfl
  | cons slot slots ih =>
    unfold findExactLoop walk cells
    rw [getElem?_map]
    cases hslot : entries[slot]? with
    | none => rfl
    | some e =>
      dsimp only [map_some]
      cases hfree : e.free with
      | true =>
        rw [cell_free hfree, if_pos rfl]
        rfl
      | false =>
        rw [cell_live hfree, if_neg Bool.false_ne_true]
        dsimp only
        by_cases hk : e.key = k
        · rw [if_pos hk, if_pos hk]
          unfold walkEntry
          dsimp only
          rw [hslot]
          rfl
        · rw [if_neg hk, if_neg hk]
          exact ih free

/-- **A search is the walk of its key.** -/
theorem findExact_eq {j : ℕ} (h : c.capacity = 2 ^ j) : findExact c k =
      walkEntry c.entries (locate Entry.key (start c.capacity) (cells c.entries) k) := by
  unfold findExact
  rw [probes_eq h]
  exact findExactLoop_eq none

/-- A search meets no free slot in front of the entry that it finds. -/
theorem findExactLoop_before {slots : List ℕ} (h : findExactLoop entries k slots = some (i, e)) :
    ∃ before after, slots = before ++ i :: after ∧
      ∀ j ∈ before, ∃ e, entries[j]? = some e ∧ e.free = false := by
  induction slots with
  | nil => cases h
  | cons slot slots ih =>
    unfold findExactLoop at h
    cases hslot : entries[slot]? with
    | none =>
      rw [hslot] at h
      cases h
    | some e₀ =>
      rw [hslot] at h
      dsimp only at h
      split at h
      · cases h
      rename_i hfree
      split at h
      · obtain ⟨rfl, -⟩ := Prod.mk.inj (some.inj h)
        exact ⟨[], slots, rfl, nofun⟩
      obtain ⟨before, after, rfl, hbefore⟩ := ih h
      refine ⟨slot :: before, after, rfl, fun j hj => ?_⟩
      obtain rfl | hj := mem_cons.mp hj
      · exact ⟨e₀, hslot, Bool.eq_false_of_not_eq_true hfree⟩
      · exact hbefore j hj

theorem present_eq {j : ℕ} (h : c.capacity = 2 ^ j) :
    present c k = find Entry.key (start c.capacity) (cells c.entries) k := by
  unfold present
  rw [findExact_eq h]
  unfold find
  cases hwalk : locate Entry.key (start c.capacity) (cells c.entries) k with
  | missing _ => rfl
  | found i =>
    obtain ⟨s, hcell, -⟩ := walk_found hwalk
    dsimp only
    rw [hcell]
    unfold walkEntry
    dsimp only
    rw [(cells_live.mp hcell).1]
    rfl

/-- A lookup of one key: its entry is touched, unless it has expired. -/
theorem lookupExact_eq : lookupExact c k now = match findExact c k with
      | none => (none, c)
      | some (i, e) =>
        if e.validUntilMs ≤ now then (none, { c with expirations := c.expirations + 1 })
        else (some { e with lastUsedMs := now },
          { c with entries := c.entries.set i { e with lastUsedMs := now } }) := by
  unfold lookupExact findExact
  generalize probes c.capacity k = slots
  induction slots with
  | nil => rfl
  | cons slot slots ih =>
    unfold lookupExactLoop findExactLoop
    cases hslot : c.entries[slot]? with
    | none => rfl
    | some e =>
      dsimp only
      split
      · rfl
      by_cases hk : e.key = k
      · rw [if_neg (not_not.mpr hk), if_pos hk]
      · rw [if_pos hk, if_neg hk]
        exact ih

/-! ### The slot of a record -/

/-- What is known of the slots in front, none of which is free. -/
structure MetOf (entries : List Entry) (now : ℕ) (seen : List ℕ) (m : Met) : Prop where
  expired : ∀ j, m.firstExpired = some j → ∃ before after old, seen = before ++ j :: after ∧
    entries[j]? = some old ∧ old.validUntilMs ≤ now
  fresh : m.firstExpired = none → ∀ i ∈ seen, ∀ e, entries[i]? = some e → now < e.validUntilMs
  oldest : ∀ j, m.oldest = some j → j ∈ seen ∧ ∃ old, entries[j]? = some old ∧
    old.lastUsedMs = m.oldestUsed
  least : ∀ i ∈ seen, ∀ e, entries[i]? = some e → m.oldestUsed ≤ e.lastUsedMs
  none : m.oldest = none → seen = []
  start : seen = [] → m.oldestUsed = UINT64_MAX

theorem metOf_nil : MetOf entries now [] {} :=
  ⟨nofun, fun _ => nofun, nofun, nofun, fun _ => rfl, fun _ => rfl⟩

theorem MetOf.see {seen : List ℕ} {m : Met} {slot : ℕ} (h : MetOf entries now seen m)
    (hslot : entries[slot]? = some e) (hused : e.lastUsedMs < UINT64_MAX) :
    MetOf entries now (seen ++ [slot]) (m.see slot e now) := by
  have hmem : ∀ {p : ℕ → Entry → Prop}, (∀ i ∈ seen, ∀ e, entries[i]? = some e → p i e) →
      p slot e → ∀ i ∈ seen ++ [slot], ∀ e, entries[i]? = some e → p i e := by
    intro p hseen hp i hi e' he'
    obtain hi | hi := mem_append.mp hi
    · exact hseen i hi e' he'
    · obtain rfl := mem_singleton.mp hi
      obtain rfl := some.inj (hslot.symm.trans he')
      exact hp
  constructor
  · intro j hj
    unfold Met.see at hj
    dsimp only at hj
    split at hj
    · next hexpired =>
      obtain rfl := some.inj hj
      exact ⟨seen, [], e, rfl, hslot, hexpired.1⟩
    · obtain ⟨before, after, old, rfl, hold⟩ := h.expired j hj
      exact ⟨before, after ++ [slot], old, by rw [append_assoc, cons_append], hold⟩
  · intro hnone
    unfold Met.see at hnone
    dsimp only at hnone
    split at hnone
    · cases hnone
    · next hfresh => exact hmem (h.fresh hnone) (by simpa [hnone] using hfresh)
  · intro j hj
    unfold Met.see at hj ⊢
    dsimp only at hj ⊢
    split at hj
    · next hless =>
      obtain rfl := some.inj hj
      rw [if_pos hless]
      exact ⟨mem_append_right _ mem_cons_self, e, hslot, rfl⟩
    · next hless =>
      rw [if_neg hless]
      obtain ⟨hj, hold⟩ := h.oldest j hj
      exact ⟨mem_append_left _ hj, hold⟩
  · unfold Met.see
    dsimp only
    split
    · next hless =>
      exact hmem (fun i hi e' he' => (Nat.le_of_lt hless).trans (h.least i hi e' he')) (Nat.le_refl _)
    · next hless => exact hmem h.least (Nat.le_of_not_lt hless)
  · intro hnone
    unfold Met.see at hnone
    dsimp only at hnone
    split at hnone
    · cases hnone
    rename_i hless
    rw [h.start (h.none hnone)] at hless
    exact absurd hused hless
  · exact fun hno => absurd hno (append_ne_nil_of_right_ne_nil _ (cons_ne_nil _ _))

/-- The slots that a record may be put into: one that is free, one whose entry has expired, or one
    that has not been used for longest, when all are in use. -/
def MayTake (entries : List Entry) (now : ℕ) (slots : List ℕ) (old : Entry) : Prop :=
  old.free = true ∨ (old.free = false ∧ old.validUntilMs ≤ now) ∨
    ∀ i ∈ slots, ∀ e, entries[i]? = some e →
      e.free = false ∧ now < e.validUntilMs ∧ old.lastUsedMs ≤ e.lastUsedMs

/-- What `qoe_find_slot` returns. -/
inductive Chosen (entries : List Entry) (k : Key) (now : ℕ) (slots : List ℕ)
    (search : Option (ℕ × Entry)) : Bool × Option ℕ → Prop
  | found (i : ℕ) (e : Entry) (hfound : search = some (i, e)) :
    Chosen entries k now slots search (true, some i)
  | put (j : ℕ) (old : Entry) (before after : List ℕ) (hmissing : search = none)
    (hslots : slots = before ++ j :: after)
    (hbefore : ∀ i ∈ before, ∃ e, entries[i]? = some e ∧ e.free = false)
    (hold : entries[j]? = some old) (htake : MayTake entries now slots old) :
    Chosen entries k now slots search (false, some j)

theorem findSlotLoop_chosen {seen slots : List ℕ} {m : Met}
    (hseen : ∀ i ∈ seen, ∃ e, entries[i]? = some e ∧ e.free = false)
    (hslots : ∀ i ∈ slots, ∃ e, entries[i]? = some e)
    (hused : ∀ (i : ℕ) e, entries[i]? = some e → e.lastUsedMs < UINT64_MAX)
    (hm : MetOf entries now seen m) (hne : seen ++ slots ≠ []) :
    Chosen entries k now (seen ++ slots) (findExactLoop entries k slots)
      (findSlotLoop entries k now slots m) := by
  induction slots generalizing seen m with
  | nil =>
    unfold findSlotLoop findExactLoop
    rw [append_nil] at hne ⊢
    cases hexpired : m.firstExpired with
    | some j =>
      obtain ⟨before, after, old, rfl, hold, htime⟩ := hm.expired j hexpired
      obtain ⟨old', hold', hfree⟩ := hseen j (mem_append_right _ mem_cons_self)
      obtain rfl := some.inj (hold.symm.trans hold')
      exact .put j old before after rfl rfl (fun i hi => hseen i (mem_append_left _ hi)) hold
        (.inr (.inl ⟨hfree, htime⟩))
    | none =>
      cases holdest : m.oldest with
      | none => exact absurd (hm.none holdest) hne
      | some j =>
        obtain ⟨hj, old, hold, hleast⟩ := hm.oldest j holdest
        obtain ⟨before, after, rfl⟩ := append_of_mem hj
        refine .put j old before after rfl rfl (fun i hi => hseen i (mem_append_left _ hi)) hold
          (.inr (.inr fun i hi e he => ?_))
        obtain ⟨e', he', hfree⟩ := hseen i hi
        obtain rfl := some.inj (he.symm.trans he')
        exact ⟨hfree, hm.fresh hexpired i hi e he, hleast ▸ hm.least i hi e he⟩
  | cons slot slots ih =>
    obtain ⟨e, he⟩ := hslots slot mem_cons_self
    unfold findSlotLoop findExactLoop
    rw [he]
    dsimp only
    cases hfree : e.free with
    | true =>
      rw [if_pos rfl, if_pos rfl]
      cases hexpired : m.firstExpired with
      | none => exact .put slot e seen slots rfl rfl hseen he (.inl hfree)
      | some j =>
        obtain ⟨before, after, old, rfl, hold, htime⟩ := hm.expired j hexpired
        obtain ⟨old', hold', hfree'⟩ := hseen j (mem_append_right _ mem_cons_self)
        obtain rfl := some.inj (hold.symm.trans hold')
        exact .put j old before (after ++ slot :: slots) rfl (by simp)
          (fun i hi => hseen i (mem_append_left _ hi)) hold (.inr (.inl ⟨hfree', htime⟩))
    | false =>
      rw [if_neg Bool.false_ne_true, if_neg Bool.false_ne_true]
      by_cases hk : e.key = k
      · rw [if_pos hk, if_pos hk]
        exact .found slot e rfl
      rw [if_neg hk, if_neg hk]
      have hseen' : ∀ i ∈ seen ++ [slot], ∃ e, entries[i]? = some e ∧ e.free = false := by
        intro i hi
        obtain hi | hi := mem_append.mp hi
        · exact hseen i hi
        · obtain rfl := mem_singleton.mp hi
          exact ⟨e, he, hfree⟩
      have hsplit : seen ++ slot :: slots = (seen ++ [slot]) ++ slots := by simp
      rw [hsplit] at hne ⊢
      exact ih hseen' (fun i hi => hslots i (mem_cons_of_mem _ hi))
        (hm.see he (hused slot e he)) hne

/-- **The slot of a record** is that of its key, or one that it may take. -/
theorem findSlot_chosen (hcapacity : 0 < c.capacity)
    (hprobes : ∀ i ∈ probes c.capacity k, i < c.capacity)
    (hused : ∀ (i : ℕ) e, c.entries[i]? = some e → e.lastUsedMs < UINT64_MAX) :
    Chosen c.entries k now (probes c.capacity k) (findExact c k) (findSlot c k now) := by
  refine @findSlotLoop_chosen c.entries k now [] _ {} nofun (fun i hi => ?_) hused metOf_nil ?_
  · exact ⟨_, getElem?_eq_getElem (hprobes i hi)⟩
  · rw [nil_append]
    intro hno
    have hlen := congrArg List.length hno
    rw [length_map, length_range] at hlen
    exact absurd hlen (Nat.ne_of_gt hcapacity)

end DreamingOS.Qoe
