import DreamingOS.ReadCache.History

namespace DreamingOS.ReadCache

open List Option

/-!
# The read cache — no entry is starved

* `Waiting` — an entry that the next tick may build; `Waits` — throughout a sequence of calls;
* `tick_closer` — a tick builds it, or the cursor comes closer to it;
* `waits_built` — **an entry that waits through a full round of ticks is built in one of them**.
-/

variable {J B : Type}

variable (json : JsonC J) (clock : ℕ → ℤ)

/-- The entry of a key is requested, has a builder, is due, and is stale or empty. -/
def Waiting (s : State J B) (key : Key) : Prop :=
  ∃ e, lookup s.entries key = some e ∧ e.requested = true ∧ e.fn.isSome = true ∧
    e.nextRefreshAtMs ≤ clock s.reads ∧ e.isFresh (clock s.reads) = false

def Call.isTick : Call J B → Bool
  | .tick _ => true
  | _ => false

/-- A key has an entry throughout the calls, which waits at every tick. -/
def Waits (key : Key) : State J B → List (Call J B) → Prop
  | _, [] => True
  | s, c :: cs => c.Valid ∧ (lookup s.entries key).isSome = true ∧
      (c.isTick = true → Waiting clock s key) ∧ Waits key (step json clock s c).1 cs

/-- The builders that the calls run. -/
def buildsOf : State J B → List (Call J B) → List (Build J B)
  | _, [] => []
  | s, c :: cs => (step json clock s c).2.builds ++ buildsOf (step json clock s c).1 cs

variable {json clock} {notes : List (Note J)} {s s' : State J B} {key : Key}
variable {e : Entry J B} {now : ℤ}

theorem isFresh_iff : e.isFresh now = true ↔
    e.obj.isSome = true ∧ 0 < e.ttlMs ∧ e.builtAtMs ≤ now ∧ now - e.builtAtMs < e.ttlMs := by
  simp only [Entry.isFresh, Bool.and_eq_true, decide_eq_true_eq, and_assoc]

/-- What waits at the beginning of a tick is due when the tick comes to it. -/
theorem isDue_of_waiting (hclock : Monotone clock) (h : Inv clock notes s)
    (hw : Waiting clock s key) (i : ℕ) :
    ∃ e, lookup s.entries key = some e ∧ e.isDue (clock (s.reads + i)) = true := by
  obtain ⟨e, he, hreq, hfn, hnext, hstale⟩ := hw
  refine ⟨e, he, ?_⟩
  have htime : clock s.reads ≤ clock (s.reads + i) := hclock (Nat.le_add_right _ _)
  obtain ⟨j, -, hid⟩ := Slots.lookup_some he
  obtain ⟨hkey, hne⟩ := Entry.id_eq_some.mp hid
  have hstale' : e.isFresh (clock (s.reads + i)) = false := by
    rw [Bool.eq_false_iff, ne_eq, isFresh_iff] at hstale ⊢
    rintro ⟨hobj, httl, -, hage⟩
    -- a snapshot that is young now was younger before
    exact hstale ⟨hobj, httl, h.built _ _ he hobj, by omega⟩
  have hdue : e.nextRefreshAtMs ≤ clock (s.reads + i) := Int.le_trans hnext htime
  unfold Entry.isDue
  rw [hreq, hfn, hstale', hkey, decide_eq_true hne, decide_eq_true hdue]
  rfl

variable {j : ℕ}

theorem slot_lt (h : s.entries[j]? = some e) : j < MAX_ENTRIES := by
  rw [← s.length_entries]
  exact (List.getElem?_eq_some_iff.mp h).1

variable {a : Entry J B}

/-- An entry that is held still after a call of a handler is in its slot still. -/
theorem Writes.stays {i : ℕ} {old e' : Entry J B}
    (hw : Writes s s' key now i old e e') (hd : Slots.Distinct Entry.id s.entries) {k : Key}
    (hget : s.entries[j]? = some a) (hid : a.id = some k)
    (hheld : (ReadCache.lookup s'.entries k).isSome = true) :
    ∃ b, s'.entries[j]? = some b ∧ b.id = some k := by
  rw [hw.entries]
  by_cases hij : i = j
  · subst hij
    obtain rfl : old = a := some.inj (hw.place.symm.trans hget)
    refine ⟨e', getElem?_set_self (List.getElem?_eq_some_iff.mp hget).1, ?_⟩
    rw [hw.lookup hd, if_pos hid] at hheld
    split at hheld
    · next hk => rw [hk, hw.id_eq]
    · cases hheld
  · exact ⟨a, by rw [getElem?_set_ne hij, hget], hid⟩

/-- A tick builds the entry in a slot that waits, or its cursor comes closer to the slot. -/
theorem tick_closer (hclock : Monotone clock) (h : Inv clock notes s) (hw : Waiting clock s key)
    (hget : s.entries[j]? = some a) (hid : a.id = some key)
    (answer : B → J → Option J) :
    (∃ b ∈ (tick json clock s answer).2.builds, b.key = key) ∨
      RoundRobin.offset MAX_ENTRIES (tick json clock s answer).1.nextIndex j <
          RoundRobin.offset MAX_ENTRIES s.nextIndex j ∧
        ((lookup (tick json clock s answer).1.entries key).isSome = true →
          (tick json clock s answer).1.entries[j]? = some a) := by
  obtain ⟨e, he, hdue⟩ := isDue_of_waiting hclock h hw
    (RoundRobin.offset MAX_ENTRIES s.nextIndex j)
  have hae : e = a := some.inj (he.symm.trans (Slots.lookup_of_getElem h.distinct hget hid))
  subst hae
  have hready : s.due clock (RoundRobin.offset MAX_ENTRIES s.nextIndex j) j = true := by
    rw [State.due, hget]
    exact hdue
  obtain ⟨i, hserve, hcloser⟩ := RoundRobin.serve_ready s.nextIndex_lt (slot_lt hget) hready
  have hloop := refreshLoop_cases json clock s answer
  have hinv := h.looped hclock hloop
  have hbuilds : (tick json clock s answer).2.builds = (refreshLoop json clock s answer).2 := rfl
  have hcursor : (tick json clock s answer).1.nextIndex =
      (refreshLoop json clock s answer).1.nextIndex := rfl
  rw [hbuilds, hcursor]
  have hentries : (tick json clock s answer).1.entries =
      (evictIdle clock (refreshLoop json clock s answer).1).entries := rfl
  rw [hentries, lookup_evictIdle clock hinv.distinct]
  generalize refreshLoop json clock s answer = r at hloop hinv
  obtain ⟨s₁, builds⟩ := r
  dsimp only at hloop hinv ⊢
  cases hloop with
  | idle hidle _ _ _ =>
    rw [hidle] at hserve
    cases hserve
  | built i' n e₀ e' b hserve' hplace hdue' href hset hcur _ _ =>
    rw [hserve] at hserve'
    obtain rfl := some.inj hserve'
    by_cases hj : RoundRobin.place MAX_ENTRIES s.nextIndex i = j
    · left
      rw [hj, hget] at hplace
      obtain rfl := some.inj hplace
      exact ⟨b, mem_singleton_self b, href.build_key.trans (Entry.id_eq_some.mp hid).1⟩
    · right
      refine ⟨hcur ▸ hcloser.resolve_left hj, fun hheld => ?_⟩
      have hsame : s₁.entries[j]? = some e := by rw [hset, getElem?_set_ne hj, hget]
      -- what is held after the eviction was kept by it
      rw [lookup, Slots.lookup_of_getElem hinv.distinct hsame hid] at hheld
      have hkept : e.kept (clock s₁.reads) = true := by
        cases hk : e.kept (clock s₁.reads) with
        | true => rfl
        | false =>
          rw [filter_some_neg hk] at hheld
          cases hheld
      show (s₁.entries.map (evictOne (clock s₁.reads)))[j]? = some e
      rw [getElem?_map, hsame, map_some, evictOne_kept hkept]

variable {cs : List (Call J B)}

/-- The entry in slot `j` waits through more ticks than the cursor needs to come to it. -/
theorem waits_slot (hclock : Monotone clock)
    (h : Inv clock notes s) (hget : s.entries[j]? = some a) (hid : a.id = some key)
    (hw : Waits json clock key s cs)
    (hticks : RoundRobin.offset MAX_ENTRIES s.nextIndex j < cs.countP Call.isTick) :
    ∃ b ∈ buildsOf json clock s cs, b.key = key := by
  induction cs generalizing notes s a with
  | nil => exact absurd hticks (Nat.not_lt_zero _)
  | cons c cs ih =>
    obtain ⟨hc, -, hwait, hrest⟩ := hw
    have hinv : Inv clock (notesOf json clock s c ++ notes) (step json clock s c).1 :=
      inv_step hclock h hc
    -- if ticks are left, the key has an entry after this call
    have hheld : 0 < cs.countP Call.isTick →
        (lookup (step json clock s c).1.entries key).isSome = true := by
      intro hpos
      cases cs with
      | nil => exact absurd hpos (Nat.lt_irrefl 0)
      | cons d ds => exact hrest.2.1
    have hlater : ∀ b, (step json clock s c).1.entries[j]? = some b → b.id = some key →
        RoundRobin.offset MAX_ENTRIES (step json clock s c).1.nextIndex j < cs.countP Call.isTick →
        ∃ b ∈ buildsOf json clock s (c :: cs), b.key = key := by
      intro b hb hbid hlt
      obtain ⟨b', hb', hbk⟩ := ih hinv hb hbid hrest hlt
      exact ⟨b', mem_append_right _ hb', hbk⟩
    have hhandler : ∀ {k now i old e e'}, c.isTick = false →
        Writes s (step json clock s c).1 k now i old e e' →
        ∃ b ∈ buildsOf json clock s (c :: cs), b.key = key := by
      intro k now i old e e' hct hwrites
      rw [countP_cons_of_neg (by rw [hct]; exact Bool.false_ne_true)] at hticks
      obtain ⟨b, hb, hbid⟩ := hwrites.stays h.distinct hget hid (hheld (by omega))
      exact hlater b hb hbid (hwrites.cursor ▸ hticks)
    cases c with
    | get k ttlMs input fn =>
      obtain ⟨i, old, e, hwrites, -⟩ := get_writes json clock hc s ttlMs input fn
      exact hhandler rfl hwrites
    | put k obj ttlMs fn input =>
      cases obj with
      | none => exact hlater a hget hid hticks
      | some obj =>
        obtain ⟨i, old, e, hwrites⟩ := put_writes json clock hc s obj ttlMs fn input
        exact hhandler rfl hwrites
    | prewarm k input fn ttlMs =>
      cases fn with
      | none => exact hlater a hget hid hticks
      | some fn =>
        obtain ⟨i, old, e, hwrites⟩ := prewarm_writes json clock hc s input fn ttlMs
        exact hhandler rfl hwrites
    | tick answer =>
      rw [countP_cons_of_pos rfl] at hticks
      rcases tick_closer hclock h (hwait rfl) hget hid answer with
        ⟨b, hb, hbk⟩ | ⟨hcloser, hstays⟩
      · exact ⟨b, mem_append_left _ hb, hbk⟩
      · exact hlater a (hstays (hheld (by omega))) hid
          (show RoundRobin.offset MAX_ENTRIES (tick json clock s answer).1.nextIndex j < _ by omega)

/-- **An entry that waits through a full round of ticks is built.** -/
theorem waits_built (hclock : Monotone clock) (h : Inv clock notes s)
    (hw : Waits json clock key s cs) (hticks : MAX_ENTRIES ≤ cs.countP Call.isTick) :
    ∃ b ∈ buildsOf json clock s cs, b.key = key := by
  cases cs with
  | nil => cases hticks
  | cons c cs =>
    obtain ⟨a, ha⟩ := isSome_iff_exists.mp hw.2.1
    obtain ⟨j, hget, hid⟩ := Slots.lookup_some ha
    exact waits_slot hclock h hget hid hw
      (Nat.lt_of_lt_of_le (RoundRobin.offset_lt (slot_lt hget)) hticks)

end DreamingOS.ReadCache
