import DreamingOS.ReadCache.Table

namespace DreamingOS.ReadCache

open List Option

/-!
# The read cache — what a call does to the table

* `OldestOf`, `Victim`, `victim_spec` — which entry gives way to a new key;
* `Writes`, `Writes.lookup` — **a call of a handler rewrites the entry of its key**, and the only
  other key that can notice is that of the victim;
* `refreshLoop_cases`, `lookup_evictIdle` — the two halves of a tick.
-/

variable {J B : Type} {entries : List (Entry J B)}

/-! ### Keys -/

theorem Entry.id_eq_some {e : Entry J B} {key : Key} : e.id = some key ↔ e.key = key ∧ key ≠ [] := by
  unfold Entry.id
  split
  · next h =>
    constructor
    · nofun
    · rintro ⟨rfl, hne⟩
      exact absurd h hne
  · next h =>
    constructor
    · intro heq
      obtain rfl := some.inj heq
      exact ⟨rfl, h⟩
    · rintro ⟨rfl, -⟩
      rfl

theorem Entry.id_of_key {e : Entry J B} {key : Key} (h : e.key = key) (hne : key ≠ []) :
    e.id = some key := Entry.id_eq_some.mpr ⟨h, hne⟩

/-- The entry of a key. -/
def lookup (entries : List (Entry J B)) (key : Key) : Option (Entry J B) :=
  Slots.lookup Entry.id entries key

theorem find_eq (key : Key) :
    find entries key = Slots.find (fun e => decide (e.id = some key)) entries := by
  unfold find
  congr 1
  funext e
  rw [← Bool.decide_and, decide_eq_decide, Entry.id_eq_some]
  constructor
  · rintro ⟨hne, rfl⟩
    exact ⟨rfl, hne⟩
  · rintro ⟨rfl, hne⟩
    exact ⟨hne, rfl⟩

theorem find_some {key : Key} {i : ℕ} {e : Entry J B} (h : find entries key = some (i, e)) :
    entries[i]? = some e ∧ e.key = key ∧ key ≠ [] := by
  rw [find_eq] at h
  obtain ⟨hget, hid⟩ := Slots.find_some h
  exact ⟨hget, Entry.id_eq_some.mp (of_decide_eq_true hid)⟩

theorem lookup_eq (key : Key) : lookup entries key = (find entries key).map Prod.snd := by
  rw [find_eq]
  rfl

/-! ### Victims -/

/-- The best entry so far is the first of those requested longest ago, among those that `p` admits. -/
def OldestOf (p : Entry J B → Bool) (seen : List (Entry J B)) (best : Option (ℕ × Entry J B)) :
    Prop :=
  match best with
  | none => ∀ c ∈ seen, p c = false
  | some (j, b) => seen[j]? = some b ∧ p b = true ∧
      ∀ c ∈ seen, p c = true → b.lastRequestedMs ≤ c.lastRequestedMs

variable {best : Option (ℕ × Entry J B)} {seen : List (Entry J B)} {p : Entry J B → Bool}
  {c : Entry J B}

theorem OldestOf.skip (h : OldestOf p seen best)
    (hc : p c = false) : OldestOf p (seen ++ [c]) best := by
  cases best with
  | none =>
    intro d hd
    rcases mem_append.mp hd with hd | hd
    · exact h d hd
    · rw [mem_singleton.mp hd, hc]
  | some best =>
    obtain ⟨hget, hb, hmin⟩ := h
    refine ⟨?_, hb, ?_⟩
    · rw [getElem?_append_left (List.getElem?_eq_some_iff.mp hget).1, hget]
    · intro d hd hp
      rcases mem_append.mp hd with hd | hd
      · exact hmin d hd hp
      · rw [mem_singleton.mp hd, hc] at hp
        cases hp

theorem OldestOf.see (h : OldestOf p seen best)
    (hc : p c = true) : OldestOf p (seen ++ [c]) (older best seen.length c) := by
  have hnew : (seen ++ [c])[seen.length]? = some c := by
    rw [getElem?_append_right (Nat.le_refl _), Nat.sub_self, getElem?_cons_zero]
  cases best with
  | none =>
    refine ⟨hnew, hc, ?_⟩
    intro d hd hp
    rcases mem_append.mp hd with hd | hd
    · rw [h d hd] at hp
      cases hp
    · exact Int.le_of_eq (congrArg _ (mem_singleton.mp hd).symm)
  | some best =>
    obtain ⟨hget, hb, hmin⟩ := h
    simp only [older]
    split
    · next hlt =>
      -- the new entry is older than the best, hence than all
      refine ⟨hnew, hc, ?_⟩
      intro d hd hp
      rcases mem_append.mp hd with hd | hd
      · exact Int.le_trans (Int.le_of_lt hlt) (hmin d hd hp)
      · exact Int.le_of_eq (congrArg _ (mem_singleton.mp hd).symm)
    · next hge =>
      refine ⟨?_, hb, ?_⟩
      · rw [getElem?_append_left (List.getElem?_eq_some_iff.mp hget).1, hget]
      · intro d hd hp
        rcases mem_append.mp hd with hd | hd
        · exact hmin d hd hp
        · rw [mem_singleton.mp hd]
          exact Int.not_lt.mp hge

/-- Why an entry may give way to a new key. -/
inductive Victim (entries : List (Entry J B)) (e : Entry J B) : Prop where
  | unused (h : e.key = [])
  | idle (full : ∀ c ∈ entries, c.key ≠ []) (h : e.resident = false)
      (oldest : ∀ c ∈ entries, c.resident = false → e.lastRequestedMs ≤ c.lastRequestedMs)
  | resident (full : ∀ c ∈ entries, c.key ≠ []) (all : ∀ c ∈ entries, c.resident = true)

theorem victimLoop_spec {seen : List (Entry J B)} {m : Met J B}
    (hold : OldestOf (fun e => !e.resident) seen m.oldest)
    (hany : OldestOf (fun _ => true) seen m.oldestAny) (hused : ∀ c ∈ seen, c.key ≠ [])
    (rest : List (Entry J B)) (hne : seen ++ rest ≠ []) :
    ∃ i e, victimLoop m seen.length rest = some i ∧ (seen ++ rest)[i]? = some e ∧
      Victim (seen ++ rest) e := by
  induction rest generalizing seen m with
  | nil =>
    rw [append_nil] at hne ⊢
    rw [victimLoop]
    cases hcase : m.oldest with
    | some best =>
      obtain ⟨i, e⟩ := best
      rw [hcase] at hold
      obtain ⟨hget, hres, hmin⟩ := hold
      refine ⟨i, e, rfl, hget, .idle hused (by simpa using hres) fun c hc hcr => ?_⟩
      exact hmin c hc (by simp [hcr])
    | none =>
      rw [hcase] at hold
      cases hcase' : m.oldestAny with
      | none =>
        rw [hcase'] at hany
        obtain ⟨c, hc⟩ := exists_mem_of_ne_nil _ hne
        exact Bool.noConfusion (hany c hc)
      | some best =>
        obtain ⟨i, e⟩ := best
        rw [hcase'] at hany
        refine ⟨i, e, rfl, hany.1, .resident hused fun c hc => ?_⟩
        simpa using hold c hc
  | cons c rest ih =>
    rw [victimLoop]
    split
    · next hc =>
      refine ⟨seen.length, c, rfl, ?_, .unused hc⟩
      rw [getElem?_append_right (Nat.le_refl _), Nat.sub_self, getElem?_cons_zero]
    rename_i hc
    have hsplit : seen ++ c :: rest = (seen ++ [c]) ++ rest := by
      rw [append_assoc, singleton_append]
    have hlen : seen.length + 1 = (seen ++ [c]).length := by rw [length_append, length_singleton]
    rw [hsplit] at hne ⊢
    rw [hlen]
    apply ih _ (hany.see rfl) _ hne
    · cases hr : c.resident with
      | true =>
        simp only [Met.see, hr, if_true]
        exact hold.skip (by simp [hr])
      | false =>
        simp only [Met.see, hr, Bool.false_eq_true, if_false]
        exact hold.see (by simp [hr])
    · intro d hd
      rcases mem_append.mp hd with hd | hd
      · exact hused d hd
      · rw [mem_singleton.mp hd]
        exact hc

/-- The victim is unused; or none is, and it is the non-resident entry requested longest ago; or all
    are resident. -/
theorem victim_spec (hne : entries ≠ []) :
    ∃ e, entries[victim entries]? = some e ∧ Victim entries e := by
  obtain ⟨i, e, hloop, hget, hv⟩ :=
    @victimLoop_spec J B [] {} (fun _ hc => nomatch hc) (fun _ hc => nomatch hc)
      (fun _ hc => nomatch hc) entries hne
  refine ⟨e, ?_, hv⟩
  rw [victim]
  exact (congrArg (fun r => entries[r.getD 0]?) hloop).trans hget

theorem State.entries_ne_nil (s : State J B) : s.entries ≠ [] := by
  intro h
  have hlen := s.length_entries
  rw [h] at hlen
  cases hlen

/-! ### Writing the entry of a key -/

/-- The entry of a key is found, or a victim is cleared for it. -/
theorem slot_cases (hne : entries ≠ []) (key : Key) (now : ℤ) :
    ∃ old, entries[(slot entries key now).1]? = some old ∧
      ((slot entries key now).2 = old ∧ old.key = key ∧ key ≠ [] ∨
        (slot entries key now).2 = Entry.fresh key now ∧ lookup entries key = none ∧
          Victim entries old) := by
  rw [lookup_eq]
  unfold slot
  cases hfind : find entries key with
  | some r =>
    obtain ⟨i, e⟩ := r
    obtain ⟨hget, hkey, hkne⟩ := find_some hfind
    exact ⟨e, hget, .inl ⟨rfl, hkey, hkne⟩⟩
  | none =>
    obtain ⟨old, hget, hv⟩ := victim_spec hne
    exact ⟨old, hget, .inr ⟨rfl, rfl, hv⟩⟩

/-- Keys that handlers may use. -/
structure ValidKey (key : Key) : Prop where
  ne_nil : key ≠ []
  short : key.length < KEY_MAX

/-- From `s` to `s'` the entry of a key is rewritten: from `e`, which is the entry it had or a fresh
    one, to `e'`; `old` is the entry that was in its place. -/
structure Writes (s s' : State J B) (key : Key) (now : ℤ) (i : ℕ) (old e e' : Entry J B) :
    Prop where
  valid : ValidKey key
  place : s.entries[i]? = some old
  entries : s'.entries = s.entries.set i e'
  cursor : s'.nextIndex = s.nextIndex
  key_eq : e'.key = key
  cases : e = old ∧ old.key = key ∨
    e = Entry.fresh key now ∧ lookup s.entries key = none ∧ Victim s.entries old

theorem fresh_key {key : Key} (h : ValidKey key) (now : ℤ) :
    (Entry.fresh key now : Entry J B).key = key := by
  have := h.short
  exact take_of_length_le (by unfold KEY_MAX at *; omega)

theorem writes_slot {key : Key} (hk : ValidKey key) (s : State J B) (now : ℤ) (k : ℕ)
    (e' : Entry J B) (he : e'.key = (slot s.entries key now).2.key) :
    ∃ old, Writes s (s.write (slot s.entries key now).1 e' k) key now (slot s.entries key now).1 old
      (slot s.entries key now).2 e' := by
  obtain ⟨old, hget, ⟨heq, hkey, -⟩ | ⟨heq, hfree, hv⟩⟩ := slot_cases s.entries_ne_nil key now
  · exact ⟨old, hk, hget, rfl, rfl, by rw [he, heq, hkey], .inl ⟨heq, hkey⟩⟩
  · exact ⟨old, hk, hget, rfl, rfl, by rw [he, heq, fresh_key hk], .inr ⟨heq, hfree, hv⟩⟩

variable {s s' : State J B} {key : Key} {now : ℤ} {i : ℕ} {old e e' : Entry J B}

theorem Writes.id_eq (h : Writes s s' key now i old e e') : e'.id = some key :=
  Entry.id_of_key h.key_eq h.valid.ne_nil

theorem Writes.distinct (h : Writes s s' key now i old e e')
    (hd : Slots.Distinct Entry.id s.entries) : Slots.Distinct Entry.id s'.entries := by
  rw [h.entries]
  rcases h.cases with ⟨-, hkey⟩ | ⟨-, hfree, -⟩
  · apply hd.set_same h.place
    left
    rw [h.id_eq, Entry.id_of_key hkey h.valid.ne_nil]
  · exact hd.set_new h.id_eq hfree

/-- **A call of a handler rewrites the entry of its key**; of the other keys only that of the victim
    is changed. -/
theorem Writes.lookup (h : Writes s s' key now i old e e')
    (hd : Slots.Distinct Entry.id s.entries) (k : Key) :
    lookup s'.entries k = if k = key then some e' else
      if old.id = some k then none else lookup s.entries k := by
  have hd' := h.distinct hd
  unfold ReadCache.lookup
  rw [h.entries] at hd' ⊢
  rw [Slots.lookup_set hd h.place hd' k, h.id_eq]
  by_cases hk : k = key
  · rw [if_pos hk, if_pos (by rw [hk])]
  · rw [if_neg hk, if_neg fun heq => hk (some.inj heq).symm]

/-- What the call found under its key. -/
theorem Writes.before (h : Writes s s' key now i old e e')
    (hd : Slots.Distinct Entry.id s.entries) :
    ReadCache.lookup s.entries key = some e ∨
      ReadCache.lookup s.entries key = none ∧ e = Entry.fresh key now := by
  rcases h.cases with ⟨rfl, hkey⟩ | ⟨heq, hfree, -⟩
  · exact .inl (Slots.lookup_of_getElem hd h.place (Entry.id_of_key hkey h.valid.ne_nil))
  · exact .inr ⟨hfree, heq⟩

/-- A key that is held no longer was the victim's. -/
theorem Writes.displaced (h : Writes s s' key now i old e e')
    (hd : Slots.Distinct Entry.id s.entries) {k : Key} {d : Entry J B}
    (hk : ReadCache.lookup s.entries k = some d) (hgone : ReadCache.lookup s'.entries k = none) :
    d = old ∧ Victim s.entries d ∧ d.key ≠ [] := by
  rw [h.lookup hd] at hgone
  split at hgone
  · cases hgone
  rename_i hne
  split at hgone
  · next hid =>
    have hold := Slots.lookup_of_getElem hd h.place hid
    have heq : d = old := some.inj (hk.symm.trans hold)
    subst heq
    obtain ⟨hkey, hkne⟩ := Entry.id_eq_some.mp hid
    rcases h.cases with ⟨-, hsame⟩ | ⟨-, -, hv⟩
    · exact absurd (hkey.symm.trans hsame) hne
    · exact ⟨rfl, hv, hkey ▸ hkne⟩
  · rw [hk] at hgone
    cases hgone

/-! ### The calls -/

variable (json : JsonC J) (clock : ℕ → ℤ)

theorem get_writes {key : Key} (hk : ValidKey key) (s : State J B) (ttlMs : ℤ) (input : Option J)
    (fn : Option B) :
    ∃ i old e, Writes s (get json clock s key ttlMs input fn).1 key (clock s.reads) i old e
        (getEntry json e ttlMs input fn (clock (s.reads + 1))) ∧
      (get json clock s key ttlMs input fn).2 =
        getReply json (getEntry json e ttlMs input fn (clock (s.reads + 1))) (clock (s.reads + 1)) := by
  obtain ⟨old, hw⟩ := writes_slot hk s (clock s.reads) 2
    (getEntry json (slot s.entries key (clock s.reads)).2 ttlMs input fn (clock (s.reads + 1)))
    rfl
  exact ⟨_, old, _, hw, rfl⟩

theorem put_writes {key : Key} (hk : ValidKey key) (s : State J B) (obj : J) (ttlMs : ℤ)
    (fn : Option B) (input : Option J) :
    ∃ i old e, Writes s (put json clock s key (some obj) ttlMs fn input) key (clock s.reads) i old e
      { remember json e input fn with
        obj := some obj
        ttlMs := ttlOf ttlMs
        builtAtMs := clock (s.reads + 1) } := by
  obtain ⟨old, hw⟩ := writes_slot hk s (clock s.reads) 2
    { remember json (slot s.entries key (clock s.reads)).2 input fn with
      obj := some obj
      ttlMs := ttlOf ttlMs
      builtAtMs := clock (s.reads + 1) } rfl
  exact ⟨_, old, _, hw⟩

theorem prewarm_writes {key : Key} (hk : ValidKey key) (s : State J B) (input : Option J) (fn : B)
    (ttlMs : ℤ) :
    ∃ i old e, Writes s (prewarm json clock s key input (some fn) ttlMs) key (clock s.reads) i old e
      { remember json e input (some fn) with
        ttlMs := ttlOf ttlMs
        resident := true
        lastRequestedMs := clock (s.reads + 1)
        requested := true
        nextRefreshAtMs := clock (s.reads + 2) } := by
  obtain ⟨old, hw⟩ := writes_slot hk s (clock s.reads) 3
    { remember json (slot s.entries key (clock s.reads)).2 input (some fn) with
      ttlMs := ttlOf ttlMs
      resident := true
      lastRequestedMs := clock (s.reads + 1)
      requested := true
      nextRefreshAtMs := clock (s.reads + 2) } rfl
  exact ⟨_, old, _, hw⟩

/-! ### Ticks -/

/-- An entry after its builder was called; an answer is stored at the reading `n`. -/
structure Refreshed (n : ℕ) (e e' : Entry J B) (b : Build J B) : Prop where
  build_key : b.key = e.key
  key_eq : e'.key = e.key
  resident : e'.resident = e.resident
  lastRequested : e'.lastRequestedMs = e.lastRequestedMs
  answer : b.answer = none ∧ e'.obj = e.obj ∧ e'.builtAtMs = e.builtAtMs ∨
    ∃ o, b.answer = some o ∧ e'.obj = some o ∧ e'.builtAtMs = b.storedAtMs ∧ b.storedAtMs = clock n

/-- What the loop of a tick does to the table: nothing, or one due entry is built and the cursor
    moves behind it. -/
inductive Looped (s s' : State J B) : List (Build J B) → Prop where
  | idle (served : RoundRobin.serve MAX_ENTRIES (s.due clock) s.nextIndex = none)
      (entries : s'.entries = s.entries) (cursor : s'.nextIndex = s.nextIndex)
      (reads : s.reads ≤ s'.reads) : Looped s s' []
  | built (i n : ℕ) (e e' : Entry J B) (b : Build J B)
      (served : RoundRobin.serve MAX_ENTRIES (s.due clock) s.nextIndex = some i)
      (place : s.entries[RoundRobin.place MAX_ENTRIES s.nextIndex i]? = some e)
      (due : e.isDue (clock (s.reads + i)) = true) (refreshed : Refreshed clock n e e' b)
      (entries : s'.entries = s.entries.set (RoundRobin.place MAX_ENTRIES s.nextIndex i) e')
      (cursor : s'.nextIndex = RoundRobin.place MAX_ENTRIES s.nextIndex (i + 1))
      (reads : s.reads ≤ s'.reads) (before : n ≤ s'.reads) : Looped s s' [b]

theorem refreshOne_cases (answer : B → J → Option J) (reads : ℕ) {e : Entry J B}
    (hfn : e.fn.isSome = true) (at' : ℤ) :
    ∃ e' b k, refreshOne json clock answer reads e = (e', [b], k) ∧
      Refreshed clock (reads + k - 1) e { e' with requested := false, nextRefreshAtMs := at' } b := by
  obtain ⟨fn, hfn⟩ := isSome_iff_exists.mp hfn
  unfold refreshOne
  rw [hfn]
  dsimp only
  cases hans : answer fn ((e.input.map json.clone).getD json.newObject) with
  | none => exact ⟨_, _, _, rfl, rfl, rfl, rfl, rfl, .inl ⟨rfl, rfl, rfl⟩⟩
  | some out => exact ⟨_, _, _, rfl, rfl, rfl, rfl, rfl, .inr ⟨out, rfl, rfl, rfl, rfl⟩⟩

theorem refreshLoop_cases (s : State J B) (answer : B → J → Option J) :
    Looped clock s (refreshLoop json clock s answer).1 (refreshLoop json clock s answer).2 := by
  unfold refreshLoop
  cases hserve : RoundRobin.serve MAX_ENTRIES (s.due clock) s.nextIndex with
  | none => exact .idle hserve rfl rfl (Nat.le_add_right _ _)
  | some i =>
    have hdue := (RoundRobin.serve_some hserve).2
    unfold State.due at hdue
    cases hget : s.entries[RoundRobin.place MAX_ENTRIES s.nextIndex i]? with
    | none =>
      rw [hget] at hdue
      cases hdue
    | some e =>
      rw [hget] at hdue
      have hfn : e.fn.isSome = true := by
        have hdue' : e.isDue (clock (s.reads + i)) = true := hdue
        simp only [Entry.isDue, Bool.and_eq_true] at hdue'
        exact hdue'.1.1.2
      obtain ⟨e', b, k, hrun, href⟩ := refreshOne_cases json clock answer (s.reads + i + 1) hfn
        (clock (s.reads + i) + REFRESH_KEEP_MS)
      dsimp only
      rw [hget]
      dsimp only
      rw [hrun]
      have hreads : s.reads ≤ s.reads + (i + 1 + k) := Nat.le_add_right _ _
      have hbefore : s.reads + i + 1 + k - 1 ≤ s.reads + (i + 1 + k) := by omega
      exact .built i _ e _ b hserve hget hdue href rfl rfl hreads hbefore

/-- The entry survives `dw_read_cache_evict_idle`. -/
def Entry.kept (now : ℤ) (e : Entry J B) : Bool :=
  decide (e.key = []) || e.resident || decide (now - e.lastRequestedMs ≤ IDLE_EVICT_MS)

theorem evictOne_kept {now : ℤ} {e : Entry J B} (h : e.kept now = true) : evictOne now e = e := by
  unfold evictOne
  split
  · rfl
  rename_i hkey
  split
  · rfl
  · next hres =>
    rw [if_pos]
    simpa [Entry.kept, hkey, hres] using h

theorem evictOne_freed {now : ℤ} {e : Entry J B} (h : e.kept now = false) : evictOne now e = {} := by
  simp only [Entry.kept, Bool.or_eq_false_iff, decide_eq_false_iff_not] at h
  obtain ⟨⟨hkey, hres⟩, hidle⟩ := h
  rw [evictOne, if_neg hkey, hres, if_neg Bool.false_ne_true, if_neg hidle]

theorem evictOne_id (now : ℤ) (e : Entry J B) :
    (evictOne now e).id = e.id ∨ (evictOne now e).id = none := by
  cases h : e.kept now with
  | true => exact .inl (by rw [evictOne_kept h])
  | false => exact .inr (by rw [evictOne_freed h]; rfl)

theorem lookup_evictIdle {s : State J B} (hd : Slots.Distinct Entry.id s.entries) (k : Key) :
    lookup (evictIdle clock s).entries k =
      (lookup s.entries k).filter (Entry.kept (clock s.reads)) :=
  Slots.lookup_map hd (fun _ h => evictOne_kept h) (fun _ h => by rw [evictOne_freed h]; rfl) k

end DreamingOS.ReadCache
