import DreamingOS.ReadCache.Fair

namespace DreamingOS.ReadCache

/-!
# The read cache — what it keeps to, over every run

* `CacheSafe`, `read_cache_run` — one entry for a key, answers that were stored, eviction by age, and no
  starvation;
* `ttl_default` — a TTL that is not positive counts as a second, and an empty key is none.
-/

variable {J B : Type}

/-- How a call that takes the state to `s'` may displace an entry: a resident one only if all
    entries are; another one by an idle tick, or as the one of a full table that was requested
    longest ago. -/
def Displaced (clock : ℕ → ℤ) (s s' : State J B) (c : Call J B) (e : Entry J B) : Prop :=
  if e.resident then ∀ d ∈ s.entries, d.key ≠ [] ∧ d.resident = true
  else (c.isTick = true ∧ ∃ n, s.reads ≤ n ∧ n < s'.reads ∧
      IDLE_EVICT_MS < clock n - e.lastRequestedMs) ∨
    (∀ d ∈ s.entries, d.key ≠ []) ∧
      ∀ d ∈ s.entries, d.resident = false → e.lastRequestedMs ≤ d.lastRequestedMs

/-- What `dw_read_cache_get` may answer: the snapshot last stored for the key, by its age; nothing,
    if there is none. -/
def GetAnswer (json : JsonC J) (last : Option (J × ℤ)) (now ttlMs : ℤ) (r : Reply J B) : Prop :=
  match last with
  | none => r.rc = 0 ∧ r.out = none
  | some (obj, storedAt) =>
    r.out = some (json.clone obj) ∧ r.rc = if now - storedAt < ttlOf ttlMs then 1 else 2

variable (json : JsonC J) (clock : ℕ → ℤ)

/-- What the cache keeps to in a state, with the notes of the run that has led to it. -/
structure CacheSafe (notes : List (Note J)) (s : State J B) : Prop where
  distinct : ∀ (i j : ℕ) (a b : Entry J B), s.entries[i]? = some a → s.entries[j]? = some b →
    a.key ≠ [] → a.key = b.key → i = j
  get : ∀ key ttlMs input fn, ValidKey key →
    GetAnswer json (snapshot notes key) (clock (s.reads + 1)) ttlMs
      (get json clock s key ttlMs input fn).2
  requested : ∀ e ∈ s.entries, e.key ≠ [] → lastRequest notes e.key = some e.lastRequestedMs
  displaced : ∀ c : Call J B, c.Valid → ∀ e ∈ s.entries, e.key ≠ [] →
    (∀ d ∈ (step json clock s c).1.entries, d.key ≠ e.key) →
    Displaced clock s (step json clock s c).1 c e
  builds : ∀ c : Call J B, (step json clock s c).2.builds.length ≤ if c.isTick then 1 else 0
  fair : ∀ key cs, Waits json clock key s cs → MAX_ENTRIES ≤ cs.countP Call.isTick →
    ∃ b ∈ buildsOf json clock s cs, b.key = key

variable {json clock} {notes : List (Note J)} {s s' : State J B}

/-! ### Answers -/

variable {key : Key}

theorem get_answer (h : Inv clock notes s) (hclock : Monotone clock)
    (hk : ValidKey key) (ttlMs : ℤ) (input : Option J) (fn : Option B) :
    GetAnswer json (snapshot notes key) (clock (s.reads + 1)) ttlMs
      (get json clock s key ttlMs input fn).2 := by
  obtain ⟨i, old, e, hw, hreply⟩ := get_writes json clock hk s ttlMs input fn
  rw [hreply, ← h.shot_before hw]
  unfold getReply getEntry remember Entry.shot GetAnswer
  cases hobj : e.obj with
  | none => exact ⟨rfl, rfl⟩
  | some obj =>
    have hbuilt : e.builtAtMs ≤ clock (s.reads + 1) :=
      Int.le_trans (h.built_before hw (by rw [hobj]; rfl)) (hclock (Nat.le_succ _))
    dsimp only [Option.map_some]
    by_cases hage : clock (s.reads + 1) - e.builtAtMs < ttlOf ttlMs
    · rw [if_pos ⟨hbuilt, hage⟩, if_pos hage]
      exact ⟨rfl, rfl⟩
    · rw [if_neg fun hand => hage hand.2, if_neg hage]
      exact ⟨rfl, rfl⟩

/-! ### Displacement -/

/-- No entry of the table has the key. -/
theorem lookup_eq_none_of {entries : List (Entry J B)}
    (h : ∀ d ∈ entries, d.key ≠ key) : lookup entries key = none := by
  rw [lookup, Slots.lookup_eq_none]
  intro d hd hid
  exact h d hd (Entry.id_eq_some.mp hid).1

variable {e : Entry J B} {c : Call J B}

theorem displaced_of_victim (hv : Victim s.entries e)
    (hkey : e.key ≠ []) : Displaced clock s s' c e := by
  unfold Displaced
  cases hv with
  | unused h => exact absurd h hkey
  | idle full hres oldest =>
    rw [hres, if_neg Bool.false_ne_true]
    exact .inr ⟨full, oldest⟩
  | resident full all =>
    split
    · exact fun d hd => ⟨full d hd, all d hd⟩
    · exact .inr ⟨full, fun d hd hres => by rw [all d hd] at hres; cases hres⟩

theorem Writes.displaces {key k : Key} {now : ℤ} {i : ℕ} {old e e' d : Entry J B}
    (hw : Writes s s' key now i old e e') (hd : Slots.Distinct Entry.id s.entries)
    (hk : ReadCache.lookup s.entries k = some d) (hgone : ReadCache.lookup s'.entries k = none) :
    Displaced clock s s' c d := by
  obtain ⟨-, hv, hkey⟩ := hw.displaced hd hk hgone
  exact displaced_of_victim hv hkey

variable {builds : List (Build J B)}

theorem Looped.reads_le (hl : Looped clock s s' builds) : s.reads ≤ s'.reads := by
  cases hl with
  | idle _ _ _ hreads => exact hreads
  | built _ _ _ _ _ _ _ _ _ _ _ hreads _ => exact hreads

/-- Building keeps the residence and the last request of an entry. -/
theorem Looped.keeps (hl : Looped clock s s' builds) (hd : Slots.Distinct Entry.id s.entries)
    (hk : lookup s.entries key = some e) : ∃ a, lookup s'.entries key = some a ∧
      a.resident = e.resident ∧ a.lastRequestedMs = e.lastRequestedMs := by
  cases hl with
  | idle _ hentries _ _ => exact ⟨e, by rw [hentries, hk], rfl, rfl⟩
  | built i n e₀ e' b _ hplace hdue href hentries _ _ _ =>
    rw [hentries, lookup_refreshed hd hplace (key_of_isDue hdue) href]
    split
    · next hkey =>
      have hfound := Slots.lookup_of_getElem hd hplace (Entry.id_of_key rfl (key_of_isDue hdue))
      rw [hkey, lookup, hfound] at hk
      obtain rfl := Option.some.inj hk
      exact ⟨e', rfl, href.resident, href.lastRequested⟩
    · exact ⟨e, hk, rfl, rfl⟩

theorem tick_displaces (h : Inv clock notes s) {answer : B → J → Option J}
    (hk : lookup s.entries key = some e)
    (hgone : lookup (tick json clock s answer).1.entries key = none) :
    Displaced clock s (tick json clock s answer).1 (.tick answer) e := by
  have hloop := refreshLoop_cases json clock s answer
  have hd₁ := hloop.distinct h.distinct
  have hreads := hloop.reads_le
  obtain ⟨a, ha, hres, hlast⟩ := hloop.keeps h.distinct hk
  have hlook : lookup (tick json clock s answer).1.entries key =
      (lookup (refreshLoop json clock s answer).1.entries key).filter
        (Entry.kept (clock (refreshLoop json clock s answer).1.reads)) :=
    lookup_evictIdle clock hd₁ key
  rw [hlook, ha, Option.filter_some_eq_none] at hgone
  simp only [Entry.kept, Bool.not_eq_true, Bool.or_eq_false_iff, decide_eq_false_iff_not] at hgone
  obtain ⟨⟨-, hresident⟩, hidle⟩ := hgone
  unfold Displaced
  rw [← hres, hresident, if_neg Bool.false_ne_true]
  refine .inl ⟨rfl, _, hreads, Nat.lt_succ_self _, ?_⟩
  rw [← hlast]
  exact Int.not_le.mp hidle

theorem step_displaces (h : Inv clock notes s) (hc : c.Valid) (hk : lookup s.entries key = some e)
    (hgone : lookup (step json clock s c).1.entries key = none) :
    Displaced clock s (step json clock s c).1 c e := by
  cases c with
  | get k ttlMs input fn =>
    obtain ⟨i, old, a, hw, -⟩ := get_writes json clock hc s ttlMs input fn
    exact hw.displaces h.distinct hk hgone
  | put k obj ttlMs fn input =>
    cases obj with
    | none =>
      have hsame : lookup s.entries key = none := hgone
      rw [hk] at hsame
      cases hsame
    | some obj =>
      obtain ⟨i, old, a, hw⟩ := put_writes json clock hc s obj ttlMs fn input
      exact hw.displaces h.distinct hk hgone
  | prewarm k input fn ttlMs =>
    cases fn with
    | none =>
      have hsame : lookup s.entries key = none := hgone
      rw [hk] at hsame
      cases hsame
    | some fn =>
      obtain ⟨i, old, a, hw⟩ := prewarm_writes json clock hc s input fn ttlMs
      exact hw.displaces h.distinct hk hgone
  | tick answer => exact tick_displaces h hk hgone

/-! ### Every run -/

theorem builds_le (c : Call J B) :
    (step json clock s c).2.builds.length ≤ if c.isTick then 1 else 0 := by
  cases c with
  | get key ttlMs input fn =>
    have hnone : (get json clock s key ttlMs input fn).2.builds = [] := by
      simp only [get, getReply]
      split
      · rfl
      · split <;> rfl
    exact Nat.le_of_eq (congrArg List.length hnone)
  | put key obj ttlMs fn input => exact Nat.le_refl 0
  | prewarm key input fn ttlMs => exact Nat.le_refl 0
  | tick answer =>
    show (refreshLoop json clock s answer).2.length ≤ 1
    have hloop := refreshLoop_cases json clock s answer
    generalize refreshLoop json clock s answer = r at hloop
    obtain ⟨s₁, builds⟩ := r
    cases hloop with
    | idle _ _ _ _ => exact Nat.zero_le 1
    | built _ _ _ _ _ _ _ _ _ _ _ _ _ => exact Nat.le_refl 1

theorem lookup_of_mem (h : Inv clock notes s) (he : e ∈ s.entries)
    (hkey : e.key ≠ []) : lookup s.entries e.key = some e := by
  obtain ⟨i, hi⟩ := List.getElem?_of_mem he
  exact Slots.lookup_of_getElem h.distinct hi (Entry.id_of_key rfl hkey)

/-- **The cache is a bounded and fair table of snapshots**, in every run with a clock that does not
    go back. -/
theorem read_cache_run (hclock : Monotone clock) (hrun : Run json clock notes s) :
    CacheSafe json clock notes s := by
  have h := inv_run hclock hrun
  constructor
  · intro i j a b hi hj hne hkey
    exact h.distinct i j a b a.key hi hj (Entry.id_of_key rfl hne)
      (Entry.id_of_key hkey.symm hne)
  · exact fun key ttlMs input fn hk => get_answer h hclock hk ttlMs input fn
  · exact fun e he hkey => h.requested _ _ (lookup_of_mem h he hkey)
  · intro c hc e he hkey hgone
    exact step_displaces h hc (lookup_of_mem h he hkey) (lookup_eq_none_of hgone)
  · exact builds_le
  · exact fun key cs hw hticks => waits_built hclock h hw hticks

/-- A clock that shows its own readings, and a snapshot that was put at the reading 1. -/
def onePut : Call ℕ Unit := .put [97] (some 7) 1000 none none

theorem read_cache_run_put : CacheSafe ⟨id, 0⟩ (fun n => (n : ℤ))
    (notesOf ⟨id, 0⟩ (fun n => (n : ℤ)) .init onePut ++ [])
    (step ⟨id, 0⟩ (fun n => (n : ℤ)) .init onePut).1 :=
  read_cache_run (fun _ _ h => Int.ofNat_le.mpr h) (.step .init ⟨by decide, by decide⟩)

/-- **A TTL that is not positive counts as a second**: a request with the TTL 0 gets a snapshot of
    the age 2 as a fresh one.  And an empty key has no entry: what was put for it is not found. -/
theorem ttl_default :
    ((get ⟨id, 0⟩ (fun n => (n : ℤ)) (step ⟨id, 0⟩ (fun n => (n : ℤ)) .init onePut).1 [97] 0
        none none).2.rc = 1 ∧
      snapshot (notesOf ⟨id, 0⟩ (fun n => (n : ℤ)) .init onePut) [97] = some (7, 1) ∧
      ¬ ((((step ⟨id, 0⟩ (fun n => (n : ℤ)) .init onePut).1.reads + 1 : ℕ) : ℤ) - 1 < 0)) ∧
    (get ⟨id, 0⟩ (fun n => (n : ℤ))
        (put ⟨id, 0⟩ (fun n => (n : ℤ)) (.init : State ℕ Unit) [] (some 7) 1000 none none) [] 1000
        none none).2.rc = 0 := by
  decide

end DreamingOS.ReadCache
