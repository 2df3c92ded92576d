import DreamingOS.Qoe.Table

namespace DreamingOS.Qoe

/-!
# The path-quality cache — runs

The cache as a map that forgets: what is present of what has been recorded, over whole runs.

* `Inv` — the table, its count and its counters;
* `Inv.rewrite`, `Inv.put` — an entry is rewritten, or put into a slot;
* `Run`, `Holds`, `cache_run` — what holds in every state of a run.
-/

open Probing List Option
open Function (update update_self update_of_ne)

variable {c c' : Cache} {m : Key → Option Entry} {k : Key} {now i : ℕ} {e e' : Entry}

/-! ### The invariant -/

/-- A table of a power of two, in which every entry can be reached. -/
structure Table (c : Cache) : Prop where
  capacity : ∃ j, 1 ≤ j ∧ c.capacity = 2 ^ j
  reachable : Reachable Entry.key (start c.capacity) (cells c.entries)

/-- What holds of the cache; `m` has every entry as it was recorded last. -/
structure Inv (c : Cache) (m : Key → Option Entry) : Prop extends Table c where
  count : c.count = used (cells c.entries)
  remembered : ∀ k e, present c k = some e → m k = some e
  used : ∀ (i : ℕ) e, c.entries[i]? = some e → e.lastUsedMs < UINT64_MAX
  lookups : c.lookups = c.hits + c.misses
  hits : c.hits = c.hitsByScope.asn + c.hitsByScope.country + c.hitsByScope.city

theorem Table.present_eq_find (h : Table c) :
    present c k = find Entry.key (start c.capacity) (cells c.entries) k := by
  obtain ⟨j, -, hj⟩ := h.capacity
  exact present_eq hj

theorem Table.findExact_iff (h : Table c) :
    findExact c k = some (i, e) ↔ c.entries[i]? = some e ∧ e.free = false ∧ e.key = k := by
  obtain ⟨j, -, hj⟩ := h.capacity
  rw [findExact_eq hj]
  constructor
  · intro hfound
    cases hwalk : locate Entry.key (start c.capacity) (cells c.entries) k with
    | missing _ =>
      rw [hwalk] at hfound
      cases hfound
    | found i' =>
      obtain ⟨s, hcell, hs⟩ := walk_found hwalk
      obtain ⟨hi', hfree⟩ := cells_live.mp hcell
      rw [hwalk] at hfound
      unfold walkEntry at hfound
      dsimp only at hfound
      rw [hi'] at hfound
      obtain ⟨rfl, rfl⟩ := Prod.mk.inj (some.inj hfound)
      exact ⟨hi', hfree, hs⟩
  · rintro ⟨hi, hfree, rfl⟩
    rw [h.reachable i e (cells_live.mpr ⟨hi, hfree⟩)]
    unfold walkEntry
    dsimp only
    rw [hi]
    rfl

theorem Table.present_iff (h : Table c) :
    present c k = some e ↔ ∃ i : ℕ, c.entries[i]? = some e ∧ e.free = false ∧ e.key = k := by
  unfold present
  rw [map_eq_some_iff]
  constructor
  · rintro ⟨⟨i, e'⟩, hfound, rfl⟩
    exact ⟨i, h.findExact_iff.mp hfound⟩
  · rintro ⟨i, hi⟩
    exact ⟨(i, e), h.findExact_iff.mpr hi, rfl⟩

/-- The counters may change as long as they agree. -/
theorem Inv.counters (h : Inv c m) (htable : c'.entries = c.entries) (hcount : c'.count = c.count)
    (hlookups : c'.lookups = c'.hits + c'.misses)
    (hhits : c'.hits = c'.hitsByScope.asn + c'.hitsByScope.country + c'.hitsByScope.city) :
    Inv c' m := by
  have hcapacity : c'.capacity = c.capacity := by
    unfold Cache.capacity
    rw [htable]
  have hpresent : ∀ k, present c' k = present c k := by
    intro k
    unfold present findExact
    rw [hcapacity, htable]
  refine ⟨⟨?_, ?_⟩, ?_, ?_, ?_, hlookups, hhits⟩
  · rw [hcapacity]
    exact h.capacity
  · rw [hcapacity, htable]
    exact h.reachable
  · rw [hcount, htable]
    exact h.count
  · intro k e he
    exact h.remembered k e (by rwa [← hpresent])
  · rw [htable]
    exact h.used

/-- An entry is rewritten under its key. -/
theorem Inv.rewrite (h : Inv c m) (hi : c.entries[i]? = some e) (hfree : e.free = false)
    (hkey : e'.key = e.key) (hfree' : e'.free = false) (hused : e'.lastUsedMs < UINT64_MAX) :
    Inv { c with entries := c.entries.set i e' } (update m e.key (some e')) ∧
      ∀ k, present { c with entries := c.entries.set i e' } k =
        if k = e.key then some e' else present c k := by
  have hcell := cells_live.mpr ⟨hi, hfree⟩
  have hcells : cells (c.entries.set i e') = (cells c.entries).set i (.live e') := by
    rw [cells_set, cell_live hfree']
  have hcapacity : ({ c with entries := c.entries.set i e' } : Cache).capacity = c.capacity :=
    length_set ..
  obtain ⟨j, hj, hpow⟩ := h.capacity
  have hpresent : ∀ k, present { c with entries := c.entries.set i e' } k =
      if k = e.key then some e' else present c k := by
    intro k
    rw [present_eq (hcapacity.trans hpow), hcapacity, hcells, h.present_eq_find]
    exact find_update h.reachable hcell hkey k
  refine ⟨⟨⟨⟨j, hj, hcapacity.trans hpow⟩, ?_⟩, ?_, ?_, ?_, h.lookups, h.hits⟩, hpresent⟩
  · rw [hcapacity, hcells]
    exact h.reachable.update hcell hkey
  · have hset := used_set (.live e') hcell
    rw [hcells]
    simp only [Cell.key, isSome_some] at hset
    have hcount := h.count
    show c.count = _
    omega
  · intro k x hx
    rw [hpresent] at hx
    by_cases hk : k = e.key
    · rw [if_pos hk] at hx
      rw [hk, update_self]
      exact hx
    · rw [if_neg hk] at hx
      rw [update_of_ne hk]
      exact h.remembered k x hx
  · intro n x hx
    rcases Slots.getElem?_set_cases hx with ⟨-, rfl⟩ | ⟨-, hx⟩
    · exact hused
    · exact h.used n x hx

/-- A missing key is put into a slot of its walk. -/
theorem Inv.put (h : Inv c m) {j : ℕ} {old : Entry} {before after : List ℕ}
    (hmissing : findExact c e'.key = none)
    (hslots : probes c.capacity e'.key = before ++ j :: after)
    (hbefore : ∀ i ∈ before, ∃ e, c.entries[i]? = some e ∧ e.free = false)
    (hold : c.entries[j]? = some old) (hfree' : e'.free = false)
    (hused : e'.lastUsedMs < UINT64_MAX) {c' : Cache} (hentries : c'.entries = c.entries.set j e')
    (hcount : c'.count = if old.free then c.count + 1 else c.count)
    (hcounters : c'.lookups = c.lookups ∧ c'.hits = c.hits ∧ c'.misses = c.misses ∧
      c'.hitsByScope = c.hitsByScope) :
    Inv c' (update m e'.key (some e')) ∧ present c' e'.key = some e' := by
  obtain ⟨n, hn, hpow⟩ := h.capacity
  have hcells : cells c'.entries = (cells c.entries).set j (.live e') := by
    rw [hentries, cells_set, cell_live hfree']
  have hcapacity : c'.capacity = c.capacity := by
    unfold Cache.capacity
    rw [hentries, length_set]
  have hcell : (cells c.entries)[j]? = some old.cell := by
    unfold cells
    rw [getElem?_map, hold]
    rfl
  have hlen : j < (cells c.entries).length := (List.getElem?_eq_some_iff.mp hcell).1
  have hplaces := probes_eq (k := e'.key) hpow
  have hj : j ∉ before := by
    have hnodup := nodup_places (cells c.entries).length (start c.capacity e'.key)
    rw [← hplaces, hslots, nodup_append] at hnodup
    exact fun hmem => hnodup.2.2 j hmem j mem_cons_self rfl
  have hno : ∀ (n : ℕ) (t : Entry), (cells c.entries)[n]? = some (.live t) → t.key ≠ e'.key := by
    intro n t ht hkey
    obtain ⟨hentry, hfree⟩ := cells_live.mp ht
    rw [h.findExact_iff.mpr ⟨hentry, hfree, hkey⟩] at hmissing
    cases hmissing
  have hlive : ∀ i ∈ before, ∃ t, (cells c.entries)[i]? = some (.live t) := by
    intro i hi
    obtain ⟨e, he⟩ := hbefore i hi
    exact ⟨e, cells_live.mpr he⟩
  have hreachable : Reachable Entry.key (start c.capacity) ((cells c.entries).set j (.live e')) :=
    h.reachable.put hno (hplaces.symm.trans hslots) hlive hj
  have hpresent : ∀ k, present c' k = if k = e'.key then some e'
      else if (cells c.entries)[j]?.bind (Cell.key Entry.key) = some k then none
      else present c k := by
    intro k
    rw [present_eq (hcapacity.trans hpow), hcapacity, hcells, h.present_eq_find]
    exact find_put h.reachable hreachable hlen k
  refine ⟨⟨⟨⟨n, hn, hcapacity.trans hpow⟩, ?_⟩, ?_, ?_, ?_, ?_, ?_⟩, ?_⟩
  · rw [hcapacity, hcells]
    exact hreachable
  · have hset := used_set (.live e') hcell
    have hc := h.count
    rw [hcells, hcount]
    cases hfree : old.free with
    | true =>
      rw [cell_free hfree] at hset
      simp only [Cell.key, isSome_some, isSome_none, Bool.toNat_true, Bool.toNat_false] at hset
      rw [if_pos rfl]
      omega
    | false =>
      rw [cell_live hfree] at hset
      simp only [Cell.key, isSome_some] at hset
      rw [if_neg Bool.false_ne_true]
      omega
  · intro k x hx
    rw [hpresent] at hx
    by_cases hk : k = e'.key
    · rw [if_pos hk] at hx
      rw [hk, update_self]
      exact hx
    rw [if_neg hk] at hx
    rw [update_of_ne hk]
    split at hx
    · cases hx
    · exact h.remembered k x hx
  · intro i x hx
    rw [hentries] at hx
    rcases Slots.getElem?_set_cases hx with ⟨-, rfl⟩ | ⟨-, hx⟩
    · exact hused
    · exact h.used i x hx
  · rw [hcounters.1, hcounters.2.1, hcounters.2.2.1]
    exact h.lookups
  · rw [hcounters.2.1, hcounters.2.2.2]
    exact h.hits
  · rw [hpresent, if_pos rfl]

/-! ### Lookups -/

/-- The entry of a key that has not expired. -/
def live (c : Cache) (k : Key) (now : ℕ) : Option Entry :=
  (present c k).filter fun e => now < e.validUntilMs

/-- An entry that has been used. -/
def Entry.touch (now : ℕ) (e : Entry) : Entry := { e with lastUsedMs := now }

/-- The first scope that has an entry which has not expired. -/
def answer (c : Cache) (policyPrio : UInt16) (now : ℕ) (d : Destination)
    (scopes : List (Scope × UInt32)) : Option (Scope × Entry) :=
  scopes.findSome? fun s => (live c (d.keyOf policyPrio s) now).map (s.1, ·)

/-- What a lookup leaves of the entries: the one that has been found is touched. -/
def Touched (c : Cache) (policyPrio : UInt16) (now : ℕ) (d : Destination)
    (scopes : List (Scope × UInt32)) (entries : List Entry) : Prop :=
  match answer c policyPrio now d scopes with
  | none => entries = c.entries
  | some (_, e) => ∃ i : ℕ, c.entries[i]? = some e ∧ e.free = false ∧
    entries = c.entries.set i (e.touch now)

theorem lookupScopes_spec (h : Table c) {d : Destination} {policyPrio : UInt16}
    {scopes : List (Scope × UInt32)} :
    (lookupScopes d policyPrio now scopes c).1 =
        (answer c policyPrio now d scopes).map (fun a => (a.1, a.2.touch now)) ∧
      ∃ entries expirations, Touched c policyPrio now d scopes entries ∧
        (lookupScopes d policyPrio now scopes c).2 =
          { c with entries := entries, expirations := expirations } := by
  induction scopes generalizing c with
  | nil => exact ⟨rfl, c.entries, c.expirations, rfl, rfl⟩
  | cons s scopes ih =>
    unfold lookupScopes Touched answer
    rw [lookupExact_eq, findSome?_cons]
    cases hfound : findExact c (d.keyOf policyPrio s) with
    | none =>
      have hlive : live c (d.keyOf policyPrio s) now = none := by
        unfold live present
        rw [hfound]
        rfl
      rw [hlive]
      exact ih h
    | some found =>
      obtain ⟨i, e⟩ := found
      obtain ⟨hi, hfree, hkey⟩ := h.findExact_iff.mp hfound
      dsimp only
      by_cases htime : e.validUntilMs ≤ now
      · have hlive : live c (d.keyOf policyPrio s) now = none := by
          unfold live present
          rw [hfound]
          exact filter_eq_none_iff.mpr fun x hx => by
            obtain rfl := some.inj hx
            simpa using htime
        rw [hlive, if_pos htime]
        exact ih ⟨h.capacity, h.reachable⟩
      · have hlive : live c (d.keyOf policyPrio s) now = some e := by
          unfold live present
          rw [hfound]
          exact filter_eq_some_iff.mpr ⟨rfl, by simpa using htime⟩
        rw [hlive, if_neg htime]
        exact ⟨rfl, _, c.expirations, ⟨i, hi, hfree, rfl⟩, rfl⟩

/-- A destination that can be looked up. -/
def Destination.valid (d : Destination) (policyPrio : UInt16) : Prop :=
  d.asn ≠ 0 ∧ policyPrio ≠ 0 ∧ familyValid d.family = true

instance (d : Destination) (policyPrio : UInt16) : Decidable (d.valid policyPrio) :=
  inferInstanceAs (Decidable (_ ∧ _))

variable {policyPrio : UInt16}

theorem lookup_invalid {d : Destination} (h : ¬ d.valid policyPrio) :
    lookup c d policyPrio now = (none, c) := by
  have hchecks : d.asn = 0 ∨ policyPrio = 0 ∨ (!familyValid d.family) = true := by
    unfold Destination.valid at h
    by_contra hno
    simp only [not_or, Bool.not_eq_true, Bool.not_eq_false'] at hno
    exact h hno
  unfold lookup
  rw [if_pos hchecks]

/-- What is remembered after a lookup: the entry that has been found has been used. -/
def noteLookup (c : Cache) (d : Destination) (policyPrio : UInt16) (now : ℕ)
    (m : Key → Option Entry) : Key → Option Entry :=
  if d.valid policyPrio then
    match answer c policyPrio now d d.scopes with
    | none => m
    | some (_, e) => update m e.key (some (e.touch now))
  else m

theorem Inv.after_lookup (h : Inv c m) (d : Destination) (policyPrio : UInt16)
    (hnow : now < UINT64_MAX) :
    Inv (lookup c d policyPrio now).2 (noteLookup c d policyPrio now m) ∧
      (d.valid policyPrio → (lookup c d policyPrio now).1 =
        (answer c policyPrio now d d.scopes).map fun a => (a.1, a.2.touch now)) := by
  by_cases hvalid : d.valid policyPrio
  · unfold lookup noteLookup
    have hchecks : ¬ (d.asn = 0 ∨ policyPrio = 0 ∨ (!familyValid d.family) = true) := by
      obtain ⟨hasn, hprio, hfamily⟩ := hvalid
      simp [hasn, hprio, hfamily]
    rw [if_neg hchecks, if_pos hvalid]
    dsimp only
    have htable : Table { c with lookups := c.lookups + 1 } := ⟨h.capacity, h.reachable⟩
    obtain ⟨hvalue, entries, expirations, htouched, hstate⟩ :=
      @lookupScopes_spec _ now htable d policyPrio d.scopes
    have hsame : answer { c with lookups := c.lookups + 1 } policyPrio now d d.scopes =
        answer c policyPrio now d d.scopes := rfl
    unfold Touched at htouched
    rw [hsame] at hvalue htouched
    generalize lookupScopes d policyPrio now d.scopes { c with lookups := c.lookups + 1 } = out
      at hvalue hstate ⊢
    obtain ⟨value, c'⟩ := out
    dsimp only at hvalue hstate htouched
    subst hvalue hstate
    cases hanswer : answer c policyPrio now d d.scopes with
    | none =>
      rw [hanswer] at htouched
      obtain rfl : entries = c.entries := htouched
      refine ⟨h.counters rfl rfl ?_ h.hits, fun _ => rfl⟩
      show c.lookups + 1 = c.hits + (c.misses + 1)
      rw [h.lookups, UInt64.add_assoc]
    | some a =>
      obtain ⟨s, e⟩ := a
      rw [hanswer] at htouched
      obtain ⟨i, hi, hfree, rfl⟩ := htouched
      have htouch : Inv { c with entries := c.entries.set i (e.touch now) }
          (update m e.key (some (e.touch now))) :=
        (h.rewrite hi hfree (show (e.touch now).key = e.key from rfl) hfree hnow).1
      refine ⟨htouch.counters rfl rfl ?_ ?_, fun _ => rfl⟩
      · show c.lookups + 1 = c.hits + 1 + c.misses
        rw [h.lookups]
        ac_rfl
      · show c.hits + 1 = _
        rw [h.hits]
        cases s with
        | asn =>
          show _ = c.hitsByScope.asn + 1 + c.hitsByScope.country + c.hitsByScope.city
          ac_rfl
        | country =>
          show _ = c.hitsByScope.asn + (c.hitsByScope.country + 1) + c.hitsByScope.city
          ac_rfl
        | city =>
          show _ = c.hitsByScope.asn + c.hitsByScope.country + (c.hitsByScope.city + 1)
          ac_rfl
  · unfold noteLookup
    rw [lookup_invalid hvalid, if_neg hvalid]
    exact ⟨h, fun hno => absurd hno hvalid⟩

/-! ### Records -/

/-- The lifetime of an entry. -/
def lifetime (ttl : ℕ) : ℕ := if ttl = 0 then DEFAULT_TTL_MS else ttl

theorem nextGeneration_ne_zero (g : UInt32) : nextGeneration g ≠ 0 := by
  unfold nextGeneration
  split
  · decide
  · next hne => exact hne

/-- The entry that a record puts into the cache. -/
def recorded (c : Cache) (k : Key) (paths : List Path) (now ttl : ℕ) : Entry :=
  newEntry c k paths now ttl (present c k).isSome ((present c k).getD Entry.zero)

variable {paths : List Path} {ttl : ℕ}

theorem free_newEntry {found : Bool} {old : Entry} :
    (newEntry c k paths now ttl found old).free = false := by
  unfold Entry.free newEntry
  exact decide_eq_false (nextGeneration_ne_zero _)

/-- Without an entry of its key, an entry does not depend on the content of its slot. -/
theorem newEntry_missing (old old' : Entry) :
    newEntry c k paths now ttl false old = newEntry c k paths now ttl false old' := by
  unfold newEntry
  simp

/-- What a record does: its entry is put into the slot of its key, or into one that it may take. -/
inductive Records (c : Cache) (k : Key) (e' : Entry) (now : ℕ) (c' : Cache) : Prop
  | same (i : ℕ) (e : Entry) (hi : c.entries[i]? = some e) (hfree : e.free = false)
    (hkey : e.key = k) (hentries : c'.entries = c.entries.set i e')
  | put (j : ℕ) (old : Entry) (hmissing : present c k = none) (hold : c.entries[j]? = some old)
    (htake : old.free = true ∨ (old.free = false ∧ old.validUntilMs ≤ now) ∨
      ∀ (i : ℕ) e, c.entries[i]? = some e →
        e.free = false ∧ now < e.validUntilMs ∧ old.lastUsedMs ≤ e.lastUsedMs)
    (hentries : c'.entries = c.entries.set j e')

variable {scope : UInt32} {family : UInt8} {key : UInt64}

/-- **A record** stores its entry, and overwrites no other one without need. -/
theorem Inv.after_record (h : Inv c m) {paths paths' : List Path} (hnow : now < UINT64_MAX)
    (hpaths : recordPaths scope family key policyPrio paths = some paths') :
    ∃ c', record c scope family key policyPrio paths now ttl = some c' ∧
      let k : Key := ⟨key, scope.toUInt8, family, policyPrio⟩
      Inv c' (update m k (some (recorded c k paths' now ttl))) ∧
        present c' k = some (recorded c k paths' now ttl) ∧
        Records c k (recorded c k paths' now ttl) now c' := by
  obtain ⟨n, hn, hpow⟩ := h.capacity
  have hplaces := fun k => probes_eq (k := k) hpow
  have hprobes : ∀ k, ∀ i ∈ probes c.capacity k, i < c.capacity := by
    intro k i hi
    rw [hplaces] at hi
    exact (mem_places_lt hi).trans_le length_cells.le
  generalize hk : (⟨key, scope.toUInt8, family, policyPrio⟩ : Key) = k
  have hchosen := @findSlot_chosen c k now (by rw [hpow]; exact Nat.two_pow_pos n) (hprobes k) h.used
  unfold record
  rw [hpaths, hk]
  dsimp only [bind_eq_bind, bind_some]
  generalize findSlot c k now = found at hchosen
  cases hchosen with
  | found i e hfound =>
    obtain ⟨hi, hfree, hkey⟩ := h.findExact_iff.mp hfound
    have hpresent : present c k = some e := h.present_iff.mpr ⟨i, hi, hfree, hkey⟩
    have hentry : newEntry c k paths' now ttl true e = recorded c k paths' now ttl := by
      unfold recorded
      rw [hpresent]
      rfl
    have hsame : (recorded c k paths' now ttl).key = e.key := hkey.symm
    have hstored := h.rewrite hi hfree hsame free_newEntry hnow
    rw [hkey] at hstored
    refine ⟨_, by dsimp only [bind_some]; rw [hi]; rfl, ?_, ?_, ?_⟩
    · rw [hentry]
      exact hstored.1.counters rfl rfl h.lookups h.hits
    · rw [hentry]
      have hfind := hstored.2 k
      rw [if_pos rfl] at hfind
      exact hfind
    · rw [hentry]
      exact .same i e hi hfree hkey rfl
  | put j old before after hmissing hslots hbefore hold htake =>
    have hpresent : present c k = none := by
      unfold present
      rw [hmissing]
      rfl
    have hentry : newEntry c k paths' now ttl false old = recorded c k paths' now ttl := by
      unfold recorded
      rw [hpresent]
      exact newEntry_missing _ _
    have hkey : (recorded c k paths' now ttl).key = k := rfl
    refine ⟨_, by dsimp only [bind_some]; rw [hold]; rfl, ?_⟩
    rw [hentry]
    have hcount : (store c false j old (recorded c k paths' now ttl)).count =
        if old.free then c.count + 1 else c.count := by
      unfold store
      simp
    have hput : Inv (store c false j old (recorded c k paths' now ttl))
        (update m k (some (recorded c k paths' now ttl))) ∧
        present (store c false j old (recorded c k paths' now ttl)) k =
          some (recorded c k paths' now ttl) :=
      h.put (hkey.symm ▸ hmissing) (hkey.symm ▸ hslots) hbefore hold free_newEntry hnow rfl hcount
        ⟨rfl, rfl, rfl, rfl⟩
    refine ⟨hput.1, hput.2, .put j old hpresent hold ?_ rfl⟩
    obtain hfree | hexpired | hall := htake
    · exact .inl hfree
    · exact .inr (.inl hexpired)
    · refine .inr (.inr fun i e he => hall i ?_ e he)
      rw [hplaces]
      apply mem_places
      rw [length_cells]
      exact (List.getElem?_eq_some_iff.mp he).1

/-! ### The other operations -/

theorem Inv.after_invalidate (h : Inv c m) :
    (present c ⟨key, scope.toUInt8, family, policyPrio⟩ = none ∧
      invalidate c scope family key policyPrio now = none) ∨
    ∃ c' e, present c ⟨key, scope.toUInt8, family, policyPrio⟩ = some e ∧
      invalidate c scope family key policyPrio now = some c' ∧
      Inv c' (update m e.key (some { e with validUntilMs := now })) := by
  unfold invalidate present
  cases hfound : findExact c ⟨key, scope.toUInt8, family, policyPrio⟩ with
  | none => exact .inl ⟨rfl, rfl⟩
  | some found =>
    obtain ⟨i, e⟩ := found
    obtain ⟨hi, hfree, hkey⟩ := h.findExact_iff.mp hfound
    let expired : Entry := { e with validUntilMs := now }
    have hstored : Inv { c with entries := c.entries.set i expired }
        (update m e.key (some expired)) :=
      (h.rewrite hi hfree (show expired.key = e.key from rfl) hfree (h.used i e hi)).1
    exact .inr ⟨_, e, rfl, rfl, hstored⟩

/-- What a line that goes down leaves of an entry. -/
theorem wanDown_same (wanId : UInt8) (e : Entry) :
    (e.wanDown wanId now).key = e.key ∧ (e.wanDown wanId now).free = e.free ∧
      (e.wanDown wanId now).lastUsedMs = e.lastUsedMs ∧
      (e.wanDown wanId now).validUntilMs = e.validUntilMs := by
  unfold Entry.wanDown
  dsimp only
  split
  · exact ⟨rfl, rfl, rfl, rfl⟩
  · split <;> exact ⟨rfl, rfl, rfl, rfl⟩

theorem cells_wanDown (wanId : UInt8) : cells (c.entries.map (Entry.wanDown wanId now)) =
      (cells c.entries).map (Cell.map (Entry.wanDown wanId now)) := by
  unfold cells
  rw [List.map_map, List.map_map]
  refine map_congr_left fun e _ => ?_
  show (e.wanDown wanId now).cell = Cell.map (Entry.wanDown wanId now) e.cell
  cases hfree : e.free with
  | true =>
    rw [cell_free hfree, cell_free ((wanDown_same wanId e).2.1.trans hfree)]
    rfl
  | false =>
    rw [cell_live hfree, cell_live ((wanDown_same wanId e).2.1.trans hfree)]
    rfl

theorem used_map {f : Entry → Entry} (cs : List (Cell Entry)) :
    used (cs.map (Cell.map f)) = used cs := by
  unfold used Slots.used
  rw [countP_map]
  congr 1
  funext cell
  cases cell <;> rfl

theorem Inv.after_wanDown (h : Inv c m) (wanId : UInt8) : Inv (markWanDown c wanId now).1
      (if wanId = 0 then m else fun k => (m k).map (Entry.wanDown wanId now)) := by
  unfold markWanDown
  by_cases hwan : wanId = 0
  · rw [if_pos hwan, if_pos hwan]
    exact h
  rw [if_neg hwan, if_neg hwan]
  have hcapacity : ({ c with entries := c.entries.map (Entry.wanDown wanId now) } : Cache).capacity =
      c.capacity := length_map ..
  obtain ⟨j, hj, hpow⟩ := h.capacity
  refine ⟨⟨⟨j, hj, hcapacity.trans hpow⟩, ?_⟩, ?_, ?_, ?_, h.lookups, h.hits⟩
  · rw [hcapacity, cells_wanDown]
    exact h.reachable.map fun e => (wanDown_same wanId e).1
  · rw [cells_wanDown, used_map]
    exact h.count
  · intro k e he
    rw [present_eq (hcapacity.trans hpow), hcapacity, cells_wanDown,
      find_map fun e => (wanDown_same wanId e).1, ← h.present_eq_find] at he
    obtain ⟨e₀, he₀, rfl⟩ := map_eq_some_iff.mp he
    rw [h.remembered k e₀ he₀]
    rfl
  · intro i e he
    rw [getElem?_map] at he
    obtain ⟨e₀, he₀, rfl⟩ := map_eq_some_iff.mp he
    rw [(wanDown_same wanId e₀).2.2.1]
    exact h.used i e₀ he₀

/-- A table of free slots. -/
theorem cells_blank (entries : List Entry) (h : ∀ e ∈ entries, e = Entry.zero) (i : ℕ) (e : Entry) :
    (cells entries)[i]? ≠ some (.live e) := by
  intro hi
  obtain ⟨hentry, hfree⟩ := cells_live.mp hi
  rw [h e (mem_of_getElem? hentry)] at hfree
  cases hfree

theorem inv_blank (hcapacity : ∃ j, 1 ≤ j ∧ c.capacity = 2 ^ j)
    (hblank : ∀ e ∈ c.entries, e = Entry.zero) (hcount : c.count = 0)
    (hlookups : c.lookups = c.hits + c.misses)
    (hhits : c.hits = c.hitsByScope.asn + c.hitsByScope.country + c.hitsByScope.city) :
    Inv c fun _ => none := by
  have hno := cells_blank c.entries hblank
  have hreachable : Reachable Entry.key (start c.capacity) (cells c.entries) :=
    fun i e hi => absurd hi (hno i e)
  refine ⟨⟨hcapacity, hreachable⟩, ?_, ?_, ?_, hlookups, hhits⟩
  · rw [hcount]
    symm
    unfold used Slots.used
    rw [countP_eq_zero]
    intro cell hcell
    obtain ⟨i, hi⟩ := getElem?_of_mem hcell
    cases cell with
    | live e => exact absurd hi (hno i e)
    | empty => nofun
    | tomb => nofun
  · intro k e he
    obtain ⟨i, hi, hfree, -⟩ := Table.present_iff ⟨hcapacity, hreachable⟩ |>.mp he
    exact absurd (cells_live.mpr ⟨hi, hfree⟩) (hno i e)
  · intro i e he
    rw [hblank e (mem_of_getElem? he)]
    decide

theorem Inv.after_clear (h : Inv c m) : Inv (clear c) fun _ => none := by
  obtain ⟨j, hj, hpow⟩ := h.capacity
  refine inv_blank ⟨j, hj, (length_map ..).trans hpow⟩ (fun e he => ?_) rfl h.lookups h.hits
  obtain ⟨_, -, rfl⟩ := List.mem_map.mp he
  rfl

/-! ### Runs -/

/-- What is remembered after a record, if it is made. -/
def noteRecord (c : Cache) (scope : UInt32) (family : UInt8) (key : UInt64) (policyPrio : UInt16)
    (paths : List Path) (now ttl : ℕ) (m : Key → Option Entry) : Key → Option Entry :=
  match recordPaths scope family key policyPrio paths with
  | none => m
  | some paths =>
    let k : Key := ⟨key, scope.toUInt8, family, policyPrio⟩
    update m k (some (recorded c k paths now ttl))

/-- What is remembered after an entry is invalidated. -/
def noteInvalidate (c : Cache) (k : Key) (now : ℕ) (m : Key → Option Entry) : Key → Option Entry :=
  match present c k with
  | none => m
  | some e => update m e.key (some { e with validUntilMs := now })

/-- The states of a run of the cache, with what is remembered of the records, and the time. -/
inductive Run : Cache → (Key → Option Entry) → ℕ → Prop
  | start (j : ℕ) (c : Cache) (hj : 1 ≤ j) (hc : Cache.init (2 ^ j) = some c) :
    Run c (fun _ => none) 0
  | lookup (c : Cache) (m : Key → Option Entry) (now now' : ℕ) (d : Destination)
    (policyPrio : UInt16) (h : Run c m now) (hnow : now ≤ now') (hmax : now' < UINT64_MAX) :
    Run (lookup c d policyPrio now').2 (noteLookup c d policyPrio now' m) now'
  | record (c : Cache) (m : Key → Option Entry) (now now' ttl : ℕ) (scope : UInt32) (family : UInt8)
    (key : UInt64) (policyPrio : UInt16) (paths : List Path) (h : Run c m now) (hnow : now ≤ now')
    (hmax : now' < UINT64_MAX) (httl : now' + lifetime ttl < 2 ^ 64) :
    Run ((record c scope family key policyPrio paths now' ttl).getD c)
      (noteRecord c scope family key policyPrio paths now' ttl m) now'
  | invalidate (c : Cache) (m : Key → Option Entry) (now now' : ℕ) (scope : UInt32) (family : UInt8)
    (key : UInt64) (policyPrio : UInt16) (h : Run c m now) (hnow : now ≤ now')
    (hmax : now' < UINT64_MAX) :
    Run ((invalidate c scope family key policyPrio now').getD c)
      (noteInvalidate c ⟨key, scope.toUInt8, family, policyPrio⟩ now' m) now'
  | markWanDown (c : Cache) (m : Key → Option Entry) (now now' : ℕ) (wanId : UInt8) (h : Run c m now)
    (hnow : now ≤ now') (hmax : now' < UINT64_MAX) :
    Run (markWanDown c wanId now').1
      (if wanId = 0 then m else fun k => (m k).map (Entry.wanDown wanId now')) now'
  | clear (c : Cache) (m : Key → Option Entry) (now : ℕ) (h : Run c m now) :
    Run (clear c) (fun _ => none) now

theorem record_refused (h : recordPaths scope family key policyPrio paths = none) :
    record c scope family key policyPrio paths now ttl = none := by
  unfold record
  rw [h]
  rfl

theorem run_inv (h : Run c m now) : Inv c m := by
  induction h with
  | start j c hj hc =>
    unfold Cache.init at hc
    split at hc
    · obtain rfl := some.inj hc
      refine inv_blank ⟨j, hj, length_replicate ..⟩ (fun e he => ?_) rfl rfl rfl
      exact eq_of_mem_replicate he
    · cases hc
  | lookup c m now now' d policyPrio _ _ hmax ih => exact (ih.after_lookup d policyPrio hmax).1
  | record c m now now' ttl scope family key policyPrio paths _ _ hmax _ ih =>
    unfold noteRecord
    cases hpaths : recordPaths scope family key policyPrio paths with
    | none =>
      rw [record_refused hpaths]
      exact ih
    | some paths' =>
      obtain ⟨c', hc', hinv, -⟩ : ∃ c', record c scope family key policyPrio paths now' ttl =
        some c' ∧ _ := ih.after_record hmax hpaths
      rw [hc']
      exact hinv
  | invalidate c m now now' scope family key policyPrio _ _ _ ih =>
    unfold noteInvalidate
    obtain ⟨hnone, hc'⟩ | ⟨c', e, hsome, hc', hinv⟩ := ih.after_invalidate
    · rw [hnone, hc']
      exact ih
    · rw [hsome, hc']
      exact hinv
  | markWanDown c m now now' wanId _ _ _ ih => exact ih.after_wanDown wanId
  | clear c m now _ ih => exact ih.after_clear

/-! ### What holds in every state -/

/-- The cache is a map that forgets, for a new entry, one that has expired, or one that has not been
    used for longest when none has. -/
structure Holds (c : Cache) (m : Key → Option Entry) (now : ℕ) : Prop where
  distinct : ∀ (i j : ℕ) e e', c.entries[i]? = some e → c.entries[j]? = some e' →
    e.free = false → e'.free = false → e.key = e'.key → i = j
  reached : ∀ (i : ℕ) e, c.entries[i]? = some e → e.free = false →
    findExact c e.key = some (i, e) ∧ ∃ p < c.capacity,
      i = (start c.capacity e.key + p) &&& (c.capacity - 1) ∧
      ∀ q < p, ∃ e', c.entries[(start c.capacity e.key + q) &&& (c.capacity - 1)]? = some e' ∧
        e'.free = false
  count : c.count = c.entries.countP fun e => !e.free
  remembered : ∀ k e, present c k = some e → m k = some e
  lookup : ∀ now', now ≤ now' → now' < UINT64_MAX → ∀ d policyPrio,
    (lookup c d policyPrio now').1 = if d.valid policyPrio then
      (answer c policyPrio now' d d.scopes).map fun a => (a.1, a.2.touch now') else none
  record : ∀ now', now ≤ now' → now' < UINT64_MAX → ∀ scope family key policyPrio paths paths' ttl,
    recordPaths scope family key policyPrio paths = some paths' → now' + lifetime ttl < 2 ^ 64 →
    let k : Key := ⟨key, scope.toUInt8, family, policyPrio⟩
    let e := recorded c k paths' now' ttl
    e.validUntilMs = now' + lifetime ttl ∧
      ∃ c', record c scope family key policyPrio paths now' ttl = some c' ∧ present c' k = some e ∧
        Records c k e now' c'
  lookups : c.lookups = c.hits + c.misses
  hits : c.hits = c.hitsByScope.asn + c.hitsByScope.country + c.hitsByScope.city

theorem Table.distinct (h : Table c) {j : ℕ} (hi : c.entries[i]? = some e)
    (hj : c.entries[j]? = some e') (hfree : e.free = false) (hfree' : e'.free = false)
    (hkey : e.key = e'.key) : i = j := by
  have hi' := h.findExact_iff.mpr ⟨hi, hfree, rfl⟩
  have hj' := h.findExact_iff.mpr ⟨hj, hfree', hkey.symm⟩
  exact congrArg Prod.fst (some.inj (hi'.symm.trans hj'))

/-- An entry is found by probing from the slot of its hash. -/
theorem Table.reached (h : Table c) (hi : c.entries[i]? = some e) (hfree : e.free = false) :
    findExact c e.key = some (i, e) ∧ ∃ p < c.capacity,
      i = (start c.capacity e.key + p) &&& (c.capacity - 1) ∧
      ∀ q < p, ∃ e', c.entries[(start c.capacity e.key + q) &&& (c.capacity - 1)]? = some e' ∧
        e'.free = false := by
  have hfound := h.findExact_iff.mpr ⟨hi, hfree, rfl⟩
  refine ⟨hfound, ?_⟩
  obtain ⟨before, after, hslots, hbefore⟩ := findExactLoop_before hfound
  -- the number of the probe is the length of what is in front of it
  have hprobe : ∀ p : ℕ, (probes c.capacity e.key)[p]? = (List.range c.capacity)[p]?.map
        fun probe => (start c.capacity e.key + probe) &&& (c.capacity - 1) := by
    intro p
    unfold probes
    rw [getElem?_map]
  have hlen : before.length < c.capacity := by
    have hall := congrArg List.length hslots
    unfold probes at hall
    rw [length_map, length_range, length_append, length_cons] at hall
    omega
  refine ⟨before.length, hlen, ?_, ?_⟩
  · have hat := hprobe before.length
    rw [hslots, getElem?_append_right (Nat.le_refl _), Nat.sub_self, getElem?_cons_zero,
      getElem?_range hlen] at hat
    exact some.inj hat
  · intro q hq
    have hat := hprobe q
    rw [hslots, getElem?_append_left hq, getElem?_range (hq.trans hlen)] at hat
    exact hbefore _ (mem_of_getElem? hat)

theorem used_cells (entries : List Entry) :
    Probing.used (cells entries) = entries.countP fun e => !e.free := by
  unfold Probing.used Slots.used cells
  rw [countP_map]
  congr 1
  funext e
  cases hfree : e.free with
  | true => simp [cell_free hfree, Cell.key]
  | false => simp [cell_live hfree, Cell.key]

theorem validUntil_recorded (h : now + lifetime ttl < 2 ^ 64) :
    (recorded c k paths now ttl).validUntilMs = now + lifetime ttl := Nat.mod_eq_of_lt h

/-- **In every state of a run**, the cache is a map that forgets. -/
theorem cache_run (h : Run c m now) : Holds c m now := by
  have hinv := run_inv h
  constructor
  · exact fun i j e e' hi hj hfree hfree' hkey => hinv.distinct hi hj hfree hfree' hkey
  · exact fun i e hi hfree => hinv.toTable.reached hi hfree
  · rw [hinv.count, used_cells]
  · exact hinv.remembered
  · intro now' _ hmax d policyPrio
    by_cases hvalid : d.valid policyPrio
    · rw [if_pos hvalid]
      exact (hinv.after_lookup d policyPrio hmax).2 hvalid
    · rw [if_neg hvalid, lookup_invalid hvalid]
  · intro now' _ hmax scope family key policyPrio paths paths' ttl hpaths httl
    obtain ⟨c', hc', -, hpresent, hrecords⟩ : ∃ c', record c scope family key policyPrio paths now'
      ttl = some c' ∧ _ := hinv.after_record hmax hpaths
    exact ⟨validUntil_recorded httl, c', hc', hpresent, hrecords⟩
  · exact hinv.lookups
  · exact hinv.hits

/-- A city is recorded in a cache of two slots, and a destination in it is looked up. -/
theorem cache_run_city : ∃ c m, Run c m 9 ∧ c.count = 1 ∧ c.hitsByScope.city = 1 ∧ Holds c m 9 := by
  have hstart : Run { entries := List.replicate 2 Entry.zero } (fun _ => none) 0 :=
    .start 1 _ (Nat.le_refl 1) rfl
  have hrecord := hstart.record _ _ 0 5 100 3 AF_INET (qoeKey 1 2) 1 [⟨1, true, 90, 20000, 0, 0⟩]
    (by decide) (by decide) (by decide)
  have hlookup := hrecord.lookup _ _ 5 9 ⟨1, 2, 3, AF_INET⟩ 1 (by decide) (by decide)
  exact ⟨_, _, hlookup, by decide +kernel, by decide +kernel, cache_run hlookup⟩

end DreamingOS.Qoe
