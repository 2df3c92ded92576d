import DreamingOS.ReadCache.Steps
import Mathlib.Data.Int.ConditionallyCompleteOrder
import Mathlib.Order.ConditionallyCompleteLattice.Basic

namespace DreamingOS.ReadCache

open List Option

/-!
# The read cache — what has happened to a key

A run leaves notes: a snapshot was stored for a key, a key was requested, the entry of a key is
gone.  The table is at all times what the notes say.

* `snapshot`, `lastRequest` — the snapshot of a key and its last request, read off the notes;
* `inv_run` — **so it does in every run**.
-/

variable {J B : Type}

/-! ### Notes -/

inductive Note (J : Type) where
  | stored (key : Key) (obj : J) (at' : ℤ)
  | requested (key : Key) (at' : ℤ)
  | gone (key : Key)

def Note.key : Note J → Key
  | .stored key _ _ => key
  | .requested key _ => key
  | .gone key => key

/-- The snapshot last stored for a key and the time it was stored, unless the entry of the key has
    gone since; the newest note comes first. -/
def snapshot : List (Note J) → Key → Option (J × ℤ)
  | [], _ => none
  | .stored k obj t :: notes, key => if k = key then some (obj, t) else snapshot notes key
  | .requested _ _ :: notes, key => snapshot notes key
  | .gone k :: notes, key => if k = key then none else snapshot notes key

/-- When a key was last requested. -/
def lastRequest : List (Note J) → Key → Option ℤ
  | [], _ => none
  | .requested k t :: notes, key => if k = key then some t else lastRequest notes key
  | .stored _ _ _ :: notes, key => lastRequest notes key
  | .gone _ :: notes, key => lastRequest notes key

variable {news : List (Note J)}

theorem snapshot_other {key : Key} (h : ∀ n ∈ news, n.key ≠ key)
    (notes : List (Note J)) : snapshot (news ++ notes) key = snapshot notes key := by
  induction news with
  | nil => rfl
  | cons n news ih =>
    have hn := h n mem_cons_self
    have hrest := ih fun m hm => h m (mem_cons_of_mem n hm)
    cases n with
    | stored k obj t =>
      have hk : k ≠ key := hn
      rw [cons_append, snapshot, if_neg hk, hrest]
    | requested k t => exact hrest
    | gone k =>
      have hk : k ≠ key := hn
      rw [cons_append, snapshot, if_neg hk, hrest]

theorem lastRequest_other {key : Key} (h : ∀ n ∈ news, n.key ≠ key)
    (notes : List (Note J)) : lastRequest (news ++ notes) key = lastRequest notes key := by
  induction news with
  | nil => rfl
  | cons n news ih =>
    have hn := h n mem_cons_self
    have hrest := ih fun m hm => h m (mem_cons_of_mem n hm)
    cases n with
    | stored k obj t => exact hrest
    | requested k t =>
      have hk : k ≠ key := hn
      rw [cons_append, lastRequest, if_neg hk, hrest]
    | gone k => exact hrest

theorem snapshot_gone (keys : List Key) (notes : List (Note J)) (key : Key) :
    snapshot (keys.map .gone ++ notes) key = if key ∈ keys then none else snapshot notes key := by
  induction keys with
  | nil => rw [if_neg not_mem_nil]; rfl
  | cons k keys ih =>
    rw [map_cons, cons_append, snapshot]
    by_cases hk : k = key
    · rw [if_pos hk, if_pos (by rw [hk]; exact mem_cons_self)]
    · rw [if_neg hk, ih]
      simp only [mem_cons, Ne.symm hk, false_or]

theorem lastRequest_gone (keys : List Key) (notes : List (Note J)) (key : Key) :
    lastRequest (keys.map .gone ++ notes) key = lastRequest notes key := by
  induction keys with
  | nil => rfl
  | cons k keys ih => exact ih

/-! ### The notes of a call -/

/-- The keys that have an entry in `s` and none in `s'`. -/
def goneKeys (s s' : State J B) : List Key :=
  (s.entries.filterMap Entry.id).filter fun k => (lookup s'.entries k).isNone

variable (json : JsonC J) (clock : ℕ → ℤ)

/-- What a call stores. -/
def stores (s : State J B) (r : Reply J B) : Call J B → List (Note J)
  | .put key (some obj) _ _ _ => [.stored key obj (clock (s.reads + 1))]
  | .tick _ => r.builds.filterMap fun b => b.answer.map fun obj => .stored b.key obj b.storedAtMs
  | _ => []

/-- What a call requests; a snapshot that is put for a new key counts as a request. -/
def requests (s : State J B) : Call J B → List (Note J)
  | .get key _ _ _ => [.requested key (clock (s.reads + 1))]
  | .prewarm key _ (some _) _ => [.requested key (clock (s.reads + 1))]
  | .put key (some _) _ _ _ =>
    if (lookup s.entries key).isSome then [] else [.requested key (clock s.reads)]
  | _ => []

def notesOf (s : State J B) (c : Call J B) : List (Note J) :=
  let (s', r) := step json clock s c
  (goneKeys s s').map .gone ++ (stores clock s r c ++ requests clock s c)

/-- The handlers use valid keys. -/
def Call.Valid : Call J B → Prop
  | .get key _ _ _ => ValidKey key
  | .put key _ _ _ _ => ValidKey key
  | .prewarm key _ _ _ => ValidKey key
  | .tick _ => True

/-- The states that a sequence of calls can reach, with the notes it leaves. -/
inductive Run : List (Note J) → State J B → Prop where
  | init : Run [] .init
  | step {notes : List (Note J)} {s : State J B} {c : Call J B} (h : Run notes s) (hc : c.Valid) :
      Run (notesOf json clock s c ++ notes) (step json clock s c).1

/-! ### The invariant -/

/-- The snapshot of an entry. -/
def Entry.shot (e : Entry J B) : Option (J × ℤ) := e.obj.map fun obj => (obj, e.builtAtMs)

/-- The table agrees with the notes, and no snapshot is younger than the clock. -/
structure Inv (notes : List (Note J)) (s : State J B) : Prop where
  distinct : Slots.Distinct Entry.id s.entries
  shot : ∀ key, (lookup s.entries key).bind Entry.shot = snapshot notes key
  requested : ∀ key e, lookup s.entries key = some e →
    lastRequest notes key = some e.lastRequestedMs
  built : ∀ key e, lookup s.entries key = some e → e.obj.isSome = true → e.builtAtMs ≤ clock s.reads

theorem mem_goneKeys {s s' : State J B} {key : Key} : key ∈ goneKeys s s' ↔
    (lookup s.entries key).isSome = true ∧ lookup s'.entries key = none := by
  unfold goneKeys
  rw [mem_filter, isNone_iff_eq_none]
  apply and_congr_left'
  rw [mem_filterMap, isSome_iff_ne_none, ne_eq, lookup, Slots.lookup_eq_none]
  push Not
  rfl

/-- No key is gone that is held still. -/
theorem goneKeys_eq_nil {s s' : State J B}
    (h : ∀ k, (lookup s.entries k).isSome = true → (lookup s'.entries k).isSome = true) :
    goneKeys s s' = [] := by
  apply eq_nil_iff_forall_not_mem.mpr
  intro k hk
  obtain ⟨hsome, hnone⟩ := mem_goneKeys.mp hk
  have hsome' := h k hsome
  rw [hnone] at hsome'
  cases hsome'

variable {json clock} {notes : List (Note J)} {s s' : State J B}

theorem lookup_init (key : Key) : lookup (State.init : State J B).entries key = none := by
  rw [lookup, Slots.lookup_eq_none]
  intro e he
  rw [eq_of_mem_replicate he]
  nofun

theorem inv_init : Inv clock [] (.init : State J B) where
  distinct := by
    intro i j a b k hi _ ha _
    rw [eq_of_mem_replicate (mem_of_getElem? hi)] at ha
    cases ha
  shot := fun key => by rw [lookup_init]; rfl
  requested := by
    intro key e he
    rw [lookup_init] at he
    cases he
  built := by
    intro key e he
    rw [lookup_init] at he
    cases he

/-- The entry of one key is rewritten, and the news are about that key. -/
theorem Inv.rewrite (hclock : Monotone clock) (h : Inv clock notes s) (news : List (Note J))
    {key : Key} {e' : Entry J B} (hd : Slots.Distinct Entry.id s'.entries)
    (hreads : s.reads ≤ s'.reads) (hmine : lookup s'.entries key = some e')
    (hother : ∀ k, k ≠ key → lookup s'.entries k = lookup s.entries k ∨ lookup s'.entries k = none)
    (hnews : ∀ n ∈ news, n.key = key) (hshot : snapshot (news ++ notes) key = e'.shot)
    (hrequest : lastRequest (news ++ notes) key = some e'.lastRequestedMs)
    (hbuilt : e'.obj.isSome = true → e'.builtAtMs ≤ clock s'.reads) :
    Inv clock ((goneKeys s s').map .gone ++ (news ++ notes)) s' := by
  have hforeign : ∀ k, k ≠ key → ∀ n ∈ news, n.key ≠ k :=
    fun k hk n hn heq => hk (heq.symm.trans (hnews n hn))
  refine ⟨hd, fun k => ?_, fun k e he => ?_, fun k e he hobj => ?_⟩
  · rw [snapshot_gone]
    by_cases hk : k = key
    · subst hk
      have hstays : k ∉ goneKeys s s' := by
        rw [mem_goneKeys, hmine]
        nofun
      rw [if_neg hstays, hmine, hshot]
      rfl
    · rw [snapshot_other (hforeign k hk), ← h.shot k]
      rcases hother k hk with hsame | hgone
      · rw [hsame]
        split
        · next hmem =>
          rw [mem_goneKeys, hsame] at hmem
          rw [hmem.2]
          rfl
        · rfl
      · rw [hgone]
        split
        · rfl
        rename_i hmem
        cases hold : lookup s.entries k with
        | none => rfl
        | some e => exact absurd (mem_goneKeys.mpr ⟨by rw [hold]; rfl, hgone⟩) hmem
  · rw [lastRequest_gone]
    by_cases hk : k = key
    · subst hk
      rw [hmine] at he
      rw [hrequest, some.inj he]
    rw [lastRequest_other (hforeign k hk)]
    rcases hother k hk with hsame | hgone
    · exact h.requested k e (hsame ▸ he)
    · rw [hgone] at he
      cases he
  · by_cases hk : k = key
    · subst hk
      rw [hmine] at he
      obtain rfl := some.inj he
      exact hbuilt hobj
    · rcases hother k hk with hsame | hgone
      · exact Int.le_trans (h.built k e (hsame ▸ he) hobj) (hclock hreads)
      · rw [hgone] at he
        cases he

/-! ### The calls of the handlers -/

section

variable {key : Key} {now : ℤ} {i : ℕ} {old e e' : Entry J B}

theorem Inv.writes (hclock : Monotone clock) (h : Inv clock notes s)
    (hw : Writes s s' key now i old e e') (hreads : s.reads ≤ s'.reads)
    (hnews : ∀ n ∈ news, n.key = key) (hshot : snapshot (news ++ notes) key = e'.shot)
    (hrequest : lastRequest (news ++ notes) key = some e'.lastRequestedMs)
    (hbuilt : e'.obj.isSome = true → e'.builtAtMs ≤ clock s'.reads) :
    Inv clock ((goneKeys s s').map .gone ++ (news ++ notes)) s' := by
  apply h.rewrite hclock _ (hw.distinct h.distinct) hreads _ _ hnews hshot hrequest hbuilt
  · rw [hw.lookup h.distinct, if_pos rfl]
  · intro k hk
    rw [hw.lookup h.distinct, if_neg hk]
    split
    · exact .inr rfl
    · exact .inl rfl

/-- The snapshot that a call finds is that of the notes. -/
theorem Inv.shot_before (h : Inv clock notes s) (hw : Writes s s' key now i old e e') :
    e.shot = snapshot notes key := by
  rw [← h.shot key]
  rcases hw.before h.distinct with hfound | ⟨hfree, rfl⟩
  · rw [hfound]
    rfl
  · rw [hfree]
    rfl

theorem Inv.built_before (h : Inv clock notes s) (hw : Writes s s' key now i old e e')
    (hobj : e.obj.isSome = true) : e.builtAtMs ≤ clock s.reads := by
  rcases hw.before h.distinct with hfound | ⟨-, rfl⟩
  · exact h.built key e hfound hobj
  · cases hobj

/-- A request that leaves the snapshot alone. -/
theorem Inv.request (hclock : Monotone clock) (h : Inv clock notes s)
    (hw : Writes s s' key now i old e e') (hreads : s.reads ≤ s'.reads)
    (hobj : e'.obj = e.obj) (hbuilt : e'.builtAtMs = e.builtAtMs) :
    Inv clock ((goneKeys s s').map .gone ++ ([.requested key e'.lastRequestedMs] ++ notes)) s' := by
  apply h.writes hclock hw hreads
  · intro n hn
    rw [mem_singleton.mp hn]
    rfl
  · have hsame : e'.shot = e.shot := by unfold Entry.shot; rw [hobj, hbuilt]
    rw [hsame, h.shot_before hw]
    rfl
  · exact if_pos rfl
  · intro hsome
    rw [hobj] at hsome
    rw [hbuilt]
    exact Int.le_trans (h.built_before hw hsome) (hclock hreads)

theorem inv_get (hclock : Monotone clock) (h : Inv clock notes s) (hk : ValidKey key) (ttlMs : ℤ)
    (input : Option J) (fn : Option B) :
    Inv clock (notesOf json clock s (.get key ttlMs input fn) ++ notes)
      (get json clock s key ttlMs input fn).1 := by
  obtain ⟨i, old, e, hw, -⟩ := get_writes json clock hk s ttlMs input fn
  have hinv := h.request hclock hw (Nat.le_add_right _ 2) rfl rfl
  rw [notesOf, append_assoc]
  exact hinv

theorem inv_prewarm (hclock : Monotone clock) (h : Inv clock notes s) (hk : ValidKey key)
    (input : Option J) (fn : Option B) (ttlMs : ℤ) :
    Inv clock (notesOf json clock s (.prewarm key input fn ttlMs) ++ notes)
      (prewarm json clock s key input fn ttlMs) := by
  cases fn with
  | none =>
    have hgone := goneKeys_eq_nil (s := s) fun _ hk => hk
    rw [notesOf]
    dsimp only [step, prewarm, stores, requests]
    rw [hgone]
    exact h
  | some fn =>
    obtain ⟨i, old, e, hw⟩ := prewarm_writes json clock hk s input fn ttlMs
    have hinv := h.request hclock hw (Nat.le_add_right _ 3) rfl rfl
    rw [notesOf, append_assoc]
    exact hinv

theorem inv_put (hclock : Monotone clock) (h : Inv clock notes s) (hk : ValidKey key)
    (obj : Option J) (ttlMs : ℤ) (fn : Option B) (input : Option J) :
    Inv clock (notesOf json clock s (.put key obj ttlMs fn input) ++ notes)
      (put json clock s key obj ttlMs fn input) := by
  cases obj with
  | none =>
    have hgone := goneKeys_eq_nil (s := s) fun _ hk => hk
    rw [notesOf]
    dsimp only [step, put, stores, requests]
    rw [hgone]
    exact h
  | some obj =>
    obtain ⟨i, old, e, hw⟩ := put_writes json clock hk s obj ttlMs fn input
    rw [notesOf, append_assoc]
    apply h.writes hclock hw (Nat.le_add_right _ 2)
    · intro n hn
      rcases mem_append.mp hn with hn | hn
      · rw [mem_singleton.mp hn]
        rfl
      · simp only [requests] at hn
        split at hn
        · cases hn
        · rw [mem_singleton.mp hn]
          rfl
    · exact if_pos rfl
    · -- the entry was requested before, or it is new and this is its first request
      rcases hw.before h.distinct with hfound | ⟨hfree, rfl⟩
      · have hlast := h.requested key e hfound
        simp only [requests, hfound, isSome_some, if_true]
        exact hlast
      · simp only [requests, hfree, isSome_none, Bool.false_eq_true, if_false]
        exact if_pos rfl
    · exact fun _ => hclock (Nat.le_succ _)

end

/-! ### Ticks -/

theorem Refreshed.id_eq {n : ℕ} {e e' : Entry J B} {b : Build J B}
    (h : Refreshed clock n e e' b) : e'.id = e.id := by
  unfold Entry.id
  rw [h.key_eq]

/-- A due entry has a key. -/
theorem key_of_isDue {e : Entry J B} {now : ℤ} (h : e.isDue now = true) : e.key ≠ [] := by
  simp only [Entry.isDue, Bool.and_eq_true, decide_eq_true_eq] at h
  exact h.1.1.1.1

variable {builds : List (Build J B)}

/-- What the entries of the keys are after the loop of a tick. -/
theorem Looped.distinct (hl : Looped clock s s' builds)
    (hd : Slots.Distinct Entry.id s.entries) : Slots.Distinct Entry.id s'.entries := by
  cases hl with
  | idle _ hentries _ _ => rw [hentries]; exact hd
  | built i n e e' b _ hplace _ href hentries _ _ _ =>
    rw [hentries]
    exact hd.set_same hplace (.inl href.id_eq)

theorem lookup_refreshed {e e' : Entry J B} {j n : ℕ} {b : Build J B}
    (hd : Slots.Distinct Entry.id s.entries) (hplace : s.entries[j]? = some e)
    (hkey : e.key ≠ []) (href : Refreshed clock n e e' b) (k : Key) :
    lookup (s.entries.set j e') k = if k = e.key then some e' else lookup s.entries k := by
  unfold lookup
  rw [Slots.lookup_set hd hplace (hd.set_same hplace (.inl href.id_eq)), href.id_eq,
    Entry.id_of_key rfl hkey]
  by_cases hk : k = e.key
  · rw [if_pos (by rw [hk]), if_pos hk]
  · have hk' : some e.key ≠ some k := fun h => hk (some.inj h).symm
    rw [if_neg hk', if_neg hk', if_neg hk]

/-- Building loses no key. -/
theorem Looped.held (hl : Looped clock s s' builds)
    (hd : Slots.Distinct Entry.id s.entries) (k : Key) :
    (lookup s'.entries k).isSome = (lookup s.entries k).isSome := by
  cases hl with
  | idle _ hentries _ _ => rw [hentries]
  | built i n e e' b _ hplace hdue href hentries _ _ _ =>
    rw [hentries, lookup_refreshed hd hplace (key_of_isDue hdue) href]
    split
    · next hk =>
      have hfound := Slots.lookup_of_getElem hd hplace (Entry.id_of_key rfl (key_of_isDue hdue))
      rw [hk, lookup, hfound]
      rfl
    · rfl

/-- What the builders of a tick have stored. -/
def builtNotes (builds : List (Build J B)) : List (Note J) :=
  builds.filterMap fun b => b.answer.map fun obj => .stored b.key obj b.storedAtMs

theorem Inv.looped (hclock : Monotone clock) (h : Inv clock notes s)
    (hl : Looped clock s s' builds) : Inv clock (builtNotes builds ++ notes) s' := by
  have hd' := hl.distinct h.distinct
  have hheld := hl.held h.distinct
  cases hl with
  | idle _ hentries _ hreads =>
    refine ⟨hd', fun k => ?_, fun k e he => ?_, fun k e he hobj => ?_⟩
    · rw [hentries]
      exact h.shot k
    · rw [hentries] at he
      exact h.requested k e he
    · rw [hentries] at he
      exact Int.le_trans (h.built k e he hobj) (hclock hreads)
  | built i n e e' b _ hplace hdue href hentries _ hreads hbefore =>
    have hkey := key_of_isDue hdue
    have hlook := lookup_refreshed h.distinct hplace hkey href
    rw [← hentries] at hlook
    have hfound : lookup s.entries e.key = some e :=
      Slots.lookup_of_getElem h.distinct hplace (Entry.id_of_key rfl hkey)
    have hshot : e.shot = snapshot notes e.key := by
      rw [← h.shot e.key, hfound]
      rfl
    have hlast : lastRequest notes e.key = some e'.lastRequestedMs := by
      rw [href.lastRequested]
      exact h.requested _ _ hfound
    have hgone : goneKeys s s' = [] := goneKeys_eq_nil fun k hk => by rw [hheld k]; exact hk
    have hmine : lookup s'.entries e.key = some e' := by rw [hlook, if_pos rfl]
    have hother : ∀ k, k ≠ e.key →
        lookup s'.entries k = lookup s.entries k ∨ lookup s'.entries k = none :=
      fun k hk => .inl (by rw [hlook, if_neg hk])
    rcases href.answer with ⟨hnone, hobj, hbuilt⟩ | ⟨obj, hsome, hobj, hbuilt, hat⟩
    · -- the builder gave no answer: nothing is stored
      have hsame : e'.shot = e.shot := by unfold Entry.shot; rw [hobj, hbuilt]
      have hnews : builtNotes [b] = [] := by
        rw [builtNotes, filterMap_cons_none (by rw [hnone]; rfl)]
        rfl
      rw [hnews]
      have hinv := h.rewrite hclock [] hd' hreads hmine hother nofun
        (by rw [hsame]; exact hshot.symm) hlast fun hsome => by
          rw [hobj] at hsome
          rw [hbuilt]
          exact Int.le_trans (h.built _ _ hfound hsome) (hclock hreads)
      rw [hgone] at hinv
      exact hinv
    · have hnews : builtNotes [b] = [.stored e.key obj b.storedAtMs] := by
        rw [builtNotes, filterMap_cons_some (by rw [hsome]; rfl), href.build_key]
        rfl
      rw [hnews]
      have hinv := h.rewrite hclock [.stored e.key obj b.storedAtMs] hd' hreads hmine
        hother (fun m hm => by rw [mem_singleton.mp hm]; rfl)
        (by unfold Entry.shot; rw [hobj, hbuilt]; exact if_pos rfl) hlast fun _ => by
          rw [hbuilt, hat]
          exact hclock hbefore
      rw [hgone] at hinv
      exact hinv

/-- Eviction, for a table that has held the keys of `s`. -/
theorem Inv.evicted (hclock : Monotone clock) (h : Inv clock notes s')
    (hheld : ∀ k, (lookup s'.entries k).isSome = (lookup s.entries k).isSome) :
    Inv clock ((goneKeys s (evictIdle clock s')).map .gone ++ notes) (evictIdle clock s') := by
  have hlook := lookup_evictIdle clock h.distinct
  have hkept : ∀ k e, lookup (evictIdle clock s').entries k = some e →
      lookup s'.entries k = some e := by
    intro k e he
    rw [hlook, filter_eq_some_iff] at he
    exact he.1
  refine ⟨h.distinct.map (evictOne_id _), fun k => ?_, fun k e he => ?_, fun k e he hobj => ?_⟩
  · rw [snapshot_gone]
    split
    · next hmem =>
      rw [(mem_goneKeys.mp hmem).2]
      rfl
    rename_i hmem
    rw [← h.shot k]
    cases hnew : lookup (evictIdle clock s').entries k with
    | some e => rw [hkept k e hnew]
    | none =>
      cases hold : lookup s'.entries k with
      | none => rfl
      | some e =>
        exact absurd (mem_goneKeys.mpr ⟨by rw [← hheld, hold]; rfl, hnew⟩) hmem
  · rw [lastRequest_gone]
    exact h.requested k e (hkept k e he)
  · exact Int.le_trans (h.built k e (hkept k e he) hobj) (hclock (Nat.le_succ _))

theorem inv_tick (hclock : Monotone clock) (h : Inv clock notes s) (answer : B → J → Option J) :
    Inv clock (notesOf json clock s (.tick answer) ++ notes) (tick json clock s answer).1 := by
  have hloop := refreshLoop_cases json clock s answer
  have hinv := h.looped hclock hloop
  have hevicted := hinv.evicted hclock (hloop.held h.distinct)
  rw [notesOf, append_assoc, append_assoc]
  exact hevicted

/-! ### Runs -/

theorem inv_step (hclock : Monotone clock) (h : Inv clock notes s) {c : Call J B} (hc : c.Valid) :
    Inv clock (notesOf json clock s c ++ notes) (step json clock s c).1 := by
  cases c with
  | get key ttlMs input fn => exact inv_get hclock h hc ttlMs input fn
  | put key obj ttlMs fn input => exact inv_put hclock h hc obj ttlMs fn input
  | prewarm key input fn ttlMs => exact inv_prewarm hclock h hc input fn ttlMs
  | tick answer => exact inv_tick hclock h answer

/-- **In every run the table is what the notes say.** -/
theorem inv_run (hclock : Monotone clock) (h : Run json clock notes s) : Inv clock notes s := by
  induction h with
  | init => exact inv_init
  | step _ hc ih => exact inv_step hclock ih hc

end DreamingOS.ReadCache
