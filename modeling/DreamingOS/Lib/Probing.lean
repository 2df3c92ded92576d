import DreamingOS.Lib.Slots
import Mathlib.Algebra.BigOperators.Group.List.Basic
import Mathlib.Data.Nat.ModEq
import Mathlib.Data.List.Nodup

/-!
# Open addressing — a hash table in an array of cells

A key is looked for from a start cell on, cell by cell and around the end, until its entry or an
empty cell comes.  An entry that is removed may leave a tomb behind: a tomb does not end the walk,
and the first tomb or empty cell of a walk is where a missing key would be put.

* `locate` — the walk of a key;
* `Reachable` — the walk of every stored key ends at its cell;
* `Reachable.update`, `Reachable.bury`, `Reachable.insert` — what keeps that: a rewritten entry, an
  entry that becomes a tomb, and a missing key put where its walk ended;
* `Reachable.put` — a missing key may also take the cell of another one on its way;
* `find_update`, `find_bury`, `find_insert` — **what every key finds afterwards**;
* `total` — a sum over the entries, after a cell is written and over one key.

An entry that becomes an empty cell does not keep it: a key whose walk went over that cell is lost.
-/

namespace Probing

open List Option

/-- A cell of the table. -/
inductive Cell (σ : Type) where
  | empty
  | tomb
  | live (s : σ)
deriving DecidableEq

/-- What a walk ends with: the cell of the key, or that the key is missing, with the cell where it
    would be put if there is one. -/
inductive Walk where
  | found (i : ℕ)
  | missing (free : Option ℕ)

variable {σ κ : Type}

/-- The cells of a walk through `n` cells from `start` on. -/
def places (n start : ℕ) : List ℕ := (List.range n).map fun j => (start + j) % n

/-- The key of a cell in use. -/
def Cell.key (key : σ → κ) : Cell σ → Option κ
  | .live s => some (key s)
  | _ => none

/-- How many cells are in use. -/
def used (cells : List (Cell σ)) : ℕ := Slots.used (Cell.key id) cells

theorem used_set {cells : List (Cell σ)} {i : ℕ} {c : Cell σ} (d : Cell σ)
    (h : cells[i]? = some c) :
    used (cells.set i d) + (c.key id).isSome.toNat = used cells + (d.key id).isSome.toNat :=
  Slots.used_set d h

variable {cells : List (Cell σ)} {i : ℕ} {c : Cell σ}

/-- A written cell is not one of a key that neither its old nor its new content has. -/
theorem getElem?_set_live {key : σ → κ} {d : Cell σ}
    (hi : cells[i]? = some c) {m : ℕ} {t : σ} (hc : c.key key ≠ some (key t))
    (hd : d.key key ≠ some (key t)) :
    (cells.set i d)[m]? = some (.live t) ↔ cells[m]? = some (.live t) := by
  constructor
  · intro hm
    rcases Slots.getElem?_set_cases hm with ⟨-, rfl⟩ | ⟨-, hm⟩
    · exact absurd rfl hd
    · exact hm
  · intro hm
    have hmi : i ≠ m := by
      rintro rfl
      rw [hi] at hm
      exact hc (congrArg (Cell.key key) (some.inj hm))
    exact (getElem?_set_ne hmi).trans hm

/-! ### Sums over the entries -/

/-- The amount of a cell: that of its entry. -/
def Cell.amount (f : σ → ℕ) : Cell σ → ℕ
  | .live s => f s
  | _ => 0

/-- The sum of an amount over all entries. -/
def total (f : σ → ℕ) (cells : List (Cell σ)) : ℕ := (cells.map (Cell.amount f)).sum

theorem total_set (f : σ → ℕ) (d : Cell σ) (h : cells[i]? = some c) :
    total f (cells.set i d) + c.amount f = total f cells + d.amount f := by
  induction cells generalizing i with
  | nil => cases h
  | cons e cells ih =>
    cases i with
    | zero =>
      obtain rfl : e = c := some.inj h
      simp only [set_cons_zero, total, map_cons, sum_cons]
      omega
    | succ i =>
      have hrest := ih h
      simp only [set_cons_succ, total, map_cons, sum_cons] at hrest ⊢
      omega

theorem total_eq_zero {f : σ → ℕ} (h : ∀ s, .live s ∈ cells → f s = 0) : total f cells = 0 := by
  induction cells with
  | nil => rfl
  | cons c cells ih =>
    have hrest := ih fun s hs => h s (mem_cons_of_mem c hs)
    unfold total at hrest ⊢
    rw [map_cons, sum_cons, hrest]
    cases c with
    | empty => rfl
    | tomb => rfl
    | live s => exact h s mem_cons_self

variable {s : σ}

theorem amount_le_total {f : σ → ℕ} (h : cells[i]? = some (.live s)) : f s ≤ total f cells := by
  have hset := total_set f .empty h
  simp only [Cell.amount] at hset
  omega

/-- Where the keys are distinct, the sum over one key is the amount of its entry. -/
theorem total_key [DecidableEq κ] {key : σ → κ}
    (hd : Slots.Distinct (Cell.key key) cells) (f : σ → ℕ)
    (h : cells[i]? = some (.live s)) :
    total (fun t => if key t = key s then f t else 0) cells = f s := by
  have hzero : total (fun t => if key t = key s then f t else 0) (cells.set i .empty) = 0 := by
    apply total_eq_zero
    intro t ht
    obtain ⟨m, hm⟩ := getElem?_of_mem ht
    rcases Slots.getElem?_set_cases hm with ⟨-, hbad⟩ | ⟨hmi, hm⟩
    · cases hbad
    · exact if_neg fun hkey => hmi (hd m i _ _ (key s) hm h (congrArg some hkey) rfl)
  have hset := total_set (fun t => if key t = key s then f t else 0) .empty h
  simp only [Cell.amount, if_true] at hset
  omega

section

variable [DecidableEq κ] (key : σ → κ)

/-- The walk of `k` over the cells at `places`; `free` is the first tomb it has passed. -/
def walk (cells : List (Cell σ)) (k : κ) : List ℕ → Option ℕ → Walk
  | [], free => .missing free
  | i :: rest, free =>
    match cells[i]? with
    | some (.live s) => if key s = k then .found i else walk cells k rest free
    | some .tomb => walk cells k rest (free.or (some i))
    | _ => .missing (free.or (some i))

/-- Where a key is, from its start cell on. -/
def locate (start : κ → ℕ) (cells : List (Cell σ)) (k : κ) : Walk :=
  walk key cells k (places cells.length (start k)) none

variable {key}
variable {rest : List ℕ}
variable {k : κ} {free : Option ℕ}

attribute [local simp] walk in
theorem walk_found (h : walk key cells k rest free = .found i) :
    ∃ s, cells[i]? = some (.live s) ∧ key s = k := by
  induction rest generalizing free with
  | nil => cases h
  | cons j rest ih =>
    rw [walk] at h
    split at h
    case h_1 s hcell =>
      by_cases hs : key s = k
      · rw [if_pos hs] at h
        obtain rfl := Walk.found.inj h
        exact ⟨s, hcell, hs⟩
      · rw [if_neg hs] at h
        exact ih h
    case h_2 => exact ih h
    case h_3 => cases h

/-- A tomb that has been passed stays where the key would be put. -/
theorem walk_some_missing {f : ℕ}
    (h : walk key cells k rest (some f) = .missing free) : free = some f := by
  induction rest with
  | nil => exact (Walk.missing.inj h).symm
  | cons j rest ih =>
    rw [walk] at h
    split at h
    case h_1 s hcell =>
      by_cases hs : key s = k
      · rw [if_pos hs] at h
        cases h
      · rw [if_neg hs] at h
        exact ih h
    case h_2 => exact ih h
    case h_3 => exact (Walk.missing.inj h).symm

/-- The walk still ends at its cell when that cell keeps its key and no cell on the way becomes
    empty or gets the key. -/
theorem walk_congr {cells cells' : List (Cell σ)}
    {free' : Option ℕ} (h : walk key cells k rest free = .found i)
    (hi : ∃ s, cells'[i]? = some (.live s) ∧ key s = k)
    (hother : ∀ j, j ≠ i → cells'[j]? = cells[j]? ∨ cells'[j]? = some .tomb ∨
      ∃ s, cells'[j]? = some (.live s) ∧ key s ≠ k) :
    walk key cells' k rest free' = .found i := by
  induction rest generalizing free free' with
  | nil => cases h
  | cons j rest ih =>
    by_cases hji : j = i
    · subst hji
      obtain ⟨s, hcell, hs⟩ := hi
      rw [walk, hcell]
      exact if_pos hs
    -- behind the first cell the walk goes on as before
    have hrest : ∀ {f : Option ℕ}, walk key cells k rest f = .found i →
        cells'[j]? = some .tomb ∨ (∃ s, cells'[j]? = some (.live s) ∧ key s ≠ k) →
        walk key cells' k (j :: rest) free' = .found i := by
      intro f hwalk hcell
      rcases hcell with hcell | ⟨s, hcell, hs⟩
      · rw [walk, hcell]
        exact ih hwalk
      · rw [walk, hcell]
        dsimp only
        rw [if_neg hs]
        exact ih hwalk
    rw [walk] at h
    split at h
    case h_1 s hcell =>
      by_cases hs : key s = k
      · rw [if_pos hs] at h
        exact absurd (Walk.found.inj h) hji
      rw [if_neg hs] at h
      apply hrest h
      rcases hother j hji with hsame | htomb | hlive
      · exact .inr ⟨s, hsame.trans hcell, hs⟩
      · exact .inl htomb
      · exact .inr hlive
    case h_2 hcell =>
      apply hrest h
      rcases hother j hji with hsame | htomb | hlive
      · exact .inl (hsame.trans hcell)
      · exact .inl htomb
      · exact .inr hlive
    case h_3 => cases h

/-- Where a missing key would be put there is a tomb or an empty cell, and a walk for the key ends
    there once the key is put there. -/
theorem walk_insert {j : ℕ} (hrest : ∀ i ∈ rest, i < cells.length)
    (h : walk key cells k rest none = .missing (some j)) :
    (cells[j]? = some .empty ∨ cells[j]? = some .tomb) ∧ ∀ (s : σ) (free : Option ℕ), key s = k →
        walk key (cells.set j (.live s)) k rest free = .found j := by
  induction rest with
  | nil => cases h
  | cons i rest ih =>
    have hi : i < cells.length := hrest i mem_cons_self
    -- the walk stops at the cell when the key is put there
    have hstop : ∀ (s : σ) (free : Option ℕ), key s = k →
        walk key (cells.set i (.live s)) k (i :: rest) free = .found i := by
      intro s free hs
      rw [walk, getElem?_set_self hi]
      exact if_pos hs
    rw [walk] at h
    split at h
    case h_1 s hcell =>
      by_cases hs : key s = k
      · rw [if_pos hs] at h
        cases h
      rw [if_neg hs] at h
      obtain ⟨hfree, hput⟩ := ih (fun m hm => hrest m (mem_cons_of_mem i hm)) h
      refine ⟨hfree, fun s' free hs' => ?_⟩
      have hij : j ≠ i := by
        rintro rfl
        rw [hcell] at hfree
        rcases hfree with hfree | hfree <;> cases hfree
      rw [walk, getElem?_set_ne hij, hcell]
      dsimp only
      rw [if_neg hs]
      exact hput s' free hs'
    case h_2 hcell =>
      obtain rfl : j = i := some.inj (walk_some_missing h)
      exact ⟨.inr hcell, hstop⟩
    case h_3 hlive htomb =>
      obtain rfl : i = j := some.inj (Walk.missing.inj h)
      refine ⟨.inl ?_, hstop⟩
      rw [getElem?_eq_getElem hi] at hlive htomb ⊢
      cases hcell : cells[i] with
      | empty => rfl
      | tomb => exact absurd (congrArg some hcell) htomb
      | live s => exact absurd (congrArg some hcell) (hlive s)

theorem mem_places_lt {n start i : ℕ} (h : i ∈ places n start) : i < n := by
  obtain ⟨j, hj, rfl⟩ := List.mem_map.mp h
  exact Nat.mod_lt _ (Nat.zero_lt_of_lt (mem_range.mp hj))

/-- A walk comes to every cell. -/
theorem mem_places {n start i : ℕ} (h : i < n) : i ∈ places n start := by
  refine List.mem_map.mpr ⟨(i + (n - start % n)) % n, mem_range.mpr (Nat.mod_lt _ (by omega)), ?_⟩
  have hlt := Nat.mod_lt start (Nat.zero_lt_of_lt h)
  have hsum : start + (i + (n - start % n)) = i + n * (start / n + 1) := by
    have hdiv := Nat.mod_add_div start n
    rw [Nat.mul_add, Nat.mul_one]
    omega
  rw [Nat.add_mod_mod, hsum, Nat.add_mul_mod_self_left, Nat.mod_eq_of_lt h]

/-- A walk comes to no cell twice. -/
theorem nodup_places (n start : ℕ) : (places n start).Nodup := by
  refine Nodup.map_on ?_ nodup_range
  intro p hp q hq heq
  have hmod : p ≡ q [MOD n] := Nat.ModEq.add_left_cancel' start heq
  exact hmod.eq_of_lt_of_lt (mem_range.mp hp) (mem_range.mp hq)

end

variable [DecidableEq κ] {key : σ → κ} {start : κ → ℕ}

variable (key start) in
/-- The walk of every stored key ends at its cell. -/
def Reachable (cells : List (Cell σ)) : Prop :=
  ∀ (i : ℕ) (s : σ), cells[i]? = some (.live s) → locate key start cells (key s) = .found i

variable (key start) in
/-- The entry of a key. -/
def find (cells : List (Cell σ)) (k : κ) : Option σ :=
  match locate key start cells k with
  | .found i =>
    match cells[i]? with
    | some (.live s) => some s
    | _ => none
  | .missing _ => none

variable {k : κ}

theorem locate_found (h : locate key start cells k = .found i) :
    ∃ s, cells[i]? = some (.live s) ∧ key s = k ∧ find key start cells k = some s := by
  obtain ⟨s, hcell, hs⟩ := walk_found h
  refine ⟨s, hcell, hs, ?_⟩
  unfold find
  rw [h]
  dsimp only
  rw [hcell]

variable {free : Option ℕ}

theorem find_missing
    (h : locate key start cells k = .missing free) : find key start cells k = none := by
  unfold find
  rw [h]

theorem find_eq_some (hr : Reachable key start cells) :
    find key start cells k = some s ↔ key s = k ∧ ∃ i : ℕ, cells[i]? = some (.live s) := by
  constructor
  · intro h
    cases hloc : locate key start cells k with
    | missing free => rw [find_missing hloc] at h; cases h
    | found i =>
      obtain ⟨s', hcell, hs', hfind⟩ := locate_found hloc
      obtain rfl := some.inj (h.symm.trans hfind)
      exact ⟨hs', i, hcell⟩
  · rintro ⟨rfl, i, hcell⟩
    obtain ⟨s', hcell', -, hfind⟩ := locate_found (hr i s hcell)
    rw [hcell] at hcell'
    obtain rfl := Cell.live.inj (some.inj hcell')
    exact hfind

/-- No two cells have one key. -/
theorem Reachable.distinct (hr : Reachable key start cells) :
    Slots.Distinct (Cell.key key) cells := by
  intro i j c d k hi hj hc hd
  cases c with
  | empty => cases hc
  | tomb => cases hc
  | live s =>
    cases d with
    | empty => cases hd
    | tomb => cases hd
    | live t =>
      have hs : key s = k := some.inj hc
      have ht : key t = k := some.inj hd
      have hloc := hr i s hi
      rw [hs, ← ht, hr j t hj] at hloc
      exact (Walk.found.inj hloc).symm

/-- The walk of a stored key ends at its cell after another cell is written, unless that cell
    becomes empty. -/
theorem Reachable.locate_set (hr : Reachable key start cells)
    {i j : ℕ} (hi : cells[i]? = some (.live s)) (hij : j ≠ i)
    (hc : c ≠ .empty) (hkey : c.key key ≠ some (key s)) :
    locate key start (cells.set j c) (key s) = .found i := by
  have hloc := hr i s hi
  unfold locate at hloc ⊢
  rw [length_set]
  refine walk_congr hloc ⟨s, ?_, rfl⟩ ?_
  · rw [getElem?_set_ne hij]
    exact hi
  · intro m _
    by_cases hmj : m = j
    · subst hmj
      by_cases hm : m < cells.length
      · rw [getElem?_set_self hm]
        cases c with
        | empty => exact absurd rfl hc
        | tomb => exact .inr (.inl rfl)
        | live t => exact .inr (.inr ⟨t, rfl, fun ht => hkey (congrArg some ht)⟩)
      · rw [set_eq_of_length_le (Nat.le_of_not_lt hm)]
        exact .inl rfl
    · exact .inl (getElem?_set_ne (Ne.symm hmj))

/-- An entry may be rewritten under its key. -/
theorem Reachable.update (hr : Reachable key start cells)
    {s s' : σ} (hi : cells[i]? = some (.live s)) (hkey : key s' = key s) :
    Reachable key start (cells.set i (.live s')) := by
  have hlen : i < cells.length := (List.getElem?_eq_some_iff.mp hi).1
  intro m t hm
  rcases Slots.getElem?_set_cases hm with ⟨rfl, ht⟩ | ⟨hmi, hm⟩
  · obtain rfl := Cell.live.inj ht
    have hloc := hr m s hi
    rw [← hkey] at hloc
    unfold locate at hloc ⊢
    rw [length_set]
    refine walk_congr hloc ⟨t, getElem?_set_self hlen, rfl⟩ ?_
    intro j hj
    exact .inl (getElem?_set_ne (Ne.symm hj))
  · refine hr.locate_set hm (Ne.symm hmi) nofun ?_
    intro heq
    have hst : key s = key t := hkey.symm.trans (some.inj heq)
    exact hmi (hr.distinct m i _ _ _ hm hi rfl (congrArg some hst))

/-- An entry may become a tomb. -/
theorem Reachable.bury (hr : Reachable key start cells) (i : ℕ) :
    Reachable key start (cells.set i .tomb) := by
  intro m t hm
  rcases Slots.getElem?_set_cases hm with ⟨-, ht⟩ | ⟨hmi, hm⟩
  · cases ht
  · exact hr.locate_set hm (Ne.symm hmi) nofun nofun

variable {j : ℕ}

/-- A missing key may be put where its walk ended. -/
theorem Reachable.insert (hr : Reachable key start cells)
    (h : locate key start cells (key s) = .missing (some j)) :
    (cells[j]? = some .empty ∨ cells[j]? = some .tomb) ∧
      Reachable key start (cells.set j (.live s)) := by
  obtain ⟨hfree, hput⟩ := walk_insert (fun i hi => mem_places_lt hi) h
  refine ⟨hfree, ?_⟩
  intro m t hm
  rcases Slots.getElem?_set_cases hm with ⟨rfl, ht⟩ | ⟨hmj, hm⟩
  · obtain rfl := Cell.live.inj ht
    unfold locate
    rw [length_set]
    exact hput t none rfl
  · refine hr.locate_set hm (Ne.symm hmj) nofun ?_
    intro heq
    -- the key is missing, so no cell has it
    have hloc := hr m t hm
    rw [← some.inj heq, h] at hloc
    cases hloc

/-- A key that has the same cells in two tables finds the same entry in both. -/
theorem find_congr {cells cells' : List (Cell σ)} (hr : Reachable key start cells)
    (hr' : Reachable key start cells')
    (h : ∀ (m : ℕ) (t : σ), key t = k →
      (cells'[m]? = some (.live t) ↔ cells[m]? = some (.live t))) :
    find key start cells' k = find key start cells k := by
  apply Option.ext
  intro t
  rw [find_eq_some hr', find_eq_some hr]
  apply and_congr_right
  intro ht
  exact exists_congr fun m => h m t ht

/-- **What every key finds after an entry is rewritten.** -/
theorem find_update (hr : Reachable key start cells) {s s' : σ}
    (hi : cells[i]? = some (.live s)) (hkey : key s' = key s) (k : κ) :
    find key start (cells.set i (.live s')) k =
      if k = key s then some s' else find key start cells k := by
  have hr' := hr.update hi hkey
  have hlen : i < cells.length := (List.getElem?_eq_some_iff.mp hi).1
  by_cases hk : k = key s
  · rw [if_pos hk]
    exact (find_eq_some hr').mpr ⟨hkey.trans hk.symm, i, getElem?_set_self hlen⟩
  rw [if_neg hk]
  apply find_congr hr hr'
  rintro m t rfl
  apply getElem?_set_live hi
  · exact fun h => hk (some.inj h).symm
  · exact fun h => hk ((some.inj h).symm.trans hkey)

/-- **What every key finds after an entry becomes a tomb.** -/
theorem find_bury (hr : Reachable key start cells) (hi : cells[i]? = some (.live s)) (k : κ) :
    find key start (cells.set i .tomb) k = if k = key s then none else find key start cells k := by
  have hr' := hr.bury i
  by_cases hk : k = key s
  · rw [if_pos hk]
    apply eq_none_iff_forall_ne_some.mpr
    intro t ht
    obtain ⟨hkt, m, hm⟩ := (find_eq_some hr').mp ht
    rcases Slots.getElem?_set_cases hm with ⟨-, hbad⟩ | ⟨hmi, hm⟩
    · cases hbad
    · exact hmi (hr.distinct m i _ _ _ hm hi rfl (congrArg some (hk.symm.trans hkt.symm)))
  · rw [if_neg hk]
    apply find_congr hr hr'
    rintro m t rfl
    exact getElem?_set_live hi (fun h => hk (some.inj h).symm) nofun

/-- **What every key finds after a missing key is put into the table.** -/
theorem find_insert (hr : Reachable key start cells)
    (h : locate key start cells (key s) = .missing (some j)) (k : κ) :
    find key start (cells.set j (.live s)) k =
      if k = key s then some s else find key start cells k := by
  obtain ⟨hfree, hr'⟩ := hr.insert h
  by_cases hk : k = key s
  · rw [if_pos hk]
    have hlen : j < cells.length := by
      rcases hfree with hfree | hfree <;> exact (List.getElem?_eq_some_iff.mp hfree).1
    exact (find_eq_some hr').mpr ⟨hk.symm, j, getElem?_set_self hlen⟩
  · rw [if_neg hk]
    apply find_congr hr hr'
    rintro m t rfl
    rcases hfree with hfree | hfree
    all_goals exact getElem?_set_live hfree nofun fun h => hk (some.inj h).symm

/-! ### Rewriting every entry -/

/-- Every entry is rewritten. -/
def Cell.map (f : σ → σ) : Cell σ → Cell σ
  | .live s => .live (f s)
  | c => c

variable {f : σ → σ}

/-- A walk does not look at more than the keys. -/
theorem walk_map (hf : ∀ s, key (f s) = key s) {rest : List ℕ} :
    walk key (cells.map (Cell.map f)) k rest free = walk key cells k rest free := by
  induction rest generalizing free with
  | nil => rfl
  | cons i rest ih =>
    rw [walk, walk, getElem?_map]
    cases cells[i]? with
    | none => rfl
    | some c =>
      cases c with
      | empty => rfl
      | tomb => exact ih
      | live s =>
        dsimp only [map_some, Cell.map]
        rw [hf, ih]

theorem locate_map (hf : ∀ s, key (f s) = key s) :
    locate key start (cells.map (Cell.map f)) k = locate key start cells k := by
  unfold locate
  rw [length_map]
  exact walk_map hf

/-- Entries may be rewritten under their keys. -/
theorem Reachable.map (hf : ∀ s, key (f s) = key s)
    (hr : Reachable key start cells) : Reachable key start (cells.map (Cell.map f)) := by
  intro i s hi
  rw [getElem?_map] at hi
  obtain ⟨c, hc, hcs⟩ := map_eq_some_iff.mp hi
  cases c with
  | empty => cases hcs
  | tomb => cases hcs
  | live t =>
    obtain rfl := Cell.live.inj hcs
    rw [locate_map hf, hf]
    exact hr i t hc

/-- **What every key finds after every entry is rewritten.** -/
theorem find_map (hf : ∀ s, key (f s) = key s) :
    find key start (cells.map (Cell.map f)) k = (find key start cells k).map f := by
  unfold find
  rw [locate_map hf]
  cases hwalk : locate key start cells k with
  | missing _ => rfl
  | found i =>
    obtain ⟨s, hcell, -⟩ := walk_found hwalk
    dsimp only
    rw [getElem?_map, hcell]
    rfl

/-! ### Replacing -/

variable {after before : List ℕ}

/-- Behind cells of other keys the walk ends at the cell of its key. -/
theorem walk_at (hbefore : ∀ i ∈ before, ∃ t, cells[i]? = some (.live t) ∧ key t ≠ k)
    (hj : cells[j]? = some (.live s)) (hs : key s = k) :
    walk key cells k (before ++ j :: after) free = .found j := by
  induction before with
  | nil =>
    rw [nil_append, walk, hj]
    exact if_pos hs
  | cons i before ih =>
    obtain ⟨t, hi, ht⟩ := hbefore i mem_cons_self
    rw [cons_append, walk, hi]
    dsimp only
    rw [if_neg ht]
    exact ih fun m hm => hbefore m (mem_cons_of_mem i hm)

/-- **A missing key may be put into any cell of its walk** that only entries are in front of; what
    was in that cell is gone. -/
theorem Reachable.put (hr : Reachable key start cells)
    (hmissing : ∀ (m : ℕ) (t : σ), cells[m]? = some (.live t) → key t ≠ key s)
    (hplaces : places cells.length (start (key s)) = before ++ j :: after)
    (hbefore : ∀ i ∈ before, ∃ t, cells[i]? = some (.live t)) (hj : j ∉ before) :
    Reachable key start (cells.set j (.live s)) := by
  have hlen : j < cells.length := by
    apply @mem_places_lt cells.length (start (key s))
    rw [hplaces]
    exact mem_append_right _ mem_cons_self
  intro m t hm
  rcases Slots.getElem?_set_cases hm with ⟨rfl, ht⟩ | ⟨hmj, hm⟩
  · obtain rfl := Cell.live.inj ht
    unfold locate
    rw [length_set, hplaces]
    refine walk_at (fun i hi => ?_) (getElem?_set_self hlen) rfl
    obtain ⟨t', ht'⟩ := hbefore i hi
    have hne : m ≠ i := by
      rintro rfl
      exact hj hi
    refine ⟨t', ?_, hmissing i t' ht'⟩
    rw [getElem?_set_ne hne]
    exact ht'
  · refine hr.locate_set hm (Ne.symm hmj) nofun ?_
    exact fun heq => hmissing m t hm (some.inj heq).symm

/-- **What every key finds after a missing key has taken a cell.** -/
theorem find_put (hr : Reachable key start cells)
    (hr' : Reachable key start (cells.set j (.live s))) (hj : j < cells.length) (k : κ) :
    find key start (cells.set j (.live s)) k = if k = key s then some s
      else if cells[j]?.bind (Cell.key key) = some k then none
      else find key start cells k := by
  by_cases hk : k = key s
  · rw [if_pos hk]
    exact (find_eq_some hr').mpr ⟨hk.symm, j, getElem?_set_self hj⟩
  rw [if_neg hk]
  by_cases hold : cells[j]?.bind (Cell.key key) = some k
  · rw [if_pos hold]
    apply eq_none_iff_forall_ne_some.mpr
    intro t ht
    obtain ⟨rfl, m, hm⟩ := (find_eq_some hr').mp ht
    rcases Slots.getElem?_set_cases hm with ⟨-, hbad⟩ | ⟨hmj, hm⟩
    · exact hk (congrArg key (Cell.live.inj hbad))
    · obtain ⟨c, hc, hck⟩ := bind_eq_some_iff.mp hold
      exact hmj (hr.distinct m j _ c (key t) hm hc rfl hck)
  · rw [if_neg hold]
    apply find_congr hr hr'
    rintro m t rfl
    have hcell : cells[j]? = some cells[j] := getElem?_eq_getElem hj
    apply getElem?_set_live hcell
    · exact fun h => hold (by rw [hcell]; exact h)
    · exact fun h => hk (some.inj h).symm

end Probing
