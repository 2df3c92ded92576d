import Mathlib.Data.List.Nodup
import Mathlib.Data.List.Pairwise

/-!
# Tables with a primary key

Rows with distinct keys, and the statements that change them.

* `Table.find` — the row of a key;
* `Table.update` — new values for the rows that a condition selects, and `Table.count` — how many
  these are;
* `Table.insert`, `Table.delete` — one more row, with a new key, and fewer rows;
* `Table.upsert` — one more row, or new values for the row that has the key;
* `find_update`, `find_update_key`, `find_insert`, `find_delete` — what a key finds afterwards;
* `count_key` — a condition that names a key selects at most one row.
-/

/-- Rows in the order of their insertion, with distinct keys. -/
structure Table {ρ κ : Type} (key : ρ → κ) where
  rows : List ρ
  nodup : (rows.map key).Nodup

namespace Table

open List

variable {ρ κ : Type} {key : ρ → κ} {t : Table key}

/-- The table without rows. -/
def empty : Table key where
  rows := []
  nodup := nodup_nil

/-- New values for the rows a condition selects; the keys stay. -/
def update (t : Table key) (p : ρ → Bool) (f : ρ → ρ) (hf : ∀ r, key (f r) = key r) :
    Table key where
  rows := t.rows.map fun r => if p r then f r else r
  nodup := by
    have hkeys : (t.rows.map fun r => if p r then f r else r).map key = t.rows.map key := by
      rw [List.map_map]
      apply map_congr_left
      intro r _
      show key (if p r then f r else r) = key r
      split
      · exact hf r
      · rfl
    rw [hkeys]
    exact t.nodup

/-- How many rows a condition selects. -/
def count (t : Table key) (p : ρ → Bool) : ℕ := t.rows.countP p

/-- One more row, behind the others. -/
def insert (t : Table key) (r : ρ) (h : key r ∉ t.rows.map key) : Table key where
  rows := t.rows ++ [r]
  nodup := by
    rw [map_append, nodup_append]
    refine ⟨t.nodup, nodup_singleton _, ?_⟩
    intro k hk k' hk' heq
    rw [map_singleton, mem_singleton] at hk'
    exact h (hk' ▸ heq ▸ hk)

/-- The rows a condition does not select. -/
def delete (t : Table key) (p : ρ → Bool) : Table key where
  rows := t.rows.filter fun r => !p r
  nodup := t.nodup.sublist (filter_sublist.map key)

variable [DecidableEq κ]

/-- The row of a key. -/
def find (t : Table key) (k : κ) : Option ρ := t.rows.find? fun r => key r = k

variable {k : κ} {r : ρ}

theorem find_eq_some : t.find k = some r ↔ r ∈ t.rows ∧ key r = k := by
  apply Iff.intro
  · intro h
    exact ⟨mem_of_find?_eq_some h, by simpa using find?_some h⟩
  · rintro ⟨hr, rfl⟩
    cases hfind : t.find (key r) with
    | none =>
      have hno := find?_eq_none.mp hfind r hr
      simp at hno
    | some r' =>
      have hr' := mem_of_find?_eq_some hfind
      have hkey : key r' = key r := by simpa using find?_some hfind
      rw [inj_on_of_nodup_map t.nodup hr' hr hkey]

theorem find_update (t : Table key) (p : ρ → Bool) (f : ρ → ρ) (hf : ∀ r, key (f r) = key r)
    (k : κ) : (t.update p f hf).find k = (t.find k).map fun r => if p r then f r else r := by
  have hkey : ∀ r, key (if p r then f r else r) = key r := by
    intro r
    split
    · exact hf r
    · rfl
  show (t.rows.map _).find? _ = _
  rw [find?_map]
  congr 1
  show t.rows.find? _ = t.rows.find? _
  congr 1
  ext r
  rw [Function.comp_apply, hkey]

variable {f : ρ → ρ}

/-- New values for the row of one key. -/
theorem find_update_key (hf : ∀ r, key (f r) = key r) (hr : t.find k = some r) (k' : κ) :
    (t.update (fun r => key r = k) f hf).find k' = if k = k' then some (f r) else t.find k' := by
  rw [find_update]
  by_cases hk : k = k'
  · subst hk
    have hkey := (find_eq_some.mp hr).2
    simp [hr, hkey]
  · rw [if_neg hk]
    cases hfind : t.find k' with
    | none => rfl
    | some q =>
      have hq : key q ≠ k := fun h => hk (h.symm.trans (find_eq_some.mp hfind).2)
      simp [hq]

theorem find_insert (t : Table key) (r : ρ) (h : key r ∉ t.rows.map key) (k : κ) :
    (t.insert r h).find k = if key r = k then some r else t.find k := by
  show (t.rows ++ [r]).find? _ = _
  rw [find?_append]
  split
  · next hk =>
    have hnone : t.rows.find? (fun r => key r = k) = none := by
      rw [find?_eq_none]
      intro r' hr' hkey
      apply h
      rw [hk]
      exact List.mem_map.mpr ⟨r', hr', by simpa using hkey⟩
    rw [hnone, find?_singleton]
    simp [hk]
  · next hk =>
    rw [find?_singleton]
    simp [hk, find]

theorem find_delete (t : Table key) (p : ρ → Bool) (k : κ) :
    (t.delete p).find k = (t.find k).filter fun r => !p r := by
  cases hfind : t.find k with
  | none =>
    show (t.rows.filter fun r => !p r).find? _ = none
    rw [find?_eq_none]
    intro r hr
    exact find?_eq_none.mp hfind r (mem_of_mem_filter hr)
  | some r =>
    obtain ⟨hr, hk⟩ := find_eq_some.mp hfind
    cases hp : p r with
    | false =>
      have hkept : r ∈ (t.delete p).rows := mem_filter.mpr ⟨hr, by simp [hp]⟩
      rw [Option.filter_some, hp]
      exact find_eq_some.mpr ⟨hkept, hk⟩
    | true =>
      rw [Option.filter_some, hp]
      show (t.rows.filter fun r => !p r).find? _ = none
      rw [find?_eq_none]
      intro r' hr' hkey
      have hr'' := mem_filter.mp hr'
      -- the key determines the row, and that row is gone
      have hsame : r' = r :=
        inj_on_of_nodup_map t.nodup hr''.1 hr ((by simpa using hkey : key r' = k).trans hk.symm)
      rw [hsame, hp] at hr''
      exact absurd hr''.2 (by simp)

/-- A condition that names a key selects the row of this key, or none. -/
theorem count_key (t : Table key) (k : κ) (q : ρ → Bool) : t.count (fun r => key r = k ∧ q r) =
      match t.find k with
      | some r => if q r then 1 else 0
      | none => 0 := by
  obtain ⟨rows, nodup⟩ := t
  show rows.countP _ = match rows.find? _ with
    | some r => if q r then 1 else 0
    | none => 0
  induction rows with
  | nil => rfl
  | cons r rows ih =>
    rw [map_cons, nodup_cons] at nodup
    rw [countP_cons, find?_cons, ih nodup.2]
    by_cases hk : key r = k
    · -- no row behind this one has the key
      have hnone : rows.find? (fun r => key r = k) = none := by
        rw [find?_eq_none]
        intro r' hr' hkey
        apply nodup.1
        rw [hk]
        exact List.mem_map.mpr ⟨r', hr', by simpa using hkey⟩
      rw [hnone]
      simp [hk]
    · simp [hk]

/-- `INSERT … ON CONFLICT … DO UPDATE`: the row that has the key changes, or the row is inserted. -/
def upsert (t : Table key) (new : ρ) (f : ρ → ρ) (hf : ∀ r, key (f r) = key r) : Table key :=
  if h : key new ∈ t.rows.map key then t.update (fun r => key r = key new) f hf
  else t.insert new h

theorem mem_upsert {new : ρ} {hf : ∀ r, key (f r) = key r} {r' : ρ} :
    r' ∈ (t.upsert new f hf).rows ↔
      (r' ∈ t.rows ∧ key r' ≠ key new) ∨ (∃ r ∈ t.rows, key r = key new ∧ r' = f r) ∨
        (key new ∉ t.rows.map key ∧ r' = new) := by
  unfold upsert
  split
  · next h =>
    show r' ∈ t.rows.map (fun r => if decide (key r = key new) = true then f r else r) ↔ _
    rw [List.mem_map]
    constructor
    · rintro ⟨r, hr, rfl⟩
      by_cases hk : key r = key new
      · exact .inr (.inl ⟨r, hr, hk, by simp [hk]⟩)
      · exact .inl ⟨by simpa [hk] using hr, by simp [hk]⟩
    · rintro (⟨hr, hk⟩ | ⟨r, hr, hk, rfl⟩ | ⟨hno, -⟩)
      · exact ⟨r', hr, by simp [hk]⟩
      · exact ⟨r, hr, by simp [hk]⟩
      · exact absurd h hno
  · next h =>
    show r' ∈ t.rows ++ [new] ↔ _
    rw [mem_append, mem_singleton]
    constructor
    · rintro (hr | rfl)
      · refine .inl ⟨hr, fun hk => h ?_⟩
        rw [← hk]
        exact List.mem_map.mpr ⟨r', hr, rfl⟩
      · exact .inr (.inr ⟨h, rfl⟩)
    · rintro (⟨hr, -⟩ | ⟨r, hr, hk, -⟩ | ⟨-, rfl⟩)
      · exact .inl hr
      · exact absurd (List.mem_map.mpr ⟨r, hr, hk⟩) h
      · exact .inr rfl

theorem upsert_keys (t : Table key) (new : ρ) (f : ρ → ρ) (hf : ∀ r, key (f r) = key r) :
    (t.upsert new f hf).rows.map key =
      if key new ∈ t.rows.map key then t.rows.map key else t.rows.map key ++ [key new] := by
  unfold upsert
  split
  · show (t.rows.map fun r => if decide (key r = key new) = true then f r else r).map key = _
    rw [List.map_map]
    apply map_congr_left
    intro r _
    show key (if _ then f r else r) = key r
    split
    · exact hf r
    · rfl
  · exact map_append ..

end Table
