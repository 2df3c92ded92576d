import Mathlib.Algebra.Order.Group.Multiset
import Mathlib.Tactic.Abel

namespace Hands

open List Option

/-!
# Hands — what the members of a crew hold

A crew is a list of members, each of whom may hold a thing.  What they hold together is a multiset.

* `held` — what a crew holds;
* `held_set` — one member changes;
* `held_map` — all members change, but not what they hold;
* `forall_set`, `forall_of_set` — what all members are, before and after one of them changes;
* `sum_set` — a sum over the members.
-/

variable {σ α : Type}

/-- What a crew holds. -/
def held (f : σ → Option α) (crew : List σ) : Multiset α := ↑(crew.filterMap f)

theorem held_cons (f : σ → Option α) (a : σ) (crew : List σ) :
    held f (a :: crew) = ↑(f a).toList + held f crew := by
  unfold held
  cases h : f a with
  | none => rw [filterMap_cons_none h, toList_none, Multiset.coe_nil, zero_add]
  | some b =>
    rw [filterMap_cons_some h, toList_some, Multiset.coe_add, singleton_append]

variable {f : σ → Option α} {crew : List σ} {i : ℕ} {a : σ}

/-- One member changes: what it held is gone, and what it holds now has come. -/
theorem held_set (h : crew[i]? = some a)
    (b : σ) : held f (crew.set i b) + ↑(f a).toList = held f crew + ↑(f b).toList := by
  induction crew generalizing i with
  | nil => cases h
  | cons c crew ih =>
    cases i with
    | zero =>
      obtain rfl : c = a := some.inj h
      rw [set_cons_zero, held_cons, held_cons]
      abel
    | succ i =>
      rw [set_cons_succ, held_cons, held_cons, add_assoc, ih h, add_assoc]

/-- A member that holds nothing takes a thing, or none. -/
theorem held_set_none (h : crew[i]? = some a)
    (ha : f a = none) (b : σ) : held f (crew.set i b) = held f crew + ↑(f b).toList := by
  have hset := held_set (f := f) h b
  rw [ha, toList_none, Multiset.coe_nil, add_zero] at hset
  exact hset

theorem held_map {g : σ → σ} (h : ∀ a, f (g a) = f a) (crew : List σ) :
    held f (crew.map g) = held f crew := by
  unfold held
  rw [filterMap_map]
  congr 2
  funext a
  exact h a

theorem held_replicate (h : f a = none) (n : ℕ) : held f (List.replicate n a) = 0 := by
  induction n with
  | zero => rfl
  | succ n ih => rw [replicate_succ, held_cons, h, ih, toList_none, Multiset.coe_nil, add_zero]

/-- Nobody holds anything. -/
theorem held_eq_zero : held f crew = 0 ↔ ∀ a ∈ crew, f a = none := by
  unfold held
  rw [Multiset.coe_eq_zero, filterMap_eq_nil_iff]

/-- What is held in a second way is held in the first, under another name. -/
theorem map_held_le {β : Type} {g : σ → Option β} {p : β → α}
    (h : ∀ a b, g a = some b → f a = some (p b)) (crew : List σ) :
    (held g crew).map p ≤ held f crew := by
  induction crew with
  | nil => exact Multiset.zero_le _
  | cons a crew ih =>
    rw [held_cons, held_cons, Multiset.map_add]
    apply add_le_add _ ih
    cases hg : g a with
    | none => exact Multiset.zero_le _
    | some b =>
      rw [h a b hg]
      exact le_refl _

/-- The only element with its key. -/
theorem filter_key {κ : Type} [DecidableEq κ] {key : σ → κ} {l : List σ} (h : (l.map key).Nodup)
    (ha : a ∈ l) : l.filter (fun b => key b = key a) = [a] := by
  induction l with
  | nil => cases ha
  | cons c l ih =>
    rw [map_cons, nodup_cons] at h
    rcases mem_cons.mp ha with rfl | ha
    · have hrest : l.filter (fun b => key b = key a) = [] := by
        rw [filter_eq_nil_iff]
        intro b hb heq
        exact h.1 (of_decide_eq_true heq ▸ List.mem_map_of_mem hb)
      rw [filter_cons_of_pos (by simp), hrest]
    · have hne : key c ≠ key a := fun heq => h.1 (heq ▸ List.mem_map_of_mem ha)
      rw [filter_cons_of_neg (by simpa using hne), ih h.2 ha]

/-! ### One member changes -/

theorem forall_set {P : σ → Prop} (h : ∀ a ∈ crew, P a) {b : σ} (hb : P b) :
    ∀ a ∈ crew.set i b, P a := by
  intro a ha
  rcases mem_or_eq_of_mem_set ha with ha | rfl
  · exact h a ha
  · exact hb

/-- What all members are after the change, all were before, if the one that changed was. -/
theorem forall_of_set {P : σ → Prop} {a b : σ} (hget : crew[i]? = some a)
    (ha : P a) (h : ∀ c ∈ crew.set i b, P c) : ∀ c ∈ crew, P c := by
  intro c hc
  obtain ⟨j, hj⟩ := getElem?_of_mem hc
  by_cases hij : i = j
  · subst hij
    rw [hget] at hj
    exact some.inj hj ▸ ha
  · exact h c (mem_of_getElem? (by rw [getElem?_set_ne hij, hj]))

theorem mem_set (hget : crew[i]? = some a) (b : σ) : b ∈ crew.set i b :=
  mem_of_getElem? (getElem?_set_self (List.getElem?_eq_some_iff.mp hget).1)

theorem sum_set (f : σ → ℕ) (hget : crew[i]? = some a) (b : σ) :
    ((crew.set i b).map f).sum + f a = (crew.map f).sum + f b := by
  induction crew generalizing i with
  | nil => cases hget
  | cons c crew ih =>
    cases i with
    | zero =>
      obtain rfl : c = a := some.inj hget
      simp only [set_cons_zero, map_cons, sum_cons]
      omega
    | succ i =>
      have hrest := ih hget
      simp only [set_cons_succ, map_cons, sum_cons]
      omega

end Hands
