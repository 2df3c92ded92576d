import Mathlib.Algebra.GroupWithZero.Nat
import Mathlib.Data.List.Nodup

namespace Holdings

open List

/-!
# Holdings — items that are held at places

Every place holds some items; what matters is how often an item is held at all.

* `held` — how often an item is held at the places of a list;
* `held_update`, `held_update_not_mem` — one place gets other items;
* `held_append`, `held_filter` — the places of two lists, and those with and without a property;
* `held_groups` — **places that are put together hold what they held**.
-/

variable {κ γ σ : Type} [DecidableEq σ]

/-- How often an item is held. -/
def held (places : List κ) (content : κ → List σ) (x : σ) : ℕ :=
  (places.map fun k => (content k).count x).sum

section
variable {places places' : List κ} {content content' : κ → List σ} {x : σ} {k : κ}

@[simp] theorem held_nil : held ([] : List κ) content x = 0 := rfl

@[simp] theorem held_cons :
    held (k :: places) content x = (content k).count x + held places content x := by
  unfold held
  rw [map_cons, sum_cons]

theorem held_append :
    held (places ++ places') content x = held places content x + held places' content x := by
  unfold held
  rw [map_append, sum_append]

theorem held_congr (h : ∀ k ∈ places, content k = content' k) :
    held places content x = held places content' x := by
  unfold held
  congr 1
  exact map_congr_left fun k hk => by rw [h k hk]

/-- An item that no place holds. -/
theorem held_eq_zero : held places content x = 0 ↔ ∀ k ∈ places, x ∉ content k := by
  induction places with
  | nil => simp
  | cons k places ih =>
    rw [held_cons, forall_mem_cons, ← ih, Nat.add_eq_zero_iff, count_eq_zero]

theorem held_filter (p : κ → Bool) : held places content x =
      held (places.filter p) content x + held (places.filter fun k => !p k) content x := by
  induction places with
  | nil => rfl
  | cons k places ih =>
    cases hp : p k with
    | true =>
      rw [filter_cons_of_pos hp, filter_cons_of_neg (by simp [hp]), held_cons, held_cons, ih]
      omega
    | false =>
      rw [filter_cons_of_neg (by simp [hp]), filter_cons_of_pos (by simp [hp]), held_cons,
        held_cons, ih]
      omega

end

section
variable [DecidableEq κ] {places : List κ} {content : κ → List σ} {x : σ} {k : κ} {items : List σ}

/-- A place outside the list does not matter. -/
theorem held_update_not_mem (h : k ∉ places) :
    held places (Function.update content k items) x = held places content x := by
  apply held_congr
  intro k' hk'
  rw [Function.update_of_ne]
  rintro rfl
  exact h hk'

/-- **A place gets other items.** -/
theorem held_update (hnodup : places.Nodup) (h : k ∈ places) :
    held places (Function.update content k items) x + (content k).count x =
      held places content x + items.count x := by
  induction places with
  | nil => cases h
  | cons k' places ih =>
    obtain ⟨hno, hrest⟩ := nodup_cons.mp hnodup
    rw [held_cons, held_cons]
    by_cases hk : k = k'
    · subst hk
      rw [Function.update_self, held_update_not_mem hno]
      omega
    · rw [Function.update_of_ne (Ne.symm hk)]
      have hplaces := ih hrest ((mem_cons.mp h).resolve_left hk)
      omega

end

variable [DecidableEq γ] {content : κ → List σ} {x : σ} {group : κ → γ}
variable {places : List κ} {groups : List γ}

/-- One place adds its items to its own group, and to no other. -/
theorem held_group_cons {k : κ} (hnodup : groups.Nodup) (h : group k ∈ groups) :
    (groups.map fun g => held ((k :: places).filter fun k => group k = g) content x).sum =
      (content k).count x +
        (groups.map fun g => held (places.filter fun k => group k = g) content x).sum := by
  induction groups with
  | nil => cases h
  | cons g groups ih =>
    obtain ⟨hno, hrest⟩ := nodup_cons.mp hnodup
    rw [map_cons, map_cons, sum_cons, sum_cons]
    by_cases hg : group k = g
    · -- the other groups do not have this place
      have hothers : (groups.map fun g => held ((k :: places).filter fun k => group k = g) content x)
          = groups.map fun g => held (places.filter fun k => group k = g) content x := by
        apply map_congr_left
        intro g' hg'
        rw [filter_cons_of_neg]
        intro hk
        have hsame : group k = g' := by simpa using hk
        exact hno (hg ▸ hsame ▸ hg')
      rw [hothers, filter_cons_of_pos (by simpa using hg), held_cons]
      omega
    · rw [filter_cons_of_neg (by simpa using hg), ih hrest ((mem_cons.mp h).resolve_left hg)]
      omega

/-- **Places that are put together** hold what they held. -/
theorem held_groups (hnodup : groups.Nodup) (h : ∀ k ∈ places, group k ∈ groups) :
    held groups (fun g => (places.filter fun k => group k = g).flatMap content) x =
      held places content x := by
  have hcount : ∀ ks : List κ, (ks.flatMap content).count x = held ks content x := by
    intro ks
    rw [count_flatMap]
    rfl
  unfold held
  simp only [hcount]
  induction places with
  | nil => simp
  | cons k places ih =>
    rw [held_group_cons hnodup (h k mem_cons_self),
      ih fun k hk => h k (mem_cons_of_mem _ hk), map_cons, sum_cons]

end Holdings
