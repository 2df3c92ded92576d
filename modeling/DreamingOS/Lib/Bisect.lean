import Mathlib.Data.List.Pairwise
import Mathlib.Order.Lattice

namespace Bisect

open List

/-!
# Bisection — the invariant of a binary search

A list whose keys increase strictly is searched for a key by halving an interval of indices.

* `Encloses` — whatever has the key lies in the interval;
* `Encloses.full` / `Encloses.upper` / `Encloses.lower` — the whole list, and the two halves;
* `Encloses.empty` / `unique` — nothing is left, or the element found is the only one.
-/

variable {α κ : Type} [LinearOrder κ] {key : α → κ} {xs : List α} {k : κ} {lo mid hi : ℕ}

/-- Below `lo` the keys are smaller than `k`, from `hi` on they are greater. -/
structure Encloses (key : α → κ) (xs : List α) (k : κ) (lo hi : ℕ) : Prop where
  below : ∀ i (h : i < xs.length), i < lo → key xs[i] < k
  above : ∀ i (h : i < xs.length), hi ≤ i → k < key xs[i]

theorem Encloses.full : Encloses key xs k 0 xs.length where
  below := fun _ _ hlt => absurd hlt (Nat.not_lt_zero _)
  above := fun _ h hle => absurd h (Nat.not_lt.mpr hle)

/-- The element in the middle is too small. -/
theorem Encloses.upper (h : Encloses key xs k lo hi)
    (hs : xs.Pairwise fun a b => key a < key b) (hmid : mid < xs.length)
    (hlt : key xs[mid] < k) : Encloses key xs k (mid + 1) hi where
  below := by
    intro i hi hle
    obtain hbefore | rfl := Nat.lt_succ_iff_lt_or_eq.mp hle
    · exact lt_trans (pairwise_iff_getElem.mp hs i mid hi hmid hbefore) hlt
    · exact hlt
  above := h.above

/-- The element in the middle is too great. -/
theorem Encloses.lower (h : Encloses key xs k lo hi)
    (hs : xs.Pairwise fun a b => key a < key b) (hmid : mid < xs.length)
    (hgt : k < key xs[mid]) : Encloses key xs k lo mid where
  below := h.below
  above := by
    intro i hi hle
    obtain hbehind | rfl := Nat.lt_or_eq_of_le hle
    · exact lt_trans hgt (pairwise_iff_getElem.mp hs mid i hmid hi hbehind)
    · exact hgt

/-- An empty interval: nothing in the list has the key. -/
theorem Encloses.empty (h : Encloses key xs k lo hi) (hle : hi ≤ lo) : ∀ x ∈ xs, key x ≠ k := by
  intro x hx heq
  obtain ⟨i, hi, rfl⟩ := getElem_of_mem hx
  obtain hlt | hge := Nat.lt_or_ge i lo
  · exact absurd heq (ne_of_lt (h.below i hi hlt))
  · exact absurd heq (ne_of_gt (h.above i hi (Nat.le_trans hle hge)))

/-- Elements with one key are one element. -/
theorem unique (hs : xs.Pairwise fun a b => key a < key b) {x y : α} (hx : x ∈ xs) (hy : y ∈ xs)
    (heq : key x = key y) : x = y := by
  obtain ⟨i, hi, rfl⟩ := getElem_of_mem hx
  obtain ⟨j, hj, rfl⟩ := getElem_of_mem hy
  have hmono := pairwise_iff_getElem.mp hs
  obtain hij | rfl | hji := Nat.lt_trichotomy i j
  · exact absurd heq (ne_of_lt (hmono i j hi hj hij))
  · rfl
  · exact absurd heq.symm (ne_of_lt (hmono j i hj hi hji))

end Bisect
