import Mathlib.Data.Nat.Count
import Mathlib.Algebra.Order.BigOperators.Group.List
import Mathlib.Algebra.Order.Ring.Nat

namespace Wheel

open List

/-!
# Wheel — turns of a wheel with weighted segments

A wheel has a segment of a given width for each position of a list; a point falls into one of them.

* `pick` — the segment of a point, found by subtracting the widths one after the other;
* `pick_eq_some_iff` — it lies between the widths in front of it and those up to it;
* `count_window` — **in every full turn a segment is picked as often as it is wide**, wherever the
  turn begins.
-/

/-- The segment into which a point falls. -/
def pick : List ℕ → ℕ → Option ℕ
  | [], _ => none
  | w :: ws, point => if point < w then some 0 else (pick ws (point - w)).map (· + 1)

theorem pick_cons (w : ℕ) (ws : List ℕ) (point : ℕ) :
    pick (w :: ws) point = if point < w then some 0 else (pick ws (point - w)).map (· + 1) := rfl

variable {ws : List ℕ} {i point : ℕ}

theorem pick_eq_some_iff : pick ws point = some i ↔
    i < ws.length ∧ (ws.take i).sum ≤ point ∧ point < (ws.take (i + 1)).sum := by
  induction ws generalizing point i with
  | nil =>
    constructor
    · nofun
    · rintro ⟨h, -⟩
      exact absurd h (Nat.not_lt_zero _)
  | cons w ws ih =>
    rw [pick_cons, length_cons, take_succ_cons, sum_cons]
    cases i with
    | zero =>
      rw [take_zero, take_zero, sum_nil]
      split
      · next h => exact iff_of_true rfl ⟨Nat.succ_pos _, Nat.zero_le _, h⟩
      rename_i h
      rw [Option.map_eq_some_iff]
      constructor
      · rintro ⟨j, -, hj⟩
        cases hj
      · rintro ⟨-, -, hlt⟩
        exact absurd hlt h
    | succ i =>
      rw [take_succ_cons, sum_cons]
      split
      · next h =>
        constructor
        · nofun
        · rintro ⟨-, hle, -⟩
          omega
      · next h =>
        have hmap : (pick ws (point - w)).map (· + 1) = some (i + 1) ↔ pick ws (point - w) = some i := by
          rw [Option.map_eq_some_iff]
          constructor
          · rintro ⟨j, hj, heq⟩
            rw [hj, Nat.succ.inj heq]
          · exact fun hi => ⟨i, hi, rfl⟩
        rw [hmap, ih]
        omega

theorem pick_isSome : (pick ws point).isSome = true ↔ point < ws.sum := by
  induction ws generalizing point with
  | nil => exact iff_of_false Bool.false_ne_true (Nat.not_lt_zero _)
  | cons w ws ih =>
    rw [pick_cons, sum_cons]
    split
    · next h => exact iff_of_true rfl (Nat.lt_of_lt_of_le h (Nat.le_add_right _ _))
    rename_i h
    rw [Option.isSome_map, ih]
    omega

/-- Points up to a bound that lie in an interval. -/
theorem count_between (a b n : ℕ) : Nat.count (fun k => a ≤ k ∧ k < b) n = min b n - min a n := by
  induction n with
  | zero => rw [Nat.count_zero, Nat.min_zero, Nat.min_zero]
  | succ n ih =>
    rw [Nat.count_succ, ih]
    split
    · omega
    · omega

/-- In the turn that begins at zero. -/
theorem count_turn (hi : i < ws.length) :
    Nat.count (fun k => pick ws k = some i) ws.sum = ws[i] := by
  have hsegment : Nat.count (fun k => pick ws k = some i) ws.sum =
      Nat.count (fun k => (ws.take i).sum ≤ k ∧ k < (ws.take (i + 1)).sum) ws.sum := by
    congr 1
    funext k
    exact propext (pick_eq_some_iff.trans (and_iff_right hi))
  have hle : (ws.take (i + 1)).sum ≤ ws.sum := (take_sublist _ _).sum_le_sum fun _ _ => Nat.zero_le _
  have hsum : (ws.take (i + 1)).sum = (ws.take i).sum + ws[i] := sum_take_succ ws i hi
  rw [hsegment, count_between]
  omega

/-- A window of the length of a period holds the same number of points wherever it begins. -/
theorem count_periodic {p : ℕ → Prop} [DecidablePred p] {n : ℕ} (h : ∀ k, p (k + n) ↔ p k) (s : ℕ) :
    Nat.count (fun k => p (s + k)) n = Nat.count p n := by
  induction s with
  | zero =>
    congr 1
    funext k
    rw [Nat.zero_add]
  | succ s ih =>
    rw [← ih]
    -- the window moved by one loses its first point and gains one a period behind it
    have hback := Nat.count_succ (p := fun k => p (s + k)) n
    have hfront := Nat.count_succ' (p := fun k => p (s + k)) n
    have hsame : p (s + n) ↔ p (s + 0) := h s
    have hshift : Nat.count (fun k => p (s + 1 + k)) n = Nat.count (fun k => p (s + (k + 1))) n := by
      congr 1
      funext k
      rw [Nat.add_assoc, Nat.add_comm 1 k]
    rw [hshift]
    by_cases hp : p (s + 0)
    · rw [if_pos (hsame.mpr hp)] at hback
      rw [if_pos hp] at hfront
      omega
    · rw [if_neg fun hn => hp (hsame.mp hn)] at hback
      rw [if_neg hp] at hfront
      omega

/-- **In every full turn a segment is picked as often as it is wide.** -/
theorem count_window (hi : i < ws.length) (s : ℕ) :
    Nat.count (fun k => pick ws ((s + k) % ws.sum) = some i) ws.sum = ws[i] := by
  rw [count_periodic (p := fun k => pick ws (k % ws.sum) = some i)
    (fun k => by rw [Nat.add_mod_right]) s, ← count_turn hi]
  rw [Nat.count_eq_card_filter_range, Nat.count_eq_card_filter_range]
  congr 1
  apply Finset.filter_congr
  intro k hk
  rw [Nat.mod_eq_of_lt (Finset.mem_range.mp hk)]

end Wheel
