import Mathlib.Data.Int.Notation
import Mathlib.Tactic.Common

namespace RoundRobin

open List

/-!
# Round robin — a cursor that moves past what it has served

The places `0 … n - 1` lie on a ring.  A turn looks at them from the cursor on, serves the first
that is ready, and moves the cursor behind it.

* `offset` — how far a place is in front of the cursor;
* `serve` — the turn, as the offset of the place it serves;
* `serve_ready` — **a place that is ready is served, or the cursor comes closer to it**, so that a
  place that stays ready is served within `n` turns.
-/

/-- The place at an offset from the cursor. -/
def place (n cursor i : ℕ) : ℕ := (cursor + i) % n

/-- How far a place is in front of the cursor. -/
def offset (n cursor j : ℕ) : ℕ := (j + n - cursor) % n

/-- The offset of the first place that is ready; whether it is may depend on when it is looked
    at. -/
def serve (n : ℕ) (ready : ℕ → ℕ → Bool) (cursor : ℕ) : Option ℕ :=
  (List.range n).find? fun i => ready i (place n cursor i)

variable {n cursor j : ℕ}

theorem offset_lt (hj : j < n) : offset n cursor j < n :=
  Nat.mod_lt _ (Nat.lt_of_le_of_lt (Nat.zero_le j) hj)

theorem place_lt (hj : j < n) (i : ℕ) : place n cursor i < n :=
  Nat.mod_lt _ (Nat.lt_of_le_of_lt (Nat.zero_le j) hj)

/-- The offset without a remainder: a place behind the cursor is reached over the end of the
    ring. -/
theorem offset_eq (hc : cursor < n) (hj : j < n) :
    offset n cursor j = if cursor ≤ j then j - cursor else j + n - cursor := by
  unfold offset
  split
  · have hsplit : j + n - cursor = j - cursor + n := by omega
    rw [hsplit, Nat.add_mod_right, Nat.mod_eq_of_lt (by omega)]
  · exact Nat.mod_eq_of_lt (by omega)

theorem place_offset (hc : cursor < n) (hj : j < n) : place n cursor (offset n cursor j) = j := by
  rw [offset_eq hc hj, place]
  split
  · rw [Nat.mod_eq_of_lt (by omega)]
    omega
  · have hsplit : cursor + (j + n - cursor) = j + n := by omega
    rw [hsplit, Nat.add_mod_right, Nat.mod_eq_of_lt hj]

/-- Behind a place that lies in front of `j`, the cursor is closer to `j`. -/
theorem offset_advance (hc : cursor < n) (hj : j < n) {i : ℕ} (hi : i < offset n cursor j) :
    offset n (place n cursor (i + 1)) j < offset n cursor j := by
  rw [offset_eq hc hj] at hi
  rw [offset_eq (place_lt hj _) hj, offset_eq hc hj]
  have hplace : place n cursor (i + 1) =
      if cursor + (i + 1) < n then cursor + (i + 1) else cursor + (i + 1) - n := by
    rw [place]
    split
    · next h => exact Nat.mod_eq_of_lt h
    · next h =>
      have hi' : i < n := by split at hi <;> omega
      rw [Nat.mod_eq_sub_mod (by omega), Nat.mod_eq_of_lt (by omega)]
  rw [hplace]
  by_cases hcj : cursor ≤ j
  · rw [if_pos hcj] at hi ⊢
    rw [if_pos (show cursor + (i + 1) < n by omega), if_pos (by omega)]
    omega
  · rw [if_neg hcj] at hi ⊢
    -- the cursor may go over the end of the ring on its way
    split
    · rw [if_neg (by omega)]
      omega
    · rw [if_pos (by omega)]
      omega

theorem serve_some {ready : ℕ → ℕ → Bool} {i : ℕ} (h : serve n ready cursor = some i) :
    i < n ∧ ready i (place n cursor i) = true := by
  have hfind := @List.find?_some _ (fun i => ready i (place n cursor i)) i _ h
  exact ⟨mem_range.mp (mem_of_find?_eq_some h), hfind⟩

/-- **A place that is ready is served, or the cursor comes closer to it.** -/
theorem serve_ready {ready : ℕ → ℕ → Bool} (hc : cursor < n) (hj : j < n)
    (h : ready (offset n cursor j) j = true) :
    ∃ i, serve n ready cursor = some i ∧ (place n cursor i = j ∨
      offset n (place n cursor (i + 1)) j < offset n cursor j) := by
  have hready : ready (offset n cursor j) (place n cursor (offset n cursor j)) = true := by
    rw [place_offset hc hj]
    exact h
  cases hserve : serve n ready cursor with
  | none =>
    have hnone := find?_eq_none.mp hserve (offset n cursor j) (mem_range.mpr (offset_lt hj))
    exact absurd hready hnone
  | some i =>
    refine ⟨i, rfl, ?_⟩
    -- the first that is ready cannot lie behind `j`
    have hle : i ≤ offset n cursor j := by
      by_contra hgt
      obtain ⟨-, k, hlen, hk, hbefore⟩ := find?_eq_some_iff_getElem.mp hserve
      have hki : k = i := by rw [getElem_range] at hk; exact hk
      have hskip := hbefore (offset n cursor j) (by omega)
      rw [getElem_range, hready] at hskip
      cases hskip
    rcases Nat.eq_or_lt_of_le hle with heq | hlt
    · exact .inl (heq ▸ place_offset hc hj)
    · exact .inr (offset_advance hc hj hlt)

end RoundRobin
