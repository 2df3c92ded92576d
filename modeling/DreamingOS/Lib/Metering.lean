import Mathlib.Algebra.GroupWithZero.Nat
import Mathlib.Data.List.Infix

namespace Metering

open List

/-!
# Metering — readings of a counter that may start again

The readings of a counter, the last one first.  Between two of them the counter has grown, or it
has started again from zero.

* `gain`, `total` — what has been counted between two readings, and up to the last one;
* `lost` — the readings that the counter had when it started again;
* `total_add` — the total in terms of the last reading and of what was lost;
* `total_taken_up` — **when one may go on from an earlier reading**.
-/

/-- What has been counted between two readings. -/
def gain (x y : ℕ) : ℕ := if x ≤ y then y - x else y

/-- What has been counted up to the last reading. -/
def total : List ℕ → ℕ
  | [] => 0
  | [x] => x
  | y :: x :: xs => total (x :: xs) + gain x y

/-- The readings behind which the counter has started again. -/
def lost : List ℕ → List ℕ
  | [] => []
  | [_] => []
  | y :: x :: xs => if y < x then x :: lost (x :: xs) else lost (x :: xs)

theorem gain_add (x y : ℕ) : gain x y + x = y + if y < x then x else 0 := by
  unfold gain
  split
  · rw [if_neg (by omega)]
    omega
  · rw [if_pos (by omega)]

/-- The total from an earlier reading on. -/
theorem total_add (y r : ℕ) (newer older : List ℕ) : total (y :: (newer ++ r :: older)) + r =
      total (r :: older) + y + (lost (y :: (newer ++ [r]))).sum := by
  induction newer generalizing y with
  | nil =>
    have hgain := gain_add r y
    show total (r :: older) + gain r y + r = _
    simp only [nil_append, lost]
    split at hgain <;> rename_i hlt
    · rw [if_pos hlt]
      simp only [sum_cons, sum_nil]
      omega
    · rw [if_neg hlt]
      simp only [sum_nil]
      omega
  | cons x newer ih =>
    have hgain := gain_add x y
    have hrest := ih x
    show total (x :: (newer ++ r :: older)) + gain x y + r = _
    simp only [cons_append, lost]
    split at hgain <;> rename_i hlt
    · rw [if_pos hlt, sum_cons]
      omega
    · rw [if_neg hlt]
      omega

theorem lost_pos {xs : List ℕ} : ∀ x ∈ lost xs, 0 < x := by
  induction xs with
  | nil => nofun
  | cons y xs ih =>
    cases xs with
    | nil => nofun
    | cons x xs =>
      unfold lost
      split
      · intro z hz
        obtain rfl | hz := mem_cons.mp hz
        · omega
        · exact ih z hz
      · exact ih

theorem total_mono (newer : List ℕ) (r : ℕ) (older : List ℕ) :
    total (r :: older) ≤ total (newer ++ r :: older) := by
  induction newer with
  | nil => exact Nat.le_refl _
  | cons y newer ih =>
    cases newer with
    | nil => exact Nat.le_add_right ..
    | cons x newer => exact Nat.le_trans ih (Nat.le_add_right ..)

/-- A counter that has started again has lost at least its first reading. -/
theorem le_lost {y r : ℕ} {newer : List ℕ} (h : lost (y :: (newer ++ [r])) ≠ []) :
    ∃ x ∈ lost (y :: (newer ++ [r])), r ≤ x := by
  induction newer generalizing y with
  | nil =>
    simp only [nil_append, lost] at h ⊢
    split at h
    · next hlt =>
      rw [if_pos hlt]
      exact ⟨r, mem_cons_self, Nat.le_refl r⟩
    · exact absurd rfl h
  | cons x newer ih =>
    by_cases hrest : lost (x :: (newer ++ [r])) = []
    · -- nothing has been lost up to `x`, which is therefore all that has been counted
      have hgrown := total_add x r newer []
      have hfirst : r ≤ total (x :: (newer ++ [r])) := total_mono (x :: newer) r []
      rw [hrest] at hgrown
      have hlow : r ≤ x := by
        have htotal : total [r] = r := rfl
        simp only [sum_nil] at hgrown
        omega
      simp only [cons_append, lost] at h ⊢
      split at h
      · next hlt =>
        rw [if_pos hlt]
        exact ⟨x, mem_cons_self, hlow⟩
      · exact absurd hrest h
    · obtain ⟨z, hz, hr⟩ := ih hrest
      simp only [cons_append, lost]
      split
      · exact ⟨z, mem_cons_of_mem _ hz, hr⟩
      · exact ⟨z, hz, hr⟩

theorem eq_nil_of_sum {zs : List ℕ} (h : zs.sum = 0) (hpos : ∀ z ∈ zs, 0 < z) : zs = [] := by
  cases zs with
  | nil => rfl
  | cons z zs =>
    have hz := hpos z mem_cons_self
    rw [sum_cons] at h
    omega

/-- Nothing has been lost since the reading, or that very reading alone, and the counter is now
    below it. -/
def Resumes (y r : ℕ) (newer : List ℕ) : Prop :=
  lost (y :: (newer ++ [r])) = [] ∨ (lost (y :: (newer ++ [r])) = [r] ∧ y < r)

instance (y r : ℕ) (newer : List ℕ) : Decidable (Resumes y r newer) :=
  inferInstanceAs (Decidable (_ ∨ _))

/-- **One may go on from an earlier reading** exactly when nothing has been lost since but what the
    last reading shows. -/
theorem total_taken_up (y r : ℕ) (newer older : List ℕ) :
    total (y :: (newer ++ r :: older)) = total (r :: older) + gain r y ↔ Resumes y r newer := by
  have hadd := total_add y r newer older
  have hgain := gain_add r y
  have hsum : total (y :: (newer ++ r :: older)) = total (r :: older) + gain r y ↔
      (lost (y :: (newer ++ [r]))).sum = if y < r then r else 0 := by omega
  rw [hsum]
  unfold Resumes
  constructor
  · intro h
    by_cases hlost : lost (y :: (newer ++ [r])) = []
    · exact .inl hlost
    obtain ⟨x, hx, hr⟩ := le_lost hlost
    have hpos := lost_pos x hx
    obtain ⟨before, after, hsplit⟩ := append_of_mem hx
    rw [hsplit, sum_append, sum_cons] at h
    split at h
    · next hlt =>
      -- the sum is `r`, which one of the readings already makes up
      have hbefore : before = [] := eq_nil_of_sum (by omega) fun z hz =>
        lost_pos z (hsplit ▸ mem_append_left _ hz)
      have hafter : after = [] := eq_nil_of_sum (by omega) fun z hz =>
        lost_pos z (hsplit ▸ mem_append_right _ (mem_cons_of_mem _ hz))
      rw [hbefore, hafter, nil_append] at hsplit
      rw [hbefore, hafter, sum_nil] at h
      refine .inr ⟨?_, hlt⟩
      rw [hsplit, show x = r by omega]
    · omega
  · rintro (h | ⟨h, hlt⟩)
    · rw [h, if_neg]
      · rfl
      · intro hlt
        -- nothing lost means that the counter has only grown
        have hgrown := total_add y r newer []
        have hfirst : r ≤ total (y :: (newer ++ [r])) := total_mono (y :: newer) r []
        have htotal : total [r] = r := rfl
        rw [h, sum_nil] at hgrown
        omega
    · rw [h, if_pos hlt, sum_singleton]

end Metering
