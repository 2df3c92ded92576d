import Mathlib.Data.Nat.ModEq

/-!
# Ring buffers

A fixed array with the place of the oldest entry and the number of entries; an entry that finds the
buffer full takes the place of the oldest.

* `RingBuffer.toList` — the entries, the oldest first;
* `RingBuffer.drop`, `RingBuffer.push` — the oldest entry taken out, and a new one put in;
* `toList_drop`, `toList_push` — the two operations on the list.
-/

/-- An array of `n` slots, `count` of them in use from `head` on. -/
structure RingBuffer (α : Type) (n : ℕ) where
  slots : Fin n → α
  (head count : ℕ)
  count_le : count ≤ n

namespace RingBuffer

open List

variable {α : Type} {n : ℕ} [NeZero n]

/-- The slot of the `i`-th entry. -/
def slot (r : RingBuffer α n) (i : ℕ) : Fin n := Fin.ofNat n (r.head + i)

/-- The entries, the oldest first. -/
def toList (r : RingBuffer α n) : List α := (List.range r.count).map fun i => r.slots (r.slot i)

/-- The buffer without its oldest entry. -/
def drop (r : RingBuffer α n) : RingBuffer α n where
  slots := r.slots
  head := (r.head + 1) % n
  count := r.count - 1
  count_le := Nat.le_trans (Nat.sub_le _ _) r.count_le

/-- One more entry behind the others, where there is a slot for it. -/
def append (r : RingBuffer α n) (a : α) (h : r.count < n) : RingBuffer α n where
  slots := Function.update r.slots (r.slot r.count) a
  head := r.head
  count := r.count + 1
  count_le := h

/-- One more entry; the oldest gives way where the buffer is full. -/
def push (r : RingBuffer α n) (a : α) : RingBuffer α n :=
  if h : r.count < n then r.append a h
  else
    r.drop.append a <| by
      have hpos := Nat.pos_of_neZero n
      have hle := r.count_le
      show r.count - 1 < n
      omega

@[simp] theorem length_toList (r : RingBuffer α n) : r.toList.length = r.count := by
  unfold toList
  rw [length_map, length_range]

/-- Entries in different places are in different slots. -/
theorem slot_ne {r : RingBuffer α n} {i j : ℕ} (hi : i < n) (hj : j < n) (h : i ≠ j) :
    r.slot i ≠ r.slot j := by
  intro heq
  have hmod : r.head + i ≡ r.head + j [MOD n] := congrArg Fin.val heq
  have hij := Nat.ModEq.add_left_cancel' r.head hmod
  unfold Nat.ModEq at hij
  rw [Nat.mod_eq_of_lt hi, Nat.mod_eq_of_lt hj] at hij
  exact h hij

theorem toList_drop (r : RingBuffer α n) : r.drop.toList = r.toList.tail := by
  have hslot : ∀ i, r.drop.slot i = r.slot (i + 1) := by
    intro i
    apply Fin.ext
    show ((r.head + 1) % n + i) % n = (r.head + (i + 1)) % n
    rw [Nat.mod_add_mod, Nat.add_right_comm, Nat.add_assoc]
  unfold toList
  show (List.range (r.count - 1)).map (fun i => r.slots (r.drop.slot i)) = _
  cases hcount : r.count with
  | zero => rfl
  | succ k =>
    rw [range_succ_eq_map, map_cons, tail_cons, List.map_map]
    apply map_congr_left
    intro i _
    show r.slots (r.drop.slot i) = r.slots (r.slot (i + 1))
    rw [hslot]

theorem toList_append (r : RingBuffer α n) (a : α) (h : r.count < n) :
    (r.append a h).toList = r.toList ++ [a] := by
  unfold toList
  show (List.range (r.count + 1)).map
    (fun i => Function.update r.slots (r.slot r.count) a (r.slot i)) = _
  rw [range_succ, map_append, map_singleton, Function.update_self]
  congr 1
  apply map_congr_left
  intro i hi
  have hlt := mem_range.mp hi
  rw [Function.update_of_ne (slot_ne (Nat.lt_trans hlt h) h (Nat.ne_of_lt hlt))]

/-- **A new entry** stands last, and the oldest is gone where the buffer was full. -/
theorem toList_push (r : RingBuffer α n) (a : α) :
    (r.push a).toList = (if r.toList.length < n then r.toList else r.toList.tail) ++ [a] := by
  unfold push
  rw [length_toList]
  split
  · rw [toList_append]
  · rw [toList_append, toList_drop]

/-- The oldest entry. -/
theorem head_toList {r : RingBuffer α n} (h : r.count ≠ 0) :
    r.toList = r.slots (r.slot 0) :: r.drop.toList := by
  rw [toList_drop]
  unfold toList
  obtain ⟨k, hk⟩ := Nat.exists_eq_succ_of_ne_zero h
  rw [hk, range_succ_eq_map, map_cons, tail_cons]

end RingBuffer
