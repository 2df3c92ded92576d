import Mathlib.Data.Nat.Bitwise
import Mathlib.Data.List.Basic

namespace BitGroups

open List

/-!
# Regrouping bits

A string of bits is cut into digits of one width and written as digits of another.  A loop does so
with an accumulator: a digit is pushed in at the low end, and taken out at the high end when enough
bits are pending.

* `low w n` — the `w` low bits of a number, most significant first; `low_append`, `low_injective`;
* `bitsOf w ds` — the bits of some digits of width `w`; `bitsOf_append_inj` — **digits and what is
  left over are determined by the bits**;
* `Acc` — an accumulator of 32 bits; `pending_push`, `pending_split` — what a push and a take do to
  the bits that are pending.
-/

/-- The `w` low bits of a number, most significant first. -/
def low : ℕ → ℕ → List Bool
  | 0, _ => []
  | w + 1, n => n.testBit w :: low w n

attribute [local simp] low in
@[simp] theorem length_low (w n : ℕ) : (low w n).length = w := by
  induction w with
  | zero => rfl
  | succ w ih => rw [low, length_cons, ih]

/-- The low bits of a number only depend on these. -/
theorem low_congr {w m n : ℕ} (h : ∀ i < w, m.testBit i = n.testBit i) : low w m = low w n := by
  induction w with
  | zero => rfl
  | succ w ih =>
    rw [low, low, h w (Nat.lt_succ_self w), ih fun i hi => h i (Nat.lt_succ_of_lt hi)]

theorem testBit_of_low_eq {w m n : ℕ} (h : low w m = low w n) {i : ℕ} (hi : i < w) :
    m.testBit i = n.testBit i := by
  induction w with
  | zero => omega
  | succ w ih =>
    rw [low, low, List.cons.injEq] at h
    by_cases hw : i = w
    · rw [hw]
      exact h.1
    · exact ih h.2 (by omega)

theorem low_injective {w m n : ℕ} (hm : m < 2 ^ w) (hn : n < 2 ^ w) (h : low w m = low w n) :
    m = n := by
  apply Nat.eq_of_testBit_eq
  intro i
  by_cases hi : i < w
  · exact testBit_of_low_eq h hi
  · have hpow : 2 ^ w ≤ 2 ^ i := Nat.pow_le_pow_right (by decide) (by omega)
    rw [Nat.testBit_lt_two_pow (by omega), Nat.testBit_lt_two_pow (by omega)]

theorem low_mod {w v : ℕ} (h : w ≤ v) (n : ℕ) : low w (n % 2 ^ v) = low w n := by
  apply low_congr
  intro i hi
  rw [Nat.testBit_mod_two_pow]
  simp
  omega

/-- The high part of some bits and the low part. -/
theorem low_append (a b n : ℕ) : low (a + b) n = low a (n >>> b) ++ low b n := by
  induction a with
  | zero => rw [Nat.zero_add, low, nil_append]
  | succ a ih =>
    rw [Nat.succ_add, low, low, ih, cons_append, Nat.testBit_shiftRight, Nat.add_comm b a]

/-- The bits of a number with a digit behind it. -/
theorem low_push {a v : ℕ} (h : v < 2 ^ a) (m n : ℕ) :
    low (m + a) (n <<< a ||| v) = low m n ++ low a v := by
  rw [low_append]
  congr 1
  · rw [Nat.shiftRight_or_distrib, Nat.shiftLeft_shiftRight, Nat.shiftRight_eq_zero v a h,
      Nat.or_zero]
  · apply low_congr
    intro i hi
    rw [Nat.testBit_or, Nat.testBit_shiftLeft]
    have hle : ¬ a ≤ i := by omega
    simp [hle]

/-- No bit of zero is set. -/
theorem low_zero (w : ℕ) : low w 0 = List.replicate w false := by
  induction w with
  | zero => rfl
  | succ w ih => rw [low, ih, Nat.zero_testBit, replicate_succ]

/-- The low bits are clear where the power of two divides. -/
theorem low_eq_replicate_iff {w n : ℕ} : low w n = List.replicate w false ↔ n % 2 ^ w = 0 := by
  rw [← low_zero]
  constructor
  · intro h
    rw [← low_mod (Nat.le_refl w) n] at h
    exact low_injective (Nat.mod_lt _ (Nat.two_pow_pos w)) (Nat.two_pow_pos w) h
  · intro h
    rw [← low_mod (Nat.le_refl w) n, h]

/-! ### Digits -/

/-- The bits of digits of width `w`. -/
def bitsOf (w : ℕ) (ds : List ℕ) : List Bool := ds.flatMap (low w)

@[simp] theorem bitsOf_nil (w : ℕ) : bitsOf w [] = [] := rfl

@[simp] theorem bitsOf_cons (w d : ℕ) (ds : List ℕ) :
    bitsOf w (d :: ds) = low w d ++ bitsOf w ds := flatMap_cons ..

@[simp] theorem bitsOf_append (w : ℕ) (ds es : List ℕ) :
    bitsOf w (ds ++ es) = bitsOf w ds ++ bitsOf w es := flatMap_append

@[simp] theorem length_bitsOf (w : ℕ) (ds : List ℕ) : (bitsOf w ds).length = ds.length * w := by
  induction ds with
  | nil => rw [bitsOf_nil, length_nil, length_nil, Nat.zero_mul]
  | cons d ds ih =>
    rw [bitsOf_cons, length_append, length_low, ih, length_cons, Nat.succ_mul, Nat.add_comm]

/-- **Digits, and fewer bits than a digit that are left over, are determined by the bits.** -/
theorem bitsOf_append_inj {w : ℕ} {ds es : List ℕ} {r s : List Bool}
    (hds : ∀ d ∈ ds, d < 2 ^ w) (hes : ∀ e ∈ es, e < 2 ^ w) (hr : r.length < w) (hs : s.length < w)
    (h : bitsOf w ds ++ r = bitsOf w es ++ s) : ds = es ∧ r = s := by
  induction ds generalizing es with
  | nil =>
    cases es with
    | nil => exact ⟨rfl, by simpa using h⟩
    | cons e es =>
      have hlen := congrArg List.length h
      simp only [bitsOf_nil, bitsOf_cons, nil_append, length_append, length_low] at hlen
      omega
  | cons d ds ih =>
    cases es with
    | nil =>
      have hlen := congrArg List.length h
      simp only [bitsOf_nil, bitsOf_cons, nil_append, length_append, length_low] at hlen
      omega
    | cons e es =>
      rw [bitsOf_cons, bitsOf_cons, append_assoc, append_assoc] at h
      obtain ⟨hd, hrest⟩ := append_inj h (by rw [length_low, length_low])
      have hde : d = e := low_injective (hds d mem_cons_self) (hes e mem_cons_self) hd
      obtain ⟨hds', hrs⟩ := ih (fun x hx => hds x (mem_cons_of_mem _ hx))
        (fun x hx => hes x (mem_cons_of_mem _ hx)) hrest
      exact ⟨by rw [hde, hds'], hrs⟩

/-- Digits alone are determined by their bits. -/
theorem bitsOf_inj {w : ℕ} {ds es : List ℕ} (hw : 0 < w) (hds : ∀ d ∈ ds, d < 2 ^ w)
    (hes : ∀ e ∈ es, e < 2 ^ w) (h : bitsOf w ds = bitsOf w es) : ds = es :=
  (bitsOf_append_inj hds hes hw hw (r := []) (s := []) (by rw [h])).1

/-- The bits of the first digits. -/
theorem bitsOf_take (w n : ℕ) (ds : List ℕ) :
    bitsOf w (ds.take n) = (bitsOf w ds).take (n * w) := by
  by_cases h : n ≤ ds.length
  · have hlength : (bitsOf w (ds.take n)).length = n * w := by
      rw [length_bitsOf, length_take_of_le h]
    rw [← hlength]
    conv_rhs => rw [← take_append_drop n ds, bitsOf_append]
    rw [take_left' (by rw [take_append_drop])]
  · have hle : ds.length * w ≤ n * w := Nat.mul_le_mul_right w (by omega)
    rw [take_of_length_le (by omega), take_of_length_le (by rw [length_bitsOf]; exact hle)]

/-- The bits of the digits behind the first ones. -/
theorem bitsOf_drop (w n : ℕ) (ds : List ℕ) :
    bitsOf w (ds.drop n) = (bitsOf w ds).drop (n * w) := by
  have happend : bitsOf w ds = bitsOf w (ds.take n) ++ bitsOf w (ds.drop n) := by
    rw [← bitsOf_append, take_append_drop]
  have htake := bitsOf_take w n ds
  have hsplit := take_append_drop (n * w) (bitsOf w ds)
  rw [← htake] at hsplit
  exact (append_cancel_left (hsplit.trans happend)).symm

/-! ### An accumulator -/

/-- An accumulator of 32 bits, and how many of them are pending. -/
structure Acc where
  acc : ℕ := 0
  bits : ℕ := 0

/-- `acc = (acc << a) | v; bits += a`. -/
def Acc.push (s : Acc) (a v : ℕ) : Acc := ⟨(s.acc <<< a ||| v) % 2 ^ 32, s.bits + a⟩

/-- `(acc >> (bits - b)) & (2 ^ b - 1)`. -/
def Acc.peek (s : Acc) (b : ℕ) : ℕ := (s.acc >>> (s.bits - b)) % 2 ^ b

/-- `bits -= b`. -/
def Acc.take (s : Acc) (b : ℕ) : Acc := ⟨s.acc, s.bits - b⟩

/-- The bits that are pending. -/
def Acc.pending (s : Acc) : List Bool := low s.bits s.acc

@[simp] theorem Acc.bits_push (s : Acc) (a v : ℕ) : (s.push a v).bits = s.bits + a := rfl

@[simp] theorem Acc.bits_take (s : Acc) (b : ℕ) : (s.take b).bits = s.bits - b := rfl

@[simp] theorem Acc.length_pending (s : Acc) : s.pending.length = s.bits := length_low _ _

theorem Acc.peek_lt (s : Acc) (b : ℕ) : s.peek b < 2 ^ b := Nat.mod_lt _ (Nat.two_pow_pos b)

/-- A digit goes behind the bits that are pending, as long as there is room. -/
theorem Acc.pending_push {s : Acc} {a v : ℕ} (h : s.bits + a ≤ 32) (hv : v < 2 ^ a) :
    (s.push a v).pending = s.pending ++ low a v := by
  unfold Acc.pending Acc.push
  dsimp only
  rw [low_mod h, low_push hv]

/-- A digit is taken from the front. -/
theorem Acc.pending_split {s : Acc} {b : ℕ} (h : b ≤ s.bits) :
    s.pending = low b (s.peek b) ++ (s.take b).pending := by
  unfold Acc.pending Acc.peek Acc.take
  dsimp only
  rw [low_mod (Nat.le_refl b), ← low_append, Nat.add_sub_cancel' h]

end BitGroups
