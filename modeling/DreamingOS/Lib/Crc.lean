import Mathlib.Data.List.Basic

namespace Crc

open List

/-!
# Cyclic redundancy checks, least significant bit first

A register of `w` bits takes a message in byte by byte: a byte is added to the low end, and the
register moves down eight places, adding the polynomial for every one that drops out.

* `shift` — one place; `shift_xor`, `shift_ne_zero`: it is linear, and nothing but zero goes to zero;
* `High k x` — some bit of the register from the `k`-th on is set; `high_feed`: after a byte
  that is not zero there is one among the eight highest;
* `run_injective`, `eq_of_run_eq` — **messages that differ in no more neighbouring bytes than the
  register has leave different registers**.

What is asked of the polynomial is that its highest bit is set.
-/

variable {w : ℕ}

/-- The register moves down one place. -/
def shift (poly x : BitVec w) : BitVec w := (x >>> 1) ^^^ if x.getLsbD 0 then poly else 0#w

/-- The register moves down some places. -/
def shifts (poly : BitVec w) : ℕ → BitVec w → BitVec w
  | 0, x => x
  | n + 1, x => shifts poly n (shift poly x)

/-- A byte at the low end of a register. -/
def ofByte (b : UInt8) : BitVec w := BitVec.ofNat w b.toNat

/-- The register takes in a byte. -/
def feed (poly x : BitVec w) (b : UInt8) : BitVec w := shifts poly 8 (x ^^^ ofByte b)

/-- The register takes in a message. -/
def run (poly x : BitVec w) (bs : List UInt8) : BitVec w := bs.foldl (feed poly) x

/-! ### Linearity -/

theorem shift_xor (poly x y : BitVec w) : shift poly (x ^^^ y) = shift poly x ^^^ shift poly y := by
  unfold shift
  rw [BitVec.ushiftRight_xor_distrib, BitVec.getLsbD_xor]
  have hself : poly ^^^ poly = 0#w := BitVec.xor_self
  cases x.getLsbD 0 <;> cases y.getLsbD 0 <;>
    simp only [Bool.false_bne, Bool.true_bne, Bool.not_true, Bool.not_false, Bool.false_eq_true,
      ↓reduceIte, BitVec.xor_zero]
  · ac_rfl
  · ac_rfl
  · calc x >>> 1 ^^^ y >>> 1 = x >>> 1 ^^^ y >>> 1 ^^^ (poly ^^^ poly) := by
          rw [hself, BitVec.xor_zero]
      _ = _ := by ac_rfl

theorem shifts_xor (poly : BitVec w) (n : ℕ) (x y : BitVec w) :
    shifts poly n (x ^^^ y) = shifts poly n x ^^^ shifts poly n y := by
  induction n generalizing x y with
  | zero => rfl
  | succ n ih => rw [shifts, shift_xor, ih, shifts, shifts]

variable {y : BitVec w}

theorem xor_eq_zero {x : BitVec w} : x ^^^ y = 0#w ↔ x = y := BitVec.xor_eq_zero_iff

/-! ### The highest bit that is set -/

/-- Some bit from the `k`-th on is set. -/
def High (k : ℕ) (x : BitVec w) : Prop := ∃ i, k ≤ i ∧ x.getLsbD i = true

variable {x : BitVec w} {k : ℕ}

theorem High.ne_zero (h : High k x) : x ≠ 0#w := by
  rintro rfl
  obtain ⟨i, -, hi⟩ := h
  rw [BitVec.getLsbD_zero] at hi
  cases hi

theorem High.mono {l : ℕ} (h : High k x) (hle : l ≤ k) : High l x := by
  obtain ⟨i, hk, hi⟩ := h
  exact ⟨i, Nat.le_trans hle hk, hi⟩

theorem high_zero (h : x ≠ 0#w) : High 0 x := by
  by_contra hnot
  apply h
  apply BitVec.eq_of_getLsbD_eq
  intro i _
  rw [BitVec.getLsbD_zero]
  by_contra hi
  exact hnot ⟨i, Nat.zero_le i, by simpa using hi⟩

/-- A register below a power of two has no bit from there on. -/
theorem not_high_ofByte (hk : 8 ≤ k) (b : UInt8) : ¬ High k (ofByte b : BitVec w) := by
  rintro ⟨i, hi, hbit⟩
  unfold ofByte at hbit
  rw [BitVec.getLsbD_ofNat] at hbit
  have hlt : b.toNat < 2 ^ i :=
    Nat.lt_of_lt_of_le b.toNat_lt (Nat.pow_le_pow_right (by decide) (Nat.le_trans hk hi))
  rw [Nat.testBit_lt_two_pow hlt] at hbit
  simp at hbit

/-- A byte does not reach the bits from the eighth on. -/
theorem high_xor_ofByte (hk : 8 ≤ k) (h : High k x) (b : UInt8) : High k (x ^^^ ofByte b) := by
  obtain ⟨i, hi, hbit⟩ := h
  refine ⟨i, hi, ?_⟩
  have hb : (ofByte b : BitVec w).getLsbD i = false := by
    by_contra hset
    exact not_high_ofByte hk b ⟨i, hi, by simpa using hset⟩
  rw [BitVec.getLsbD_xor, hbit, hb]
  rfl
variable {bs cs : List UInt8} {n : ℕ}


section

variable {poly : BitVec w} (hpoly : poly.getLsbD (w - 1) = true)

include hpoly

/-- A one that drops out brings in the highest bit of the polynomial. -/
theorem high_shift_of_odd (hodd : x.getLsbD 0 = true) : High (w - 1) (shift poly x) := by
  refine ⟨w - 1, Nat.le_refl _, ?_⟩
  have hw : x.getLsbD (1 + (w - 1)) = false := BitVec.getLsbD_of_ge x _ (by omega)
  unfold shift
  rw [BitVec.getLsbD_xor, BitVec.getLsbD_ushiftRight, hw, hodd, if_pos rfl, hpoly]
  rfl

/-- The highest bit goes down one place, or the polynomial brings in a higher one. -/
theorem high_shift (h : High (k + 1) x) : High k (shift poly x) := by
  obtain ⟨i, hi, hbit⟩ := h
  have hw := BitVec.lt_of_getLsbD hbit
  cases hodd : x.getLsbD 0 with
  | true => exact (high_shift_of_odd hpoly hodd).mono (by omega)
  | false =>
    refine ⟨i - 1, by omega, ?_⟩
    unfold shift
    rw [hodd, BitVec.getLsbD_xor, BitVec.getLsbD_ushiftRight, show 1 + (i - 1) = i by omega, hbit]
    simp

theorem high_shifts (h : High (k + n) x) : High k (shifts poly n x) := by
  induction n generalizing x with
  | zero => exact h
  | succ n ih => exact ih (high_shift hpoly h)

theorem shift_ne_zero (h : x ≠ 0#w) : shift poly x ≠ 0#w := by
  obtain ⟨i, -, hbit⟩ := high_zero h
  cases i with
  | zero => exact (high_shift_of_odd hpoly hbit).ne_zero
  | succ i => exact (high_shift hpoly (k := i) ⟨i + 1, Nat.le_refl _, hbit⟩).ne_zero

theorem shifts_ne_zero (h : x ≠ 0#w) : shifts poly n x ≠ 0#w := by
  induction n generalizing x with
  | zero => exact h
  | succ n ih => exact ih (shift_ne_zero hpoly h)

/-- Bits below the `n`-th have dropped out after `n` places, so that the polynomial is in. -/
theorem high_shifts_of_low (hx : x ≠ 0#w) (hlow : ¬ High n x) : High (w - n) (shifts poly n x) := by
  induction n generalizing x with
  | zero => exact absurd (high_zero hx) hlow
  | succ n ih =>
    cases hodd : x.getLsbD 0 with
    | true =>
      by_cases hn : n + 1 ≤ w
      · have hhigh := high_shift_of_odd hpoly hodd
        rw [show w - 1 = w - (n + 1) + n by omega] at hhigh
        rw [shifts]
        exact high_shifts hpoly hhigh
      · rw [show w - (n + 1) = 0 by omega]
        exact high_zero (shifts_ne_zero hpoly hx)
    | false =>
      refine (ih (shift_ne_zero hpoly hx) ?_).mono (by omega)
      rintro ⟨i, hi, hbit⟩
      unfold shift at hbit
      rw [hodd, BitVec.getLsbD_xor, BitVec.getLsbD_ushiftRight] at hbit
      refine hlow ⟨1 + i, by omega, ?_⟩
      simpa using hbit

/-- Nothing but zero goes to zero, so that registers do not meet. -/
theorem shifts_injective {x : BitVec w} (h : shifts poly n x = shifts poly n y) : x = y := by
  by_contra hne
  have hxor : x ^^^ y ≠ 0#w := fun hzero => hne (xor_eq_zero.mp hzero)
  apply shifts_ne_zero hpoly (n := n) hxor
  rw [shifts_xor, xor_eq_zero, h]

/-- Registers that differ still do after the same message. -/
theorem run_register_injective {x : BitVec w} (bs : List UInt8)
    (h : run poly x bs = run poly y bs) : x = y := by
  induction bs generalizing x y with
  | nil => exact h
  | cons b bs ih =>
    have hfeed := shifts_injective hpoly (ih h)
    have hcancel := congrArg (· ^^^ ofByte b) hfeed
    simpa only [BitVec.xor_assoc, BitVec.xor_self, BitVec.xor_zero] using hcancel

/-- **Messages that start in different registers, of which one bit is far enough up, leave
    different registers.** -/
theorem run_ne_of_high {x : BitVec w} (hlength : bs.length = cs.length)
    (h : High (8 * bs.length) (x ^^^ y)) : run poly x bs ≠ run poly y cs := by
  induction bs generalizing x y cs with
  | nil =>
    obtain rfl := length_eq_zero_iff.mp hlength.symm
    exact fun heq => h.ne_zero (xor_eq_zero.mpr heq)
  | cons b bs ih =>
    obtain _ | ⟨c, cs⟩ := cs
    · cases hlength
    rw [length_cons, length_cons] at hlength
    rw [length_cons] at h
    refine ih (x := feed poly x b) (y := feed poly y c) (Nat.succ.inj hlength) ?_
    unfold feed
    rw [← shifts_xor]
    have hregroup : x ^^^ ofByte b ^^^ (y ^^^ ofByte c) = x ^^^ y ^^^ ofByte b ^^^ ofByte c := by
      ac_rfl
    rw [hregroup]
    refine high_shifts hpoly ?_
    rw [show 8 * bs.length + 8 = 8 * (bs.length + 1) by omega]
    exact high_xor_ofByte (by omega) (high_xor_ofByte (by omega) h b) c

end

theorem ofByte_injective (hw : 8 ≤ w) {b c : UInt8} (h : (ofByte b : BitVec w) = ofByte c) :
    b = c := by
  have hpow : 2 ^ 8 ≤ 2 ^ w := Nat.pow_le_pow_right (by decide) hw
  have hb := b.toNat_lt
  have hc := c.toNat_lt
  have hnat := congrArg BitVec.toNat h
  unfold ofByte at hnat
  rw [BitVec.toNat_ofNat, BitVec.toNat_ofNat, Nat.mod_eq_of_lt (by omega),
    Nat.mod_eq_of_lt (by omega)] at hnat
  exact UInt8.toNat_inj.mp hnat

/-- Different bytes leave registers that differ among the eight highest bits. -/
theorem high_feed {poly : BitVec w} (hpoly : poly.getLsbD (w - 1) = true) (hw : 8 ≤ w)
    (x : BitVec w) {b c : UInt8} (hne : b ≠ c) :
    High (w - 8) (feed poly x b ^^^ feed poly x c) := by
  unfold feed
  rw [← shifts_xor]
  have hcancel : x ^^^ ofByte b ^^^ (x ^^^ ofByte c) = ofByte b ^^^ ofByte c := by
    calc x ^^^ ofByte b ^^^ (x ^^^ ofByte c) = (x ^^^ x) ^^^ (ofByte b ^^^ ofByte c) := by ac_rfl
      _ = _ := by rw [BitVec.xor_self, BitVec.zero_xor]
  rw [hcancel]
  refine high_shifts_of_low hpoly (fun hzero => hne ?_) ?_
  · exact ofByte_injective hw (xor_eq_zero.mp hzero)
  · rintro ⟨i, hi, hbit⟩
    rw [BitVec.getLsbD_xor] at hbit
    have hout : ∀ d : UInt8, (ofByte d : BitVec w).getLsbD i = false := fun d => by
      by_contra hset
      exact not_high_ofByte (Nat.le_refl 8) d ⟨i, hi, by simpa using hset⟩
    rw [hout, hout] at hbit
    cases hbit

/-- **Messages of one length that differ in no more neighbouring bytes than the register has leave
    different registers.** -/
theorem run_injective {poly : BitVec w} (hpoly : poly.getLsbD (w - 1) = true)
    (front back : List UInt8) (hlength : bs.length = cs.length)
    (hshort : 8 * bs.length ≤ w)
    (h : run poly x (front ++ bs ++ back) = run poly x (front ++ cs ++ back)) : bs = cs := by
  unfold run at h
  rw [foldl_append, foldl_append, foldl_append, foldl_append] at h
  have hmid := run_register_injective hpoly back h
  revert hmid
  generalize front.foldl (feed poly) x = y
  intro hmid
  clear h
  induction bs generalizing y cs with
  | nil => exact (length_eq_zero_iff.mp hlength.symm).symm
  | cons b bs ih =>
    obtain _ | ⟨c, cs⟩ := cs
    · cases hlength
    rw [length_cons, length_cons] at hlength
    rw [length_cons] at hshort
    have hlength' : bs.length = cs.length := Nat.succ.inj hlength
    by_cases hbc : b = c
    · subst hbc
      rw [ih hlength' (by omega) (feed poly y b) hmid]
    -- the first byte that differs leaves a bit high enough for the bytes behind it
    have hhigh := high_feed hpoly (by omega) y hbc
    have hrest : High (8 * bs.length) (feed poly y b ^^^ feed poly y c) := hhigh.mono (by omega)
    have hne : run poly (feed poly y b) bs ≠ run poly (feed poly y c) cs :=
      run_ne_of_high hpoly hlength' hrest
    exact absurd hmid hne

/-- The same for messages that are equal but for a window. -/
theorem eq_of_run_eq {poly : BitVec w} (hpoly : poly.getLsbD (w - 1) = true)
    {q : ℕ} (hn : 8 * n ≤ w) (hlength : bs.length = cs.length)
    (hfront : bs.take q = cs.take q) (hback : bs.drop (q + n) = cs.drop (q + n))
    (h : run poly x bs = run poly x cs) : bs = cs := by
  have hcut : ∀ ds : List UInt8, ds.take q ++ (ds.drop q).take n ++ ds.drop (q + n) = ds := by
    intro ds
    rw [append_assoc, ← drop_drop, take_append_drop, take_append_drop]
  have hmid : (bs.drop q).take n = (cs.drop q).take n := by
    rw [← hcut bs, ← hcut cs, ← hfront, ← hback] at h
    refine run_injective hpoly (bs.take q) (bs.drop (q + n)) ?_ ?_ h
    · rw [length_take, length_take, length_drop, length_drop, hlength]
    · rw [length_take]
      omega
  rw [← hcut bs, ← hcut cs, hfront, hmid, hback]

end Crc
