import DreamingOS.Lib.Bytes

namespace Bytes

open List

/-!
# Big-endian fields taken off the front of a byte string

* `toBE w n`, `ofBE bs` — the `w` bytes of `n`, most significant first, and the number they hold;
* `takeBytes w bs`, `takeBE w bs` — the next `w` bytes, or the number in them, with what is behind;
* `takeBytes_append`, `takeBE_append` — reading what was written;
* `testBit_ofBE`, `compare_ofBE` — the bits of the number are those of the bytes in order, and
  strings of one length compare as their numbers do;
* `takeBytes_eq_some`, `takeBE_eq_some` — what is read is what the bytes begin with, so that
  writing it again gives them back.
-/

/-- The `w` big-endian bytes of `n`; higher bits are dropped. -/
def toBE (w n : ℕ) : List UInt8 := (toLE w n).reverse

/-- The number with the given big-endian bytes. -/
def ofBE (bs : List UInt8) : ℕ := ofLE bs.reverse

@[simp] theorem length_toBE (w n : ℕ) : (toBE w n).length = w := by
  rw [toBE, length_reverse, length_toLE]

theorem ofBE_toBE (w n : ℕ) : ofBE (toBE w n) = n % 256 ^ w := by
  rw [ofBE, toBE, reverse_reverse, ofLE_toLE]

theorem ofBE_toBE_of_lt {w n : ℕ} (h : n < 256 ^ w) : ofBE (toBE w n) = n := by
  rw [ofBE_toBE, Nat.mod_eq_of_lt h]

theorem toLE_ofLE (bs : List UInt8) : toLE bs.length (ofLE bs) = bs := by
  induction bs with
  | nil => rfl
  | cons b bs ih =>
    have hb : b.toNat < 256 := b.toNat_lt
    have hlow : (b.toNat + 256 * ofLE bs) % 256 = b.toNat := by omega
    have hhigh : (b.toNat + 256 * ofLE bs) / 256 = ofLE bs := by omega
    rw [length_cons, ofLE, toLE, hlow, hhigh, ih, UInt8.ofNat_toNat]

theorem toBE_ofBE (bs : List UInt8) : toBE bs.length (ofBE bs) = bs := by
  rw [toBE, ofBE, ← length_reverse, toLE_ofLE, reverse_reverse]

theorem ofBE_lt (bs : List UInt8) : ofBE bs < 256 ^ bs.length := by
  rw [ofBE, ← length_reverse]
  exact ofLE_lt _

theorem ofLE_append (as bs : List UInt8) :
    ofLE (as ++ bs) = ofLE as + 256 ^ as.length * ofLE bs := by
  induction as with
  | nil => rw [nil_append, ofLE, length_nil, Nat.pow_zero, Nat.one_mul, Nat.zero_add]
  | cons a as ih =>
    rw [cons_append, ofLE, ih, ofLE, length_cons, Nat.pow_succ']
    ring

theorem ofBE_append (as bs : List UInt8) :
    ofBE (as ++ bs) = ofBE as * 256 ^ bs.length + ofBE bs := by
  rw [ofBE, reverse_append, ofLE_append, length_reverse, ofBE, ofBE]
  ring

theorem ofBE_cons (b : UInt8) (bs : List UInt8) :
    ofBE (b :: bs) = b.toNat * 256 ^ bs.length + ofBE bs := by
  rw [← singleton_append, ofBE_append]
  rfl

/-- The bits of the bytes, the highest of each byte first, are those of the number. -/
theorem testBit_ofBE (bs : List UInt8) {i : ℕ} (hi : i < 8 * bs.length) :
    (ofBE bs).testBit (8 * bs.length - 1 - i) = (bs.getD (i / 8) 0).toNat.testBit (7 - i % 8) := by
  induction bs generalizing i with
  | nil => simp at hi
  | cons b bs ih =>
    have hlow : ofBE bs < 2 ^ (8 * bs.length) := by
      rw [Nat.pow_mul]
      exact ofBE_lt bs
    have hsum : ofBE (b :: bs) = 2 ^ (8 * bs.length) * b.toNat + ofBE bs := by
      rw [ofBE_cons, Nat.pow_mul, Nat.mul_comm]
    rw [hsum, Nat.testBit_two_pow_mul_add _ hlow]
    rw [length_cons] at hi ⊢
    by_cases hfirst : i < 8
    · rw [if_neg (by omega), Nat.div_eq_of_lt hfirst, Nat.mod_eq_of_lt hfirst]
      have hindex : 8 * (bs.length + 1) - 1 - i - 8 * bs.length = 7 - i := by omega
      rw [hindex]
      rfl
    · obtain ⟨j, rfl⟩ : ∃ j, i = j + 8 := ⟨i - 8, by omega⟩
      rw [if_pos (by omega), Nat.add_div_right _ (by norm_num), Nat.add_mod_right]
      have hindex : 8 * (bs.length + 1) - 1 - (j + 8) = 8 * bs.length - 1 - j := by omega
      rw [hindex, ih (by omega)]
      rfl

/-- Comparing two strings of one length byte by byte is comparing their numbers. -/
theorem compare_ofBE {as bs : List UInt8} (h : as.length = bs.length) :
    compare as bs = compare (ofBE as) (ofBE bs) := by
  induction as generalizing bs with
  | nil =>
    rw [length_nil] at h
    rw [eq_nil_of_length_eq_zero h.symm]
    rfl
  | cons a as ih =>
    cases bs with
    | nil => cases h
    | cons b bs =>
      have hlength : as.length = bs.length := Nat.succ.inj h
      have has := ofBE_lt as
      have hbs := ofBE_lt bs
      rw [← hlength] at hbs
      have hbyte : compare a b = compare a.toNat b.toNat := by
        simp [compare, compareOfLessAndEq, UInt8.lt_iff_toNat_lt, ← UInt8.toNat_inj]
      rw [List.compare_cons_cons, ih hlength, ofBE_cons, ofBE_cons, ← hlength, hbyte]
      -- the first bytes decide unless they are equal
      rcases Nat.lt_trichotomy a.toNat b.toNat with hlt | heq | hgt
      · have hstep := Nat.mul_le_mul_right (256 ^ as.length) (Nat.succ_le_of_lt hlt)
        rw [Nat.succ_mul] at hstep
        have hwhole : compare (a.toNat * 256 ^ as.length + ofBE as)
            (b.toNat * 256 ^ as.length + ofBE bs) = .lt := Nat.compare_eq_lt.mpr (by omega)
        rw [hwhole, Nat.compare_eq_lt.mpr hlt]
        rfl
      · rw [heq, Nat.compare_eq_eq.mpr rfl, Ordering.eq_then]
        rcases Nat.lt_trichotomy (ofBE as) (ofBE bs) with hlt | heq' | hgt
        · rw [Nat.compare_eq_lt.mpr hlt, Nat.compare_eq_lt.mpr (by omega)]
        · rw [heq', Nat.compare_eq_eq.mpr rfl, Nat.compare_eq_eq.mpr rfl]
        · rw [Nat.compare_eq_gt.mpr hgt, Nat.compare_eq_gt.mpr (by omega)]
      · have hstep := Nat.mul_le_mul_right (256 ^ as.length) (Nat.succ_le_of_lt hgt)
        rw [Nat.succ_mul] at hstep
        have hwhole : compare (a.toNat * 256 ^ as.length + ofBE as)
            (b.toNat * 256 ^ as.length + ofBE bs) = .gt := Nat.compare_eq_gt.mpr (by omega)
        rw [hwhole, Nat.compare_eq_gt.mpr hgt]
        rfl

/-- The next `w` bytes. -/
def takeBytes (w : ℕ) (bs : List UInt8) : Option (List UInt8 × List UInt8) :=
  if w ≤ bs.length then some (bs.take w, bs.drop w) else none

/-- The number in the next `w` bytes. -/
def takeBE (w : ℕ) (bs : List UInt8) : Option (ℕ × List UInt8) :=
  (takeBytes w bs).map fun (part, rest) => (ofBE part, rest)

theorem takeBytes_append {part : List UInt8} {w : ℕ} (h : part.length = w) (rest : List UInt8) :
    takeBytes w (part ++ rest) = some (part, rest) := by
  have hle : w ≤ (part ++ rest).length := by
    rw [length_append]
    omega
  rw [takeBytes, if_pos hle, take_left' h, drop_left' h]

@[simp] theorem takeBE_append (w n : ℕ) (rest : List UInt8) :
    takeBE w (toBE w n ++ rest) = some (n % 256 ^ w, rest) := by
  rw [takeBE, takeBytes_append (length_toBE w n), ← ofBE_toBE]
  rfl

theorem takeBE_append_of_lt {w n : ℕ} (h : n < 256 ^ w) (rest : List UInt8) :
    takeBE w (toBE w n ++ rest) = some (n, rest) := by
  rw [takeBE_append, Nat.mod_eq_of_lt h]

theorem takeBytes_eq_some {w : ℕ} {bs part rest : List UInt8} :
    takeBytes w bs = some (part, rest) ↔ bs = part ++ rest ∧ part.length = w := by
  constructor
  · intro h
    unfold takeBytes at h
    split at h
    · rename_i hle
      obtain ⟨rfl, rfl⟩ := Prod.mk.inj (Option.some.inj h)
      exact ⟨(take_append_drop w bs).symm, length_take_of_le hle⟩
    · cases h
  · rintro ⟨rfl, hlength⟩
    exact takeBytes_append hlength rest

theorem takeBE_eq_some {w n : ℕ} {bs rest : List UInt8} :
    takeBE w bs = some (n, rest) ↔ bs = toBE w n ++ rest ∧ n < 256 ^ w := by
  constructor
  · intro h
    obtain ⟨⟨part, rest'⟩, hpart, heq⟩ := Option.map_eq_some_iff.mp h
    obtain ⟨rfl, rfl⟩ := Prod.mk.inj heq
    obtain ⟨rfl, rfl⟩ := takeBytes_eq_some.mp hpart
    exact ⟨by rw [toBE_ofBE], ofBE_lt part⟩
  · rintro ⟨rfl, hlt⟩
    exact takeBE_append_of_lt hlt rest

end Bytes
