import Mathlib.Tactic.Ring
import Mathlib.Tactic.NormNum
import Mathlib.Data.List.Basic

namespace Bytes

open List

/-!
# Fixed-width integers in byte strings

Little-endian fields of a packed record, read at an offset of a byte string.

* `toLE w n` — the `w` bytes of `n`, least significant first;
* `ofLE bs` — the number with the little-endian bytes `bs`;
* `fieldLE bs off w` — the `w`-byte field at offset `off`, missing bytes read as absent;
* `fieldLE_cons` / `fieldLE_skip` — reading a record built as a concatenation: a field at offset
  zero is the first one written, and a field behind a part of known length is read from the rest.
-/

/-- The `w` little-endian bytes of `n`; higher bits are dropped. -/
def toLE : ℕ → ℕ → List UInt8
  | 0, _ => []
  | w + 1, n => UInt8.ofNat (n % 256) :: toLE w (n / 256)

/-- The number with the given little-endian bytes. -/
def ofLE : List UInt8 → ℕ
  | [] => 0
  | b :: bs => b.toNat + 256 * ofLE bs

/-- The little-endian field of width `w` at offset `off`. -/
def fieldLE (bs : List UInt8) (off w : ℕ) : ℕ := ofLE ((bs.drop off).take w)

/-- The bytes of the field of width `w` at offset `off`. -/
def fieldBytes (bs : List UInt8) (off w : ℕ) : List UInt8 := (bs.drop off).take w

@[simp] theorem length_toLE (w n : ℕ) : (toLE w n).length = w := by
  induction w generalizing n with
  | zero => rfl
  | succ w ih => simp [toLE, ih]

theorem ofLE_toLE (w n : ℕ) : ofLE (toLE w n) = n % 256 ^ w := by
  induction w generalizing n with
  | zero => simp [toLE, ofLE, Nat.mod_one]
  | succ w ih =>
    have hbyte : (UInt8.ofNat (n % 256)).toNat = n % 256 := by
      rw [UInt8.toNat_ofNat']
      exact Nat.mod_eq_of_lt (by simpa using Nat.mod_lt n (by norm_num))
    rw [toLE, ofLE, ih, hbyte, pow_succ', Nat.mod_mul]

theorem ofLE_lt (bs : List UInt8) : ofLE bs < 256 ^ bs.length := by
  induction bs with
  | nil => simp [ofLE]
  | cons b bs ih =>
    have hb : b.toNat < 256 := b.toNat_lt
    rw [ofLE, length_cons, pow_succ]
    omega

/-- A field of width `w` is below `256 ^ w`. -/
theorem fieldLE_lt (bs : List UInt8) (off w : ℕ) : fieldLE bs off w < 256 ^ w := by
  refine lt_of_lt_of_le (ofLE_lt _) (Nat.pow_le_pow_right (by norm_num) ?_)
  exact length_take_le _ _

/-- The first field of a record. -/
theorem fieldLE_cons (w n : ℕ) (rest : List UInt8) :
    fieldLE (toLE w n ++ rest) 0 w = n % 256 ^ w := by
  have htake : (toLE w n ++ rest).take w = toLE w n := take_left' (length_toLE w n)
  rw [fieldLE, drop_zero, htake, ofLE_toLE]

variable {part : List UInt8}

/-- A field behind a part of length `k` is read from the rest of the record. -/
theorem fieldLE_skip {k : ℕ} (hk : part.length = k) (rest : List UInt8)
    (off w : ℕ) : fieldLE (part ++ rest) (k + off) w = fieldLE rest off w := by
  rw [fieldLE, fieldLE, ← hk, drop_length_add_append]

theorem fieldBytes_skip {k : ℕ} (hk : part.length = k) (rest : List UInt8)
    (off w : ℕ) : fieldBytes (part ++ rest) (k + off) w = fieldBytes rest off w := by
  rw [fieldBytes, fieldBytes, ← hk, drop_length_add_append]

/-- A byte-string field at the front of the rest of the record. -/
theorem fieldBytes_append {w : ℕ} (hw : part.length = w)
    (rest : List UInt8) : fieldBytes (part ++ rest) 0 w = part := by
  rw [fieldBytes, drop_zero, take_left' hw]

/-- The first field of a record, when the number fits. -/
theorem fieldLE_front {w n : ℕ} (h : n < 256 ^ w) (rest : List UInt8) :
    fieldLE (toLE w n ++ rest) 0 w = n := by
  rw [fieldLE_cons, Nat.mod_eq_of_lt h]

/-- A field behind the first part of a record. -/
theorem fieldLE_behind {off : ℕ} (h : part.length ≤ off) (rest : List UInt8) (w : ℕ) :
    fieldLE (part ++ rest) off w = fieldLE rest (off - part.length) w := by
  rw [← fieldLE_skip rfl rest (off - part.length) w, Nat.add_sub_cancel' h]

theorem fieldBytes_behind {off : ℕ} (h : part.length ≤ off) (rest : List UInt8) (w : ℕ) :
    fieldBytes (part ++ rest) off w = fieldBytes rest (off - part.length) w := by
  rw [← fieldBytes_skip rfl rest (off - part.length) w, Nat.add_sub_cancel' h]

/-- The last byte-string field of a record. -/
theorem fieldBytes_all {w : ℕ} (hw : part.length = w) : fieldBytes part 0 w = part := by
  rw [fieldBytes, drop_zero, take_of_length_le hw.le]

/-- The last field of a record. -/
theorem fieldLE_all {w n : ℕ} (h : n < 256 ^ w) : fieldLE (toLE w n) 0 w = n := by
  rw [← append_nil (toLE w n), fieldLE_front h]

end Bytes
