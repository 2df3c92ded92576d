import DreamingOS.Lib.BigEndian
import DreamingOS.Lib.Cidr
import Mathlib.Data.Nat.Bitwise

namespace DreamingOS.Geoip

open Bytes List

/-!
# Country prefixes — their addresses bit by bit and as numbers

* `Prefix`, `setAddressBit`, `getAddressBit`, `comparePrefix`, `canMerge`: the collected prefixes and
  the functions that order and join them.
* `leading n address`: the first `n` bits as a number; two addresses have the same ones when they
  agree bit by bit (`leading_eq_iff`).
* `Collected p`: the bits behind the prefix are clear, as in every prefix the search tree gives.
* `toBlock`: the prefix as a block of numbers; `covers_toBlock` and `canMerge_iff` say what covering
  and joining prefixes are there.
-/

/-- `uint8_t address[16]`. -/
abbrev Address := {bytes : List UInt8 // bytes.length = 16}

/-- The address of sixteen zero bytes. -/
def Address.zero : Address := ⟨List.replicate 16 0, length_replicate⟩

/-- The position of an address bit in its byte. -/
def bitMask (bit : ℕ) : UInt8 := 1 <<< UInt8.ofNat (7 - bit % 8)

def setAddressBit (address : Address) (bit : ℕ) (value : Bool) : Address :=
  ⟨address.1.modify (bit / 8) fun byte =>
      if value then byte ||| bitMask bit else byte &&& ~~~ bitMask bit,
    (length_modify _ _ _).trans address.2⟩

def getAddressBit (address : Address) (bit : ℕ) : Bool :=
  (address.1.getD (bit / 8) 0 >>> UInt8.ofNat (7 - bit % 8)) &&& 1 != 0

/-- `struct dwrt_geoip_prefix`; the country is the string before its NUL. -/
structure Prefix where
  address : Address
  (family prefixLen : ℕ)
  isoCode : List UInt8

instance : Inhabited Prefix := ⟨⟨Address.zero, 0, 0, []⟩⟩

/-- The order of the list: by country, family, address and length, each only where the ones before
    it are equal. -/
def comparePrefix (a b : Prefix) : Ordering :=
  let bytes := if a.family = 4 then 4 else 16
  (compare a.isoCode b.isoCode).then <|
    (compare a.family b.family).then <|
      (compare (a.address.1.take bytes) (b.address.1.take bytes)).then <|
        compare a.prefixLen b.prefixLen

/-- The high `bits` bits of a byte. -/
def partialMask (bits : ℕ) : UInt8 := UInt8.ofNat (0xff <<< (8 - bits))

def canMerge (a b : Prefix) : Bool :=
  if a.family ≠ b.family ∨ a.prefixLen = 0 ∨ a.prefixLen ≠ b.prefixLen ∨ a.isoCode ≠ b.isoCode then
    false
  else
    let parentBits := a.prefixLen - 1
    let fullBytes := parentBits / 8
    let partialBits := parentBits % 8
    if fullBytes ≠ 0 ∧ a.address.1.take fullBytes ≠ b.address.1.take fullBytes then false
    else if partialBits ≠ 0 ∧ a.address.1.getD fullBytes 0 &&& partialMask partialBits ≠
        b.address.1.getD fullBytes 0 &&& partialMask partialBits then false
    else !getAddressBit a.address parentBits && getAddressBit b.address parentBits

/-- What becomes of the lower of two joined prefixes. -/
def joined (a : Prefix) : Prefix :=
  { a with
    prefixLen := a.prefixLen - 1
    address := setAddressBit a.address (a.prefixLen - 1) false }

/-- The bits of an address of the family. -/
def width (family : ℕ) : ℕ := if family = 4 then 32 else 128

/-- An address of the prefix's country and family that begins with the bits of the prefix. -/
def Prefix.Covers (p : Prefix) (isoCode : List UInt8) (family : ℕ) (address : Address) : Prop :=
  p.isoCode = isoCode ∧ p.family = family ∧
    ∀ bit < p.prefixLen, getAddressBit address bit = getAddressBit p.address bit

/-- Some address of the family begins with the bits of both, whatever their countries. -/
def Prefix.Overlap (p q : Prefix) : Prop :=
  p.family = q.family ∧ ∃ address,
    (∀ bit < p.prefixLen, getAddressBit address bit = getAddressBit p.address bit) ∧
      ∀ bit < q.prefixLen, getAddressBit address bit = getAddressBit q.address bit

/-- What the search tree gives: a family with its length, and no bit set behind the prefix. -/
structure Collected (p : Prefix) : Prop where
  family_eq : p.family = 4 ∨ p.family = 6
  prefixLen_le : p.prefixLen ≤ width p.family
  clear : ∀ bit, p.prefixLen ≤ bit → bit < 128 → getAddressBit p.address bit = false

/-! ### The bits of a byte -/

theorem width_le (family : ℕ) : width family ≤ 128 := by
  unfold width
  split <;> omega

theorem toNat_shiftRight_and_one (byte : UInt8) {k : ℕ} (hk : k < 8) :
    ((byte >>> UInt8.ofNat k) &&& 1 != 0) = byte.toNat.testBit k := by
  have hshift : (UInt8.ofNat k).toNat = k := by rw [UInt8.toNat_ofNat', Nat.mod_eq_of_lt (by omega)]
  rw [Bool.eq_iff_iff, bne_iff_ne, ← UInt8.toNat_inj.ne, UInt8.toNat_and, UInt8.toNat_shiftRight,
    hshift, Nat.mod_eq_of_lt hk, Nat.testBit, bne_iff_ne, Nat.and_comm]
  rfl

theorem getAddressBit_eq_testBit (address : Address) (bit : ℕ) :
    getAddressBit address bit = (address.1.getD (bit / 8) 0).toNat.testBit (7 - bit % 8) :=
  toNat_shiftRight_and_one _ (by omega)

/-- Of one byte and of one bit of it: the mask touches that bit only. -/
theorem testBit_masked (byte : UInt8) (bit : ℕ) (value : Bool) {k : ℕ} (hk : k < 8) :
    (if value then byte ||| bitMask bit else byte &&& ~~~ bitMask bit).toNat.testBit k =
      if k = 7 - bit % 8 then value else byte.toNat.testBit k := by
  have hmask : (bitMask bit).toNat = 2 ^ (7 - bit % 8) := by
    have hshift : (UInt8.ofNat (7 - bit % 8)).toNat = 7 - bit % 8 := by
      rw [UInt8.toNat_ofNat', Nat.mod_eq_of_lt (by omega)]
    have hpow : 2 ^ (7 - bit % 8) < 2 ^ 8 := Nat.pow_lt_pow_right (by omega) (by omega)
    rw [bitMask, UInt8.toNat_shiftLeft, hshift, Nat.mod_eq_of_lt (by omega : 7 - bit % 8 < 8),
      UInt8.toNat_one, Nat.one_shiftLeft, Nat.mod_eq_of_lt hpow]
  have hflip : (~~~ bitMask bit).toNat.testBit k = !decide (7 - bit % 8 = k) := by
    rw [← UInt8.toNat_toBitVec, UInt8.toBitVec_not, BitVec.testBit_toNat, BitVec.getLsbD_not,
      ← BitVec.testBit_toNat, UInt8.toNat_toBitVec, hmask, Nat.testBit_two_pow]
    simp [hk]
  cases value with
  | true =>
    rw [if_pos rfl, UInt8.toNat_or, Nat.testBit_or, hmask, Nat.testBit_two_pow]
    by_cases h : k = 7 - bit % 8
    · simp [h]
    · simp [h, Ne.symm h]
  | false =>
    rw [if_neg Bool.false_ne_true, UInt8.toNat_and, Nat.testBit_and, hflip]
    by_cases h : k = 7 - bit % 8
    · simp [h]
    · simp [h, Ne.symm h]

/-- **One bit is written, all others are kept.** -/
theorem getAddressBit_setAddressBit (address : Address) {i j : ℕ} (hi : i < 128) (value : Bool) :
    getAddressBit (setAddressBit address i value) j =
      if j = i then value else getAddressBit address j := by
  have hlen : i / 8 < address.1.length := by
    rw [address.2]
    omega
  rw [getAddressBit_eq_testBit, getAddressBit_eq_testBit, setAddressBit]
  by_cases hbyte : j / 8 = i / 8
  · rw [hbyte, getD_eq_getElem?_getD, getD_eq_getElem?_getD, getElem?_modify,
      getElem?_eq_getElem hlen]
    simp only [if_true, Option.map_eq_map, Option.map_some, Option.getD_some]
    rw [testBit_masked _ _ _ (by omega)]
    by_cases h : j = i
    · rw [if_pos h, if_pos (by rw [h])]
    · rw [if_neg h, if_neg (by omega)]
  · rw [if_neg (by rintro rfl; exact hbyte rfl), getD_eq_getElem?_getD,
      getD_eq_getElem?_getD, getElem?_modify]
    simp only [Ne.symm hbyte, if_false, Option.map_eq_map, Option.map_id']

/-- Two bytes are the same under the mask when their masked bits are. -/
theorem and_partialMask_eq_iff {a b : UInt8} {r : ℕ} (hr : r < 8) :
    a &&& partialMask r = b &&& partialMask r ↔
      ∀ i < r, a.toNat.testBit (7 - i) = b.toNat.testBit (7 - i) := by
  have hmask : ∀ k < 8, (partialMask r).toNat.testBit k = decide (8 - r ≤ k) := by
    have hall : ∀ r < 8, ∀ k < 8, (partialMask r).toNat.testBit k = decide (8 - r ≤ k) := by
      decide +kernel
    exact hall r hr
  constructor
  · intro heq i hi
    have hbit := congrArg (fun byte : UInt8 => byte.toNat.testBit (7 - i)) heq
    simp only [UInt8.toNat_and, Nat.testBit_and, hmask (7 - i) (by omega)] at hbit
    rw [decide_eq_true (by omega), Bool.and_true, Bool.and_true] at hbit
    exact hbit
  · intro hbits
    rw [← UInt8.toNat_inj, UInt8.toNat_and, UInt8.toNat_and]
    refine Nat.eq_of_testBit_eq fun k => ?_
    rw [Nat.testBit_and, Nat.testBit_and]
    by_cases hk : k < 8
    · rw [hmask k hk]
      by_cases hin : 8 - r ≤ k
      · obtain ⟨i, hi, rfl⟩ : ∃ i < r, k = 7 - i := ⟨7 - k, by omega, by omega⟩
        rw [hbits i hi]
      · rw [decide_eq_false hin, Bool.and_false, Bool.and_false]
    · have hhigh : ∀ byte : UInt8, byte.toNat.testBit k = false := fun byte =>
        Nat.testBit_lt_two_pow (Nat.lt_of_lt_of_le byte.toNat_lt
          (Nat.pow_le_pow_right (by omega) (Nat.le_of_not_lt hk)))
      rw [hhigh a, hhigh b]

/-! ### The first bits of an address as a number -/

/-- The first `n` bits of an address as a number. -/
def leading (n : ℕ) (address : Address) : ℕ := ofBE address.1 >>> (128 - n)

variable {n : ℕ}

theorem leading_lt (hn : n ≤ 128) (address : Address) : leading n address < 2 ^ n := by
  have hlt := ofBE_lt address.1
  have hpow : (256 : ℕ) ^ 16 = 2 ^ n * 2 ^ (128 - n) := by
    rw [← Nat.pow_add, Nat.add_sub_cancel' hn]
    norm_num
  rw [address.2, hpow] at hlt
  rw [leading, Nat.shiftRight_eq_div_pow]
  exact Nat.div_lt_of_lt_mul (by rwa [Nat.mul_comm] at hlt)

theorem testBit_leading {n i : ℕ} (hn : n ≤ 128) (hi : i < n) (address : Address) :
    (leading n address).testBit (n - 1 - i) = getAddressBit address i := by
  have hindex : 128 - n + (n - 1 - i) = 8 * address.1.length - 1 - i := by
    rw [address.2]
    omega
  rw [leading, Nat.testBit_shiftRight, hindex, testBit_ofBE _ (by rw [address.2]; omega),
    getAddressBit_eq_testBit]

/-- **Two addresses begin with the same number when they begin with the same bits.** -/
theorem leading_eq_iff (hn : n ≤ 128) {a b : Address} :
    leading n a = leading n b ↔ ∀ i < n, getAddressBit a i = getAddressBit b i := by
  constructor
  · intro heq i hi
    rw [← testBit_leading hn hi, heq, testBit_leading hn hi]
  · intro hbits
    refine Nat.eq_of_testBit_eq fun k => ?_
    by_cases hk : k < n
    · obtain ⟨i, hi, rfl⟩ : ∃ i < n, k = n - 1 - i := ⟨n - 1 - k, by omega, by omega⟩
      rw [testBit_leading hn hi, testBit_leading hn hi, hbits i hi]
    have hhigh : ∀ c, (leading n c).testBit k = false := fun c =>
      Nat.testBit_lt_two_pow (Nat.lt_of_lt_of_le (leading_lt hn c)
        (Nat.pow_le_pow_right (by omega) (Nat.le_of_not_lt hk)))
    rw [hhigh a, hhigh b]

/-- An address is its bits. -/
theorem address_ext {a b : Address} (h : ∀ i < 128, getAddressBit a i = getAddressBit b i) :
    a = b := by
  have hnumber : ofBE a.1 = ofBE b.1 := (leading_eq_iff (Nat.le_refl 128)).mpr h
  have ha := toBE_ofBE a.1
  have hb := toBE_ofBE b.1
  rw [a.2, hnumber] at ha
  rw [b.2] at hb
  exact Subtype.ext (ha.symm.trans hb)

/-- Fewer leading bits are the quotient of more. -/
theorem leading_div {n m : ℕ} (hnm : n ≤ m) (hm : m ≤ 128) (address : Address) :
    leading m address / 2 ^ (m - n) = leading n address := by
  rw [leading, leading, ← Nat.shiftRight_eq_div_pow, ← Nat.shiftRight_add]
  congr 1
  omega

theorem leading_succ (hn : n < 128) (address : Address) :
    leading (n + 1) address = 2 * leading n address + (getAddressBit address n).toNat := by
  have hdiv : leading (n + 1) address / 2 = leading n address := by
    have hstep := leading_div (Nat.le_add_right n 1) hn address
    rwa [Nat.add_sub_cancel_left, Nat.pow_one] at hstep
  have hbit : getAddressBit address n = decide (leading (n + 1) address % 2 = 1) := by
    have hlast := testBit_leading hn (Nat.lt_succ_self n) address
    rw [Nat.succ_sub_one, Nat.sub_self, Nat.testBit_zero] at hlast
    exact hlast.symm
  rw [hbit, ← hdiv]
  rcases Nat.mod_two_eq_zero_or_one (leading (n + 1) address) with hmod | hmod
  · rw [hmod]
    simp only [zero_ne_one, decide_false, Bool.toNat_false]
    omega
  · rw [hmod]
    simp only [decide_true, Bool.toNat_true]
    omega

/-- The bits behind the first `n` of `m` are clear: they add nothing to the number. -/
theorem leading_of_clear {n m : ℕ} (hnm : n ≤ m) (hm : m ≤ 128) {address : Address}
    (hclear : ∀ bit, n ≤ bit → bit < m → getAddressBit address bit = false) :
    leading m address = leading n address * 2 ^ (m - n) := by
  induction m, hnm using Nat.le_induction with
  | base => rw [Nat.sub_self, Nat.pow_zero, Nat.mul_one]
  | succ m hnm ih =>
    rw [leading_succ (by omega), hclear m hnm (Nat.lt_succ_self m),
      ih (by omega) fun bit hle hlt => hclear bit hle (by omega), Nat.succ_sub hnm, Nat.pow_succ]
    simp only [Bool.toNat_false]
    ring

/-- The first bytes of an address as a number. -/
theorem ofBE_take {q : ℕ} (hq : q ≤ 16) (address : Address) :
    ofBE (address.1.take q) = leading (8 * q) address := by
  have hdrop : (address.1.drop q).length = 16 - q := by rw [length_drop, address.2]
  have hlow := ofBE_lt (address.1.drop q)
  have hpow : (256 : ℕ) ^ (16 - q) = 2 ^ (128 - 8 * q) := by
    rw [show (256 : ℕ) = 2 ^ 8 from rfl, ← Nat.pow_mul]
    congr 1
    omega
  have hsplit := ofBE_append (address.1.take q) (address.1.drop q)
  rw [take_append_drop, hdrop] at hsplit
  rw [hdrop] at hlow
  rw [leading, Nat.shiftRight_eq_div_pow, ← hpow, hsplit, Nat.add_comm,
    Nat.add_mul_div_right _ _ (Nat.pow_pos (by omega)), Nat.div_eq_of_lt hlow, Nat.zero_add]

/-! ### Prefixes as blocks -/

/-- Countries and families in the order of the list. -/
def KeyLt (k l : List UInt8 × ℕ) : Prop := (compare k.1 l.1).then (compare k.2 l.2) = .lt

instance : IsStrictOrder (List UInt8 × ℕ) KeyLt where
  irrefl k h := by
    have hiso : compare k.1 k.1 = .eq := Std.ReflCmp.compare_self
    have hfamily : compare k.2 k.2 = .eq := Std.ReflCmp.compare_self
    rw [KeyLt, hiso, hfamily] at h
    cases h
  trans k l m hkl hlm := by
    rw [KeyLt, Ordering.then_eq_lt] at hkl hlm ⊢
    rcases hkl with hkl | ⟨hkl, hkl'⟩ <;> rcases hlm with hlm | ⟨hlm, hlm'⟩
    · exact .inl (Std.TransCmp.lt_trans hkl hlm)
    · exact .inl (Std.LawfulEqCmp.eq_of_compare hlm ▸ hkl)
    · exact .inl (Std.LawfulEqCmp.eq_of_compare hkl ▸ hlm)
    · exact .inr ⟨Std.TransCmp.eq_trans hkl hlm, Std.TransCmp.lt_trans hkl' hlm'⟩

def toBlock (p : Prefix) : Cidr.Block (List UInt8 × ℕ) :=
  ⟨(p.isoCode, p.family), leading p.prefixLen p.address, width p.family - p.prefixLen⟩

/-- The number an address of the family is for the blocks. -/
def value (family : ℕ) (address : Address) : ℕ := leading (width family) address

variable {p : Prefix}

theorem value_div (hp : Collected p) (address : Address) :
    value p.family address / 2 ^ (toBlock p).bits = leading p.prefixLen address :=
  leading_div hp.prefixLen_le (width_le _) _

/-- **A prefix covers an address when its block covers the number of the address.** -/
theorem covers_toBlock (hp : Collected p) {isoCode : List UInt8} {family : ℕ} {address : Address} :
    (toBlock p).Covers (isoCode, family) (value family address) ↔
      p.Covers isoCode family address := by
  have hle : p.prefixLen ≤ 128 := hp.prefixLen_le.trans (width_le _)
  constructor
  · rintro ⟨hkey, hhead⟩
    obtain ⟨hiso, hfamily⟩ := Prod.mk.inj hkey
    refine ⟨hiso, hfamily, (leading_eq_iff hle).mp ?_⟩
    rw [← value_div hp, hfamily]
    exact hhead
  · rintro ⟨rfl, rfl, hbits⟩
    exact ⟨rfl, (value_div hp _).trans ((leading_eq_iff hle).mpr hbits)⟩

/-- The first number of the block is the one of the prefix's own address. -/
theorem start_toBlock (hp : Collected p) : (toBlock p).start = value p.family p.address :=
  (leading_of_clear hp.prefixLen_le (width_le _) fun bit hle hlt =>
    hp.clear bit hle (Nat.lt_of_lt_of_le hlt (width_le _))).symm

/-- What numbers the blocks of a list cover is what addresses the prefixes cover: beyond the
    addresses of its family no block reaches. -/
theorem exists_address (hp : Collected p) {k : List UInt8 × ℕ} {a : ℕ}
    (h : (toBlock p).Covers k a) : ∃ address, value k.2 address = a := by
  obtain ⟨rfl, hhead⟩ := h
  have hpow : 2 ^ width p.family * 2 ^ (128 - width p.family) = 256 ^ 16 := by
    rw [← Nat.pow_add, Nat.add_sub_cancel' (width_le _)]
    norm_num
  have ha : a < 2 ^ width p.family := by
    have hlt := leading_lt (hp.prefixLen_le.trans (width_le _)) p.address
    have hsplit : 2 ^ width p.family = 2 ^ p.prefixLen * 2 ^ (toBlock p).bits := by
      rw [← Nat.pow_add]
      congr 1
      exact (Nat.add_sub_cancel' hp.prefixLen_le).symm
    rw [hsplit, ← Nat.div_lt_iff_lt_mul (Nat.two_pow_pos _), hhead]
    exact hlt
  refine ⟨⟨toBE 16 (a * 2 ^ (128 - width p.family)), length_toBE _ _⟩, ?_⟩
  show ofBE (toBE 16 _) >>> (128 - width p.family) = a
  rw [ofBE_toBE_of_lt, Nat.shiftRight_eq_div_pow, Nat.mul_div_cancel _ (Nat.two_pow_pos _)]
  rw [← hpow]
  exact Nat.mul_lt_mul_of_pos_right ha (Nat.two_pow_pos _)

/-! ### Joining and ordering -/

/-- The comparison of the bytes and of the rest below them is one of the leading bits. -/
theorem sameLeading_iff (hn : n < 128) (a b : Address) :
    ((n / 8 ≠ 0 → a.1.take (n / 8) = b.1.take (n / 8)) ∧
      (n % 8 ≠ 0 → a.1.getD (n / 8) 0 &&& partialMask (n % 8) =
        b.1.getD (n / 8) 0 &&& partialMask (n % 8))) ↔ leading n a = leading n b := by
  have hbytes : (n / 8 ≠ 0 → a.1.take (n / 8) = b.1.take (n / 8)) ↔
      ∀ i < 8 * (n / 8), getAddressBit a i = getAddressBit b i := by
    rw [← leading_eq_iff (by omega), ← ofBE_take (by omega), ← ofBE_take (by omega)]
    have hinj : ofBE (a.1.take (n / 8)) = ofBE (b.1.take (n / 8)) ↔
        a.1.take (n / 8) = b.1.take (n / 8) := by
      refine ⟨fun h => ?_, fun h => congrArg _ h⟩
      have ha := toBE_ofBE (a.1.take (n / 8))
      have hb := toBE_ofBE (b.1.take (n / 8))
      rw [length_take, a.2, h] at ha
      rw [length_take, b.2] at hb
      exact ha.symm.trans hb
    rw [hinj]
    by_cases hzero : n / 8 = 0
    · simp [hzero]
    · exact ⟨fun h => h hzero, fun h _ => h⟩
  have hrest : (n % 8 ≠ 0 → a.1.getD (n / 8) 0 &&& partialMask (n % 8) =
        b.1.getD (n / 8) 0 &&& partialMask (n % 8)) ↔
      ∀ i, 8 * (n / 8) ≤ i → i < n → getAddressBit a i = getAddressBit b i := by
    rw [and_partialMask_eq_iff (Nat.mod_lt _ (by omega))]
    constructor
    · intro h i hle hlt
      have hbit := h (by omega) (i % 8) (by omega)
      have hbyte : i / 8 = n / 8 := by omega
      rw [getAddressBit_eq_testBit, getAddressBit_eq_testBit, hbyte]
      exact hbit
    · intro h _ i hi
      have hbit := h (8 * (n / 8) + i) (by omega) (by omega)
      have hbyte : (8 * (n / 8) + i) / 8 = n / 8 := by omega
      have hpos : (8 * (n / 8) + i) % 8 = i := by omega
      rwa [getAddressBit_eq_testBit, getAddressBit_eq_testBit, hbyte, hpos] at hbit
  rw [hbytes, hrest, leading_eq_iff (by omega)]
  constructor
  · rintro ⟨hlow, hhigh⟩ i hi
    by_cases hbyte : i < 8 * (n / 8)
    · exact hlow i hbyte
    · exact hhigh i (Nat.le_of_not_lt hbyte) hi
  · exact fun h => ⟨fun i hi => h i (by omega), fun i _ hi => h i hi⟩

/-- **Two prefixes are joined when they are the two halves of one.** -/
theorem canMerge_iff {p q : Prefix} (hp : Collected p) (hq : Collected q) :
    canMerge p q = true ↔ (toBlock p).Siblings (toBlock q) := by
  have hple := hp.prefixLen_le.trans (width_le _)
  have hguards : ∀ b : Bool, (if p.family ≠ q.family ∨ p.prefixLen = 0 ∨
      p.prefixLen ≠ q.prefixLen ∨ p.isoCode ≠ q.isoCode then false else b) = true ↔
        (p.family = q.family ∧ p.prefixLen ≠ 0 ∧ p.prefixLen = q.prefixLen ∧
          p.isoCode = q.isoCode) ∧ b = true := fun b => by
    split
    · next h =>
      refine ⟨fun hb => absurd hb Bool.false_ne_true, fun ⟨⟨hf, hz, hl, hi⟩, _⟩ => ?_⟩
      rcases h with h | h | h | h
      · exact absurd hf h
      · exact absurd h hz
      · exact absurd hl h
      · exact absurd hi h
    · next h =>
      simp only [not_or, not_not] at h
      exact ⟨fun hb => ⟨h, hb⟩, fun hb => hb.2⟩
  have hbody : ∀ {n : ℕ}, n < 128 → ((if n / 8 ≠ 0 ∧
      p.address.1.take (n / 8) ≠ q.address.1.take (n / 8) then false
      else if n % 8 ≠ 0 ∧ p.address.1.getD (n / 8) 0 &&& partialMask (n % 8) ≠
        q.address.1.getD (n / 8) 0 &&& partialMask (n % 8) then false
      else !getAddressBit p.address n && getAddressBit q.address n) = true ↔
        leading n p.address = leading n q.address ∧ getAddressBit p.address n = false ∧
          getAddressBit q.address n = true) := fun {n} hn => by
    rw [← sameLeading_iff hn]
    split
    · next h1 =>
      exact ⟨fun h => absurd h Bool.false_ne_true, fun h => absurd (h.1.1 h1.1) h1.2⟩
    rename_i h1
    split
    · next h2 =>
      exact ⟨fun h => absurd h Bool.false_ne_true, fun h => absurd (h.1.2 h2.1) h2.2⟩
    rename_i h2
    rw [not_and_not_right] at h1 h2
    simp only [Bool.and_eq_true, Bool.not_eq_true']
    exact ⟨fun h => ⟨⟨h1, h2⟩, h⟩, fun h => h.2⟩
  unfold canMerge
  rw [hguards]
  constructor
  · rintro ⟨⟨hfamily, hzero, hlen, hiso⟩, h⟩
    obtain ⟨n, hn⟩ : ∃ n, p.prefixLen = n + 1 := ⟨p.prefixLen - 1, by omega⟩
    rw [hn, Nat.add_sub_cancel, hbody (by omega)] at h
    obtain ⟨hsame, hpbit, hqbit⟩ := h
    have hphead : (toBlock p).head = 2 * leading n p.address := by
      show leading p.prefixLen _ = _
      rw [hn, leading_succ (by omega), hpbit]
      rfl
    have hqhead : (toBlock q).head = 2 * leading n p.address + 1 := by
      show leading q.prefixLen _ = _
      rw [← hlen, hn, leading_succ (by omega), hqbit, hsame]
      rfl
    refine ⟨Prod.ext hiso hfamily, ?_, by omega, by omega⟩
    show width p.family - p.prefixLen = width q.family - q.prefixLen
    rw [hfamily, hlen]
  · rintro ⟨hkey, hbits, heven, hhead⟩
    obtain ⟨hiso, hfamily⟩ := Prod.mk.inj hkey
    have hlen : p.prefixLen = q.prefixLen := by
      have hpw := hp.prefixLen_le
      have hqw := hq.prefixLen_le
      have hdiff : width p.family - p.prefixLen = width q.family - q.prefixLen := hbits
      rw [hfamily] at hpw hdiff
      omega
    have hphead : (toBlock p).head = leading p.prefixLen p.address := rfl
    have hqhead : (toBlock q).head = leading q.prefixLen q.address := rfl
    have hzero : p.prefixLen ≠ 0 := by
      intro hzero
      have hlt := leading_lt (Nat.zero_le 128) q.address
      rw [hqhead, ← hlen, hzero] at hhead
      omega
    obtain ⟨n, hn⟩ : ∃ n, p.prefixLen = n + 1 := ⟨p.prefixLen - 1, by omega⟩
    refine ⟨⟨hfamily, hzero, hlen, hiso⟩, ?_⟩
    rw [hn, Nat.add_sub_cancel, hbody (by omega)]
    rw [hn, leading_succ (by omega)] at hphead
    rw [← hlen, hn, leading_succ (by omega)] at hqhead
    rw [hphead] at heven hhead
    rw [hqhead] at hhead
    cases hpbit : getAddressBit p.address n <;> cases hqbit : getAddressBit q.address n <;>
      rw [hpbit] at heven hhead <;> rw [hqbit] at hhead <;>
      simp only [Bool.toNat_false, Bool.toNat_true] at heven hhead
    · omega
    · exact ⟨by omega, rfl, rfl⟩
    · omega
    · omega

/-- A joined prefix again has no bit set behind it. -/
theorem joined_collected (hp : Collected p) : Collected (joined p) := by
  have hle := hp.prefixLen_le
  have hwidth := width_le p.family
  refine ⟨hp.family_eq, ?_, fun bit hbit hlt => ?_⟩
  · show p.prefixLen - 1 ≤ width p.family
    omega
  · have hbit' : p.prefixLen - 1 ≤ bit := hbit
    show getAddressBit (setAddressBit p.address (p.prefixLen - 1) false) bit = false
    rw [getAddressBit_setAddressBit _ (by omega)]
    split
    · rfl
    · exact hp.clear bit (by omega) hlt

/-- **Joining two prefixes is taking the parent of their blocks.** -/
theorem toBlock_joined (hp : Collected p) (hzero : p.prefixLen ≠ 0) :
    toBlock (joined p) = (toBlock p).parent := by
  obtain ⟨n, hn⟩ : ∃ n, p.prefixLen = n + 1 := ⟨p.prefixLen - 1, by omega⟩
  have hle := hp.prefixLen_le.trans (width_le _)
  have hhead : leading n (joined p).address = leading n p.address := by
    refine (leading_eq_iff (by omega)).mpr fun i hi => ?_
    show getAddressBit (setAddressBit p.address (p.prefixLen - 1) false) i = _
    rw [getAddressBit_setAddressBit _ (by omega), if_neg (by omega)]
  have hhalf : leading p.prefixLen p.address / 2 = leading n p.address := by
    rw [hn, leading_succ (by omega)]
    cases getAddressBit p.address n
    · rw [Bool.toNat_false]
      omega
    · rw [Bool.toNat_true]
      omega
  have hlen : (joined p).prefixLen = n := by
    show p.prefixLen - 1 = n
    omega
  have hbits : width p.family - n = width p.family - p.prefixLen + 1 := by
    have := hp.prefixLen_le
    omega
  show (⟨(p.isoCode, p.family), leading (joined p).prefixLen (joined p).address,
    width p.family - (joined p).prefixLen⟩ : Cidr.Block _) =
      ⟨(p.isoCode, p.family), leading p.prefixLen p.address / 2, width p.family - p.prefixLen + 1⟩
  rw [hlen, hhead, hhalf, hbits]

end DreamingOS.Geoip
