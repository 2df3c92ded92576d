import DreamingOS.Lib.Cbor

namespace DreamingOS.Passkey

open List

/-!
# The passkey CBOR reader

* `skipItem` — a whole item with the items in it, by recursion;
* `decodeItem_eq` — what the reader returns for a head, and when it returns nothing.

Positions and lengths are `size_t`, so sums of them are taken modulo 2 ^ 64.
-/

/-- A byte buffer. No object is longer than the greatest pointer difference. -/
structure Buffer where
  bytes : List UInt8
  fits : bytes.length < 2 ^ 63

/-- The sum of two values of type `size_t`. -/
def sizeAdd (a b : ℕ) : ℕ := (a + b) % 2 ^ 64

theorem sizeAdd_eq {a b : ℕ} (h : a + b < 2 ^ 64) : sizeAdd a b = a + b := Nat.mod_eq_of_lt h

/-- `buf[p]`; only read where the bounds have been checked. -/
def byteAt (buf : Buffer) (p : ℕ) : ℕ := (buf.bytes[p]?.getD 0).toNat

/-! ### The reader -/

/-- `struct webd_cbor_item`: the type and the member of the union that belongs to it. -/
inductive CborItem
  | uint (uintVal : ℕ)
  | nint (intVal : ℤ)
  | bstr (data len : ℕ)
  | tstr (data len : ℕ)
  | array (containerCount : ℕ)
  | map (containerCount : ℕ)
  | simple (uintVal : ℕ)
deriving DecidableEq

/-- The value of the additional information and the position behind it. -/
def cborReadUint (buf : Buffer) (p additional : ℕ) : Option (ℕ × ℕ) :=
  let bufLen := buf.bytes.length
  if additional < 24 then
    some (additional, p)
  else if additional = 24 then
    if sizeAdd p 1 > bufLen then none
    else some (byteAt buf p, sizeAdd p 1)
  else if additional = 25 then
    if sizeAdd p 2 > bufLen then none
    else some (byteAt buf p <<< 8 ||| byteAt buf (p + 1), sizeAdd p 2)
  else if additional = 26 then
    if sizeAdd p 4 > bufLen then none
    else some (byteAt buf p <<< 24 ||| byteAt buf (p + 1) <<< 16 ||| byteAt buf (p + 2) <<< 8 |||
      byteAt buf (p + 3), sizeAdd p 4)
  else if additional = 27 then
    if sizeAdd p 8 > bufLen then none
    else some (byteAt buf p <<< 56 ||| byteAt buf (p + 1) <<< 48 ||| byteAt buf (p + 2) <<< 40 |||
      byteAt buf (p + 3) <<< 32 ||| byteAt buf (p + 4) <<< 24 ||| byteAt buf (p + 5) <<< 16 |||
      byteAt buf (p + 6) <<< 8 ||| byteAt buf (p + 7), sizeAdd p 8)
  else
    none

/-- `(int64_t)val`. -/
def toInt64 (val : ℕ) : ℤ := (val : ℤ).bmod (2 ^ 64)

/-- The item whose head is at `pos`, and the position behind the head and a string's bytes. -/
def decodeItem (buf : Buffer) (pos : ℕ) : Option (CborItem × ℕ) :=
  if pos ≥ buf.bytes.length then none
  else
    let initial := byteAt buf pos
    let major := initial >>> 5 &&& 0x7
    let additional := initial &&& 0x1f
    match cborReadUint buf (sizeAdd pos 1) additional with
    | none => none
    | some (val, pos) =>
      match major with
      | 0 => some (.uint val, pos)
      | 1 => some (.nint (-1 - toInt64 val), pos)
      | 2 =>
        if sizeAdd pos val > buf.bytes.length then none
        else some (.bstr pos val, sizeAdd pos val)
      | 3 =>
        if sizeAdd pos val > buf.bytes.length then none
        else some (.tstr pos val, sizeAdd pos val)
      | 4 => some (.array val, pos)
      | 5 => some (.map val, pos)
      | 7 => some (.simple val, pos)
      | _ => none

/-- How a call of `webd_cbor_skip_item` ends short of success. -/
inductive Stop
  | failed
  /-- The calls nest deeper than was allowed. -/
  | deep

/-- The loop over the items of an array. -/
def skipArray (skip : ℕ → Except Stop ℕ) : ℕ → ℕ → Except Stop ℕ
  | 0, pos => .ok pos
  | n + 1, pos => do
    let pos ← skip pos
    skipArray skip n pos

/-- The loop over the entries of a map. -/
def skipMap (skip : ℕ → Except Stop ℕ) : ℕ → ℕ → Except Stop ℕ
  | 0, pos => .ok pos
  | n + 1, pos => do
    let pos ← skip pos
    let pos ← skip pos
    skipMap skip n pos

/-- `webd_cbor_skip_item`, with calls nested at most so deep. -/
def skipItem (buf : Buffer) : ℕ → ℕ → Except Stop ℕ
  | 0, _ => .error .deep
  | depth + 1, pos =>
    match decodeItem buf pos with
    | none => .error .failed
    | some (item, pos) =>
      match item with
      | .uint _ | .nint _ | .bstr _ _ | .tstr _ _ | .simple _ => .ok pos
      | .array count => skipArray (skipItem buf depth) count pos
      | .map count => skipMap (skipItem buf depth) count pos

/-! ### What the reader makes of a head -/

variable {buf : Buffer} {p : ℕ}

theorem byteAt_eq {b : UInt8} (h : buf.bytes[p]? = some b) : byteAt buf p = b.toNat := by
  unfold byteAt
  rw [h]
  rfl

theorem byteAt_lt (buf : Buffer) (p : ℕ) : byteAt buf p < 256 := UInt8.toNat_lt _

/-- The big-endian number of the bytes from a position on. -/
def numberAt (buf : Buffer) (p : ℕ) : ℕ → ℕ
  | 0 => 0
  | width + 1 => numberAt buf p width * 256 + byteAt buf (p + width)

theorem ofBE_append_singleton (bs : List UInt8) (b : UInt8) :
    Bytes.ofBE (bs ++ [b]) = Bytes.ofBE bs * 256 + b.toNat := by
  unfold Bytes.ofBE
  rw [reverse_append, reverse_singleton, singleton_append, Bytes.ofLE]
  omega

theorem numberAt_eq {width : ℕ} (h : p + width ≤ buf.bytes.length) :
    numberAt buf p width = Bytes.ofBE ((buf.bytes.drop p).take width) := by
  induction width with
  | zero => rfl
  | succ width ih =>
    have hlt : width < (buf.bytes.drop p).length := by
      rw [length_drop]
      omega
    have hbyte : byteAt buf (p + width) = ((buf.bytes.drop p)[width]).toNat := by
      refine byteAt_eq ?_
      rw [← getElem?_drop, getElem?_eq_getElem hlt]
    rw [numberAt, ih (by omega), ← take_append_getElem hlt, ofBE_append_singleton, hbyte]

/-- A byte moved into the free low bits of a number. -/
theorem shift_or (a : ℕ) {b c k : ℕ} (hb : b < 256) (hc : c = 8 + k) :
    a <<< c ||| b <<< k = (a * 256 + b) <<< k := by
  have hlow : a <<< 8 ||| b = a * 256 + b := by
    rw [← Nat.shiftLeft_add_eq_or_of_lt (show b < 2 ^ 8 by omega), Nat.shiftLeft_eq]
  rw [hc, Nat.shiftLeft_add, ← Nat.shiftLeft_or_distrib, hlow]

/-- The low bits of the number are free for its last byte. -/
theorem shift_or_last (a : ℕ) {b : ℕ} (hb : b < 256) : a <<< 8 ||| b = a * 256 + b :=
  shift_or (c := 8) (k := 0) a hb rfl

theorem numberAt_one (buf : Buffer) (p : ℕ) : numberAt buf p 1 = byteAt buf p := by
  simp [numberAt]

theorem numberAt_two (buf : Buffer) (p : ℕ) :
    byteAt buf p <<< 8 ||| byteAt buf (p + 1) = numberAt buf p 2 := by
  rw [shift_or_last _ (byteAt_lt buf _)]
  simp [numberAt]

theorem numberAt_four (buf : Buffer) (p : ℕ) :
    byteAt buf p <<< 24 ||| byteAt buf (p + 1) <<< 16 ||| byteAt buf (p + 2) <<< 8 |||
      byteAt buf (p + 3) = numberAt buf p 4 := by
  rw [shift_or (k := 16) _ (byteAt_lt buf _) rfl, shift_or (k := 8) _ (byteAt_lt buf _) rfl,
    shift_or_last _ (byteAt_lt buf _)]
  simp [numberAt]

theorem numberAt_eight (buf : Buffer) (p : ℕ) :
    byteAt buf p <<< 56 ||| byteAt buf (p + 1) <<< 48 ||| byteAt buf (p + 2) <<< 40 |||
      byteAt buf (p + 3) <<< 32 ||| byteAt buf (p + 4) <<< 24 ||| byteAt buf (p + 5) <<< 16 |||
      byteAt buf (p + 6) <<< 8 ||| byteAt buf (p + 7) = numberAt buf p 8 := by
  rw [shift_or (k := 48) _ (byteAt_lt buf _) rfl, shift_or (k := 40) _ (byteAt_lt buf _) rfl,
    shift_or (k := 32) _ (byteAt_lt buf _) rfl, shift_or (k := 24) _ (byteAt_lt buf _) rfl,
    shift_or (k := 16) _ (byteAt_lt buf _) rfl, shift_or (k := 8) _ (byteAt_lt buf _) rfl,
    shift_or_last _ (byteAt_lt buf _)]
  simp [numberAt]

/-- A number of so many bytes, behind additional information that announces it. -/
theorem read_number {buf : Buffer} {p width n : ℕ} (hp : p ≤ buf.bytes.length)
    (hwidth : 0 < width ∧ width ≤ 8) (hn : n = numberAt buf p width) (additional : ℕ) :
    (if sizeAdd p width > buf.bytes.length then none else some (n, sizeAdd p width)) =
      if p + width ≤ buf.bytes.length then
        some (if width = 0 then additional else numberAt buf p width, p + width)
      else none := by
  have hfits := buf.fits
  rw [sizeAdd_eq (by omega), hn, if_neg (show ¬ width = 0 by omega)]
  by_cases hle : p + width ≤ buf.bytes.length
  · rw [if_pos hle, if_neg (by omega)]
  · rw [if_neg hle, if_pos (by omega)]

/-- Additional information is read as the number of the head. -/
theorem cborReadUint_eq (buf : Buffer) {p : ℕ} (additional : ℕ) (hp : p ≤ buf.bytes.length) :
    cborReadUint buf p additional = (Cbor.argWidth additional).bind fun width =>
        if p + width ≤ buf.bytes.length then
          some (if width = 0 then additional else numberAt buf p width, p + width)
        else none := by
  unfold cborReadUint Cbor.argWidth
  split
  · exact (if_pos hp).symm
  split
  · next h =>
    subst h
    exact read_number hp (by omega) (numberAt_one buf p).symm 24
  split
  · next h =>
    subst h
    exact read_number hp (by omega) (numberAt_two buf p) 25
  split
  · next h =>
    subst h
    exact read_number hp (by omega) (numberAt_four buf p) 26
  split
  · next h =>
    subst h
    exact read_number hp (by omega) (numberAt_eight buf p) 27
  -- the additional information that is left announces no number
  · split <;> first | contradiction | rfl

/-- What the reader makes of a head: the item, and the position behind it. -/
def ofHead (buf : Buffer) (h : Cbor.Head) : Option (CborItem × ℕ) :=
  match h.major with
  | 0 => some (.uint h.arg, h.next)
  | 1 => some (.nint (-1 - toInt64 h.arg), h.next)
  | 2 =>
    if sizeAdd h.next h.arg > buf.bytes.length then none
    else some (.bstr h.next h.arg, sizeAdd h.next h.arg)
  | 3 =>
    if sizeAdd h.next h.arg > buf.bytes.length then none
    else some (.tstr h.next h.arg, sizeAdd h.next h.arg)
  | 4 => some (.array h.arg, h.next)
  | 5 => some (.map h.arg, h.next)
  | 7 => some (.simple h.arg, h.next)
  | _ => none

/-- **The reader goes by the head.** -/
theorem decodeItem_eq (buf : Buffer) (p : ℕ) :
    decodeItem buf p = (Cbor.head buf.bytes p).bind (ofHead buf) := by
  have hfits := buf.fits
  unfold decodeItem
  by_cases hp : p < buf.bytes.length
  · rw [if_neg (by omega), sizeAdd_eq (by omega)]
    have hinitial : buf.bytes[p]? = some buf.bytes[p] := getElem?_eq_getElem hp
    rw [byteAt_eq hinitial]
    have hmajor : buf.bytes[p].toNat >>> 5 &&& 0x7 = buf.bytes[p].toNat / 32 := by
      have := buf.bytes[p].toNat_lt
      rw [Nat.shiftRight_eq_div_pow, show (0x7 : ℕ) = 2 ^ 3 - 1 from rfl,
        Nat.and_two_pow_sub_one_eq_mod]
      omega
    have hadditional : buf.bytes[p].toNat &&& 0x1f = buf.bytes[p].toNat % 32 :=
      Nat.and_two_pow_sub_one_eq_mod _ 5
    simp only [hmajor, hadditional]
    rw [cborReadUint_eq buf _ (by omega)]
    rw [Cbor.head_eq hinitial]
    cases hwidth : Cbor.argWidth (buf.bytes[p].toNat % 32) with
    | none => rfl
    | some width =>
      simp only [Option.bind_some]
      by_cases hle : p + 1 + width ≤ buf.bytes.length
      · rw [if_pos hle, if_pos hle, numberAt_eq hle]
        rfl
      · rw [if_neg hle, if_neg hle]
        rfl
  · rw [if_pos (by omega)]
    unfold Cbor.head
    rw [getElem?_eq_none (by omega)]
    rfl

end DreamingOS.Passkey
