import DreamingOS.Lib.InetText

namespace Inet

open List Option

/-!
# Internet addresses as numbers

What `inet_pton` makes of a text, and which bits of two addresses agree.

* `pton4`, `pton6`, `length_pton4`, `length_pton6` — the octets of an address;
* `bits`, `Agree` — the bits of some octets, and that the first ones are the same;
* `agree_iff_octets` — **agreement in whole octets, and in a masked one behind them**.
-/

/-! ### Octets -/

/-- `left` decimal numbers, with a dot between any two. -/
def v4Octets : ℕ → List Char → Option (List UInt8)
  | 0, _ => none
  | left + 1, s =>
    let ds := (s.take 3).takeWhile Char.isDigit
    let v := Nat.ofDigitChars 10 ds 0
    if ds = [] ∨ (1 < ds.length ∧ ds.head? = some '0') ∨ 255 < v then none
    else
      match s.drop ds.length with
      | [] => if left = 0 then some [UInt8.ofNat v] else none
      | '.' :: r => (v4Octets left r).map (UInt8.ofNat v :: ·)
      | _ => none

/-- `inet_pton(AF_INET, s, …)`. -/
def pton4 (s : List Char) : Option (List UInt8) := v4Octets 4 s

def hexDigitValue (c : Char) : ℕ :=
  if c.isDigit then c.toNat - 48 else if 'a' ≤ c ∧ c ≤ 'f' then c.toNat - 87 else c.toNat - 55

/-- The octets of a group. -/
def groupOctets (n : ℕ) : List UInt8 := [UInt8.ofNat (n / 256), UInt8.ofNat (n % 256)]

/-- The octets in front of the stretch of zeros, if it has been seen, and those behind it. -/
def v6Octets : ℕ → Option (List UInt8) → List UInt8 → List Char → Option (Option (List UInt8) × List UInt8)
  | 0, _, _, _ => none
  | left + 1, front, octets, s =>
    if s.head? = some ':' ∧ front = none then
      if s.tail = [] then some (some octets, [])
      else if left = 0 then none
      else v6Octets left (some octets) [] s.tail
    else
      let ds := (s.take 4).takeWhile isXDigit
      let octets' := octets ++ groupOctets (ds.foldl (fun n c => n * 16 + hexDigitValue c) 0)
      if ds = [] then none
      else
        match s.drop ds.length with
        | [] => if front ≠ none ∨ left = 0 then some (front, octets') else none
        | ':' :: r => if left = 0 then none else v6Octets left front octets' r
        -- the groups left are an IPv4 address
        | '.' :: _ =>
          if left = 0 ∨ (front = none ∧ 1 < left) then none
          else (pton4 s).map fun last => (front, octets ++ last)
        | _ => none

/-- The stretch of zeros is as long as there is room. -/
def filled : Option (List UInt8) × List UInt8 → List UInt8
  | (none, octets) => octets
  | (some front, octets) => front ++ List.replicate (16 - front.length - octets.length) 0 ++ octets

/-- `inet_pton(AF_INET6, s, …)`. -/
def pton6 : List Char → Option (List UInt8)
  | ':' :: ':' :: s => (v6Octets 8 none [] (':' :: s)).map filled
  | ':' :: _ => none
  | s => (v6Octets 8 none [] s).map filled

variable {s : List Char} {x : List UInt8}

theorem length_v4Octets {left : ℕ} (h : v4Octets left s = some x) : x.length = left := by
  induction left generalizing s x with
  | zero => cases h
  | succ left ih =>
    unfold v4Octets at h
    dsimp only at h
    replace h := (Outcome.passed h nofun).2
    split at h
    · split at h
      · next hleft =>
        obtain rfl := some.inj h
        rw [hleft]
        rfl
      · cases h
    · obtain ⟨y, hy, rfl⟩ := map_eq_some_iff.mp h
      rw [length_cons, ih hy]
    · cases h

theorem length_pton4 (h : pton4 s = some x) : x.length = 4 := length_v4Octets h

/-- The octets that have been read fill the room of the groups that are over. -/
theorem length_v6Octets {left : ℕ} {front : Option (List UInt8)} {octets : List UInt8}
    {r : Option (List UInt8) × List UInt8} (h : v6Octets left front octets s = some r)
    (hnone : front = none → octets.length + 2 * left = 16)
    (hsome : ∀ f, front = some f → f.length + octets.length + 2 * left ≤ 16) :
    (filled r).length = 16 := by
  have hfilled : ∀ f o : List UInt8, f.length + o.length ≤ 16 → (filled (some f, o)).length = 16 := by
    intro f o hle
    unfold filled
    rw [length_append, length_append, length_replicate]
    omega
  have hgroup : ∀ (octets : List UInt8) n, (octets ++ groupOctets n).length = octets.length + 2 := by
    intro octets n
    rw [length_append]
    rfl
  induction left generalizing front octets s with
  | zero => cases h
  | succ left ih =>
    unfold v6Octets at h
    dsimp only at h
    split at h
    · next hcolon =>
      obtain rfl := hcolon.2
      have hlen := hnone rfl
      split at h
      · obtain rfl := some.inj h
        apply hfilled
        rw [length_nil]
        omega
      · replace h := (Outcome.passed h nofun).2
        apply ih h nofun
        · intro f hf
          obtain rfl := some.inj hf
          rw [length_nil]
          omega
    · replace h := (Outcome.passed h nofun).2
      split at h
      · split at h
        · next hend =>
          obtain rfl := some.inj h
          cases front with
          | none =>
            have hlen := hnone rfl
            have hleft : left = 0 := hend.resolve_left fun hno => hno rfl
            show (octets ++ groupOctets _).length = 16
            rw [hgroup]
            omega
          | some f =>
            have hlen := hsome f rfl
            apply hfilled
            rw [hgroup]
            omega
        · cases h
      · replace h := (Outcome.passed h nofun).2
        apply ih h
        · intro hfront
          have hlen := hnone hfront
          rw [hgroup]
          omega
        · intro f hf
          have hlen := hsome f hf
          rw [hgroup]
          omega
      · obtain ⟨hleft, h⟩ := Outcome.passed h nofun
        obtain ⟨last, hlast, rfl⟩ := map_eq_some_iff.mp h
        have hfour := length_pton4 hlast
        cases front with
        | none =>
          have hlen := hnone rfl
          have hone : left = 1 := by
            have hno := not_or.mp hleft
            have hle : ¬1 < left := fun hlt => hno.2 ⟨rfl, hlt⟩
            have hpos := hno.1
            omega
          show (octets ++ last).length = 16
          rw [length_append]
          omega
        | some f =>
          have hlen := hsome f rfl
          have hpos := (not_or.mp hleft).1
          apply hfilled
          rw [length_append]
          omega
      · cases h

theorem length_pton6 (h : pton6 s = some x) : x.length = 16 := by
  have hall : ∀ s : List Char, (v6Octets 8 none [] s).map filled = some x → x.length = 16 := by
    intro s hs
    obtain ⟨r, hr, rfl⟩ := map_eq_some_iff.mp hs
    exact length_v6Octets hr (fun _ => rfl) nofun
  unfold pton6 at h
  split at h
  · exact hall _ h
  · cases h
  · exact hall _ h

/-! ### Bits -/

/-- The bits of an octet, the highest one first. -/
def octetBits (b : UInt8) : List Bool := (List.range 8).map fun i => b.toNat.testBit (7 - i)

def bits (octets : List UInt8) : List Bool := octets.flatMap octetBits

/-- The first `n` bits are the same. -/
def Agree (n : ℕ) (x y : List UInt8) : Prop := (bits x).take n = (bits y).take n

/-- The mask of the highest bits of an octet. -/
def mask (n : ℕ) : UInt8 := UInt8.ofNat (0xff <<< (8 - n))

theorem mask_testBit {n i : ℕ} (hn : n < 8) (hi : i < n) : (mask n).toNat.testBit (7 - i) = true := by
  have hall : ∀ n < 8, ∀ i < n, (mask n).toNat.testBit (7 - i) = true := by decide
  exact hall n hn i hi

theorem octetBits_take {n : ℕ} {a b : UInt8} (hn : n < 8) (h : a &&& mask n = b &&& mask n) :
    (octetBits a).take n = (octetBits b).take n := by
  unfold octetBits
  rw [← map_take, ← map_take]
  apply map_congr_left
  intro i hi
  have hlt : i < n := by
    rw [take_range] at hi
    exact Nat.lt_of_lt_of_le (mem_range.mp hi) (Nat.min_le_left _ _)
  have hbit := congrArg (fun c : UInt8 => c.toNat.testBit (7 - i)) h
  simp only [UInt8.toNat_and, Nat.testBit_and, mask_testBit hn hlt, Bool.and_true] at hbit
  exact hbit

theorem length_bits (x : List UInt8) : (bits x).length = 8 * x.length := by
  induction x with
  | nil => rfl
  | cons b x ih =>
    unfold bits at ih ⊢
    rw [flatMap_cons, length_append, ih, length_cons]
    unfold octetBits
    rw [length_map, length_range]
    omega

theorem bits_append (x y : List UInt8) : bits (x ++ y) = bits x ++ bits y := flatMap_append ..

/-- The first bits are those of the whole octets, and of the one behind them. -/
theorem bits_take {x : List UInt8} {full rest : ℕ} (hrest : rest < 8) (hx : full < x.length) :
    (bits x).take (8 * full + rest) = bits (x.take full) ++ (octetBits x[full]).take rest := by
  have hsplit : x = x.take full ++ x[full] :: x.drop (full + 1) := by
    rw [getElem_cons_drop, take_append_drop]
  have hlen : (bits (x.take full)).length = 8 * full := by
    rw [length_bits, length_take, Nat.min_eq_left (Nat.le_of_lt hx)]
  have hcons : bits (x[full] :: x.drop (full + 1)) = octetBits x[full] ++ bits (x.drop (full + 1)) :=
    flatMap_cons
  have hoctet : (octetBits x[full]).length = 8 := by
    unfold octetBits
    rw [length_map, length_range]
  conv_lhs => rw [hsplit, bits_append, hcons]
  rw [take_append, hlen, take_of_length_le (by omega), Nat.add_sub_cancel_left,
    take_append, hoctet, Nat.sub_eq_zero_of_le (Nat.le_of_lt hrest), take_zero,
    append_nil]

/-- The number of some bits, the highest one first. -/
def ofBits (l : List Bool) : ℕ := l.foldl (fun v b => 2 * v + b.toNat) 0

theorem mask_ofBits : ∀ n ≤ 8, ∀ a < 256, UInt8.ofNat a &&& mask n =
    UInt8.ofNat (ofBits ((octetBits (UInt8.ofNat a)).take n) <<< (8 - n)) := by decide +kernel

theorem masked_of_take {n : ℕ} {a b : UInt8} (hn : n ≤ 8)
    (h : (octetBits a).take n = (octetBits b).take n) : a &&& mask n = b &&& mask n := by
  have ha := mask_ofBits n hn a.toNat a.toNat_lt
  have hb := mask_ofBits n hn b.toNat b.toNat_lt
  rw [UInt8.ofNat_toNat] at ha hb
  rw [ha, hb, h]

theorem bits_injective {x y : List UInt8} (h : bits x = bits y) : x = y := by
  induction x generalizing y with
  | nil =>
    have hlen := congrArg List.length h
    rw [length_bits, length_bits, length_nil] at hlen
    exact (length_eq_zero_iff.mp (by omega)).symm
  | cons a x ih =>
    cases y with
    | nil => exact absurd (congrArg List.length h) (by rw [length_bits, length_bits]; simp)
    | cons b y =>
      obtain ⟨hoctet, hrest⟩ := append_inj h rfl
      have hmask := masked_of_take (le_refl 8) (congrArg (take 8) hoctet)
      have hall : ∀ a : UInt8, a &&& mask 8 = a := fun a => UInt8.and_neg_one
      rw [hall, hall] at hmask
      rw [hmask, ih hrest]

/-- **Addresses agree in their whole octets, and in a masked one behind them.** -/
theorem agree_iff_octets {x y : List UInt8} {n : ℕ} (hy : x.length = y.length) :
    Agree n x y ↔ x.take (n / 8) = y.take (n / 8) ∧ (n % 8 ≠ 0 →
      x.getD (n / 8) 0 &&& mask (n % 8) = y.getD (n / 8) 0 &&& mask (n % 8)) := by
  have hrest : n % 8 < 8 := Nat.mod_lt _ (by decide)
  unfold Agree
  by_cases hin : n / 8 < x.length
  · have hxtake := bits_take hrest hin
    have hytake := bits_take hrest (hy ▸ hin)
    rw [Nat.div_add_mod] at hxtake hytake
    rw [hxtake, hytake, getD_eq_getElem?_getD, getD_eq_getElem?_getD, getElem?_eq_getElem hin,
      getElem?_eq_getElem (hy ▸ hin)]
    constructor
    · intro h
      obtain ⟨hfull, hbits⟩ := append_inj h (by simp [length_bits, hy])
      exact ⟨bits_injective hfull, fun _ => masked_of_take (Nat.le_of_lt hrest) hbits⟩
    · rintro ⟨hfull, hmask⟩
      rw [hfull]
      congr 1
      by_cases hzero : n % 8 = 0
      · rw [hzero, take_zero, take_zero]
      · exact octetBits_take hrest (hmask hzero)
  · -- all the octets are whole
    have hall : ∀ z : List UInt8, z.length = x.length →
        (bits z).take n = bits z ∧ z.take (n / 8) = z := by
      intro z hz
      exact ⟨take_of_length_le (by rw [length_bits]; omega), take_of_length_le (by omega)⟩
    rw [(hall x rfl).1, (hall y hy.symm).1, (hall x rfl).2, (hall y hy.symm).2]
    constructor
    · intro h
      rw [bits_injective h]
      exact ⟨rfl, fun _ => rfl⟩
    · rintro ⟨h, -⟩
      rw [h]

end Inet
