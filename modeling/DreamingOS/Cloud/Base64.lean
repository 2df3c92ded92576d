import DreamingOS.Cloud.Transcript
import DreamingOS.Lib.BitGroups
import DreamingOS.Lib.Outcome
import Mathlib.Data.Char

namespace DreamingOS.Cloud.Base64

open BitGroups List Option

/-!
# Cloud envelopes — base64

The text form of what the cloud sends and receives, from `cloud_envelope.c`.

* `Encoded`, `Decoded` — a text and its bytes have the same bits, but for the spare bits;
* `base64Decode_bytes` — the decoder of the tunnel's frames, byte by byte, is this one;
* `base64_canonical` — what is encoded is decoded, and what is decoded is encoded **where the spare
  bits are clear**.

The decoder does not look at the spare bits: up to sixteen texts decode to the same bytes
(`spare_bits_ignored`).
-/

/-- `cloud_base64_value`. -/
def base64Value (c : Char) : Option ℕ :=
  if 'A' ≤ c ∧ c ≤ 'Z' then some (c.toNat - 'A'.toNat)
  else if 'a' ≤ c ∧ c ≤ 'z' then some (c.toNat - 'a'.toNat + 26)
  else if '0' ≤ c ∧ c ≤ '9' then some (c.toNat - '0'.toNat + 52)
  else if c = '+' then some 62
  else if c = '/' then some 63
  else none

/-- The digits, in their order. -/
def base64Alphabet : List Char :=
  "ABCDEFGHIJKLMNOPQRSTUVWXYZabcdefghijklmnopqrstuvwxyz0123456789+/".toList

def base64Digit (v : ℕ) : Char := base64Alphabet.getD v 'A'

/-- The loop of `cloud_base64_decode`, with the number of padding characters before. -/
def base64Loop : List Char → Acc → ℕ → Option (List UInt8)
  | [], _, _ => some []
  | c :: cs, s, padding =>
    if c = '=' then
      -- two characters or more behind it, or the third one
      if 2 ≤ cs.length ∨ 2 < padding + 1 then none else base64Loop cs s (padding + 1)
    else if padding ≠ 0 then none
    else
      match base64Value c with
      | none => none
      | some v =>
        let s := s.push 6 v
        if 8 ≤ s.bits then
          (base64Loop cs (s.take 8) padding).map fun bs => UInt8.ofNat (s.peek 8) :: bs
        else base64Loop cs s padding

/-- `cloud_base64_decode`. -/
def base64Decode (text : List Char) : Option (List UInt8) :=
  if text.length = 0 ∨ text.length % 4 ≠ 0 ∨ CLOUD_FRAME_MAX < text.length then none
  else base64Loop text {} 0

/-- `cloud_base64_encode`. -/
def base64Encode : List UInt8 → List Char
  | [] => []
  | [a] =>
    let chunk := a.toNat <<< 16
    [base64Digit (chunk >>> 18 % 64), base64Digit (chunk >>> 12 % 64), '=', '=']
  | [a, b] =>
    let chunk := a.toNat <<< 16 ||| b.toNat <<< 8
    [base64Digit (chunk >>> 18 % 64), base64Digit (chunk >>> 12 % 64),
      base64Digit (chunk >>> 6 % 64), '=']
  | a :: b :: c :: rest =>
    let chunk := a.toNat <<< 16 ||| b.toNat <<< 8 ||| c.toNat
    base64Digit (chunk >>> 18 % 64) :: base64Digit (chunk >>> 12 % 64) ::
      base64Digit (chunk >>> 6 % 64) :: base64Digit (chunk % 64) :: base64Encode rest

/-! ### Digits -/

variable {v : ℕ}

theorem base64Value_digit (h : v < 64) : base64Value (base64Digit v) = some v := by
  revert v
  decide +kernel

theorem base64Digit_ne_pad (h : v < 64) : base64Digit v ≠ '=' := by
  revert v
  decide +kernel

theorem base64Value_eq_some {c : Char} (h : base64Value c = some v) :
    v < 64 ∧ c = base64Digit v := by
  have hall : ∀ n < 128, ∀ v < 64, base64Value (Char.ofNat n) = some v →
      Char.ofNat n = base64Digit v := by decide +kernel
  have hsmall : c.toNat < 128 ∧ v < 64 := by
    have hz : c ≤ 'Z' → c.toNat ≤ 90 := fun h => h
    have hlz : c ≤ 'z' → c.toNat ≤ 122 := fun h => h
    have hnine : c ≤ '9' → c.toNat ≤ 57 := fun h => h
    have hA : 'A'.toNat = 65 := rfl
    have ha : 'a'.toNat = 97 := rfl
    have h0 : '0'.toNat = 48 := rfl
    unfold base64Value at h
    split at h
    · next hc =>
      have hle := hz hc.2
      cases h
      omega
    · split at h
      · next hc =>
        have hle := hlz hc.2
        cases h
        omega
      · split at h
        · next hc =>
          have hle := hnine hc.2
          cases h
          omega
        · split at h
          · next hc =>
            cases h
            rw [hc]
            decide
          · split at h
            · next hc =>
              cases h
              rw [hc]
              decide
            · cases h
  have hc : Char.ofNat c.toNat = c := Char.ofNat_toNat c
  refine ⟨hsmall.2, ?_⟩
  rw [← hc]
  exact hall c.toNat hsmall.1 v hsmall.2 (hc.symm ▸ h)

/-- The bytes as digits of eight bits. -/
def octets (bs : List UInt8) : List ℕ := bs.map UInt8.toNat

variable {bs : List UInt8} {n : ℕ}

theorem octets_lt (h : n ∈ octets bs) : n < 2 ^ 8 := by
  obtain ⟨b, -, rfl⟩ := List.mem_map.mp h
  exact b.toNat_lt

theorem octets_injective {bs cs : List UInt8} (h : octets bs = octets cs) : bs = cs :=
  map_injective_iff.mpr (fun _ _ => UInt8.toNat_inj.mp) h

/-! ### The text of some bytes -/

/-- Digits and padding. -/
def base64Text (ds : List ℕ) (padding : ℕ) : List Char :=
  ds.map base64Digit ++ List.replicate padding '='

@[simp] theorem length_base64Text (ds : List ℕ) (padding : ℕ) :
    (base64Text ds padding).length = ds.length + padding := by
  rw [base64Text, length_append, length_map, length_replicate]

/-- A digit off the top of some bits. -/
theorem low_digit (k n : ℕ) : low (6 + k) n = low 6 (n >>> k % 64) ++ low k n := by
  rw [low_append, show (64 : ℕ) = 2 ^ 6 from rfl, low_mod (Nat.le_refl 6)]

/-- The digits of a chunk. -/
theorem bits_chunk (n : ℕ) :
    bitsOf 6 [n >>> 18 % 64, n >>> 12 % 64, n >>> 6 % 64, n % 64] = low 24 n := by
  have hlast := low_digit 0 n
  rw [Nat.shiftRight_zero] at hlast
  rw [show 24 = 6 + 18 from rfl, low_digit, show 18 = 6 + 12 from rfl, low_digit,
    show 12 = 6 + 6 from rfl, low_digit, show 6 = 6 + 0 from rfl, hlast]
  simp [low]

/-- The bytes of a chunk. -/
theorem low_chunk {a b c : ℕ} (hb : b < 2 ^ 8) (hc : c < 2 ^ 8) :
    low 24 (a <<< 16 ||| b <<< 8 ||| c) = low 8 a ++ (low 8 b ++ low 8 c) := by
  have hshift : a <<< 16 ||| b <<< 8 ||| c = (a <<< 8 ||| b) <<< 8 ||| c := by
    rw [Nat.shiftLeft_or_distrib, ← Nat.shiftLeft_add]
  rw [hshift, show 24 = 8 + 8 + 8 from rfl, low_push hc, low_push hb, append_assoc]

/-- The first two digits of a chunk with one byte. -/
theorem bits_one {a : ℕ} (h : low 24 n = low 8 a ++ List.replicate 16 false) :
    bitsOf 6 [n >>> 18 % 64, n >>> 12 % 64] = low 8 a ++ List.replicate 4 false := by
  rw [← bits_chunk] at h
  have hlen : (bitsOf 6 [n >>> 18 % 64, n >>> 12 % 64]).length =
      (low 8 a ++ List.replicate 4 false).length := by simp
  have hcut : bitsOf 6 [n >>> 18 % 64, n >>> 12 % 64] ++ bitsOf 6 [n >>> 6 % 64, n % 64] =
      low 8 a ++ List.replicate 4 false ++ List.replicate 12 false := by
    rw [← bitsOf_append, append_assoc, replicate_append_replicate]
    exact h
  exact append_inj_left hcut hlen

/-- The first three digits of a chunk with two bytes. -/
theorem bits_two {a b : ℕ} (h : low 24 n = low 8 a ++ (low 8 b ++ List.replicate 8 false)) :
    bitsOf 6 [n >>> 18 % 64, n >>> 12 % 64, n >>> 6 % 64] =
      low 8 a ++ low 8 b ++ List.replicate 2 false := by
  rw [← bits_chunk] at h
  have hlen : (bitsOf 6 [n >>> 18 % 64, n >>> 12 % 64, n >>> 6 % 64]).length =
      (low 8 a ++ low 8 b ++ List.replicate 2 false).length := by simp
  have hcut : bitsOf 6 [n >>> 18 % 64, n >>> 12 % 64, n >>> 6 % 64] ++ bitsOf 6 [n % 64] =
      low 8 a ++ low 8 b ++ List.replicate 2 false ++ List.replicate 6 false := by
    rw [← bitsOf_append, append_assoc, append_assoc, replicate_append_replicate]
    exact h
  exact append_inj_left hcut hlen

/-- What the encoder writes: digits with the bits of the bytes, and zeros behind them. -/
structure Encoded (bs : List UInt8) (ds : List ℕ) (pad : ℕ) : Prop where
  text : base64Encode bs = base64Text ds pad
  digits : ∀ d ∈ ds, d < 64
  bits : bitsOf 6 ds = bitsOf 8 (octets bs) ++ List.replicate (2 * pad) false
  pad_le : pad ≤ 2
  length : ds.length + pad = (bs.length + 2) / 3 * 4

theorem encoded (bs : List UInt8) : ∃ ds pad, Encoded bs ds pad := by
  induction bs using base64Encode.induct with
  | case1 => exact ⟨[], 0, rfl, by simp, rfl, by decide, rfl⟩
  | case2 a =>
    refine ⟨[a.toNat <<< 16 >>> 18 % 64, a.toNat <<< 16 >>> 12 % 64], 2,
      ⟨rfl, ?_, ?_, by decide, by simp⟩⟩
    · simp only [mem_cons, not_mem_nil, or_false]
      rintro d (rfl | rfl) <;> exact Nat.mod_lt _ (by decide)
    · have hlow := low_chunk (a := a.toNat) (show 0 < 2 ^ 8 by decide) (show 0 < 2 ^ 8 by decide)
      rw [Nat.zero_shiftLeft, Nat.or_zero, Nat.or_zero, low_zero] at hlow
      rw [bits_one hlow]
      simp [octets]
  | case3 a b =>
    refine ⟨[(a.toNat <<< 16 ||| b.toNat <<< 8) >>> 18 % 64,
      (a.toNat <<< 16 ||| b.toNat <<< 8) >>> 12 % 64,
      (a.toNat <<< 16 ||| b.toNat <<< 8) >>> 6 % 64], 1, ⟨rfl, ?_, ?_, by decide, by simp⟩⟩
    · simp only [mem_cons, not_mem_nil, or_false]
      rintro d (rfl | rfl | rfl) <;> exact Nat.mod_lt _ (by decide)
    · have hlow := low_chunk (a := a.toNat) b.toNat_lt (show 0 < 2 ^ 8 by decide)
      rw [Nat.or_zero, low_zero] at hlow
      rw [bits_two hlow]
      simp [octets]
  | case4 a b c rest ih =>
    obtain ⟨ds, pad, h⟩ := ih
    refine ⟨(a.toNat <<< 16 ||| b.toNat <<< 8 ||| c.toNat) >>> 18 % 64 ::
      (a.toNat <<< 16 ||| b.toNat <<< 8 ||| c.toNat) >>> 12 % 64 ::
      (a.toNat <<< 16 ||| b.toNat <<< 8 ||| c.toNat) >>> 6 % 64 ::
      (a.toNat <<< 16 ||| b.toNat <<< 8 ||| c.toNat) % 64 :: ds, pad, ⟨?_, ?_, ?_, h.pad_le, ?_⟩⟩
    · rw [base64Encode, h.text]
      rfl
    · intro d hd
      simp only [mem_cons] at hd
      rcases hd with rfl | rfl | rfl | rfl | hd
      · exact Nat.mod_lt _ (by decide)
      · exact Nat.mod_lt _ (by decide)
      · exact Nat.mod_lt _ (by decide)
      · exact Nat.mod_lt _ (by decide)
      · exact h.digits d hd
    · have hbits := bits_chunk (a.toNat <<< 16 ||| b.toNat <<< 8 ||| c.toNat)
      rw [low_chunk b.toNat_lt c.toNat_lt] at hbits
      simp only [bitsOf_cons, bitsOf_nil, append_nil] at hbits
      simp only [bitsOf_cons, octets, map_cons]
      rw [h.bits, ← append_assoc, ← append_assoc, ← append_assoc]
      rw [← append_assoc, ← append_assoc] at hbits
      rw [hbits]
      simp [octets]
    · have hlength := h.length
      simp only [length_cons]
      omega

/-! ### Decoding -/

variable {ds : List ℕ} {s : Acc}

/-- Digits that are read give their bits in bytes; fewer than eight are left over. -/
theorem loop_text (hds : ∀ d ∈ ds, d < 64) (pad padding : ℕ)
    (hpad : padding + pad ≤ 2) (hnone : padding ≠ 0 → ds = []) (hs : s.bits < 8) :
    ∃ bs r, base64Loop (base64Text ds pad) s padding = some bs ∧
      s.pending ++ bitsOf 6 ds = bitsOf 8 (octets bs) ++ r ∧ r.length < 8 := by
  induction ds generalizing s with
  | nil =>
    refine ⟨[], s.pending, ?_, by simp [octets], by rwa [Acc.length_pending]⟩
    clear hnone hds
    induction pad generalizing padding with
    | zero => rfl
    | succ pad ih =>
      show base64Loop ('=' :: List.replicate pad '=') s padding = _
      rw [base64Loop, if_pos rfl, if_neg (by rw [length_replicate]; omega)]
      exact ih (padding + 1) (by omega)
  | cons d ds ih =>
    obtain rfl : padding = 0 := by
      by_contra hne
      cases hnone hne
    have hd := hds d mem_cons_self
    have hrest := fun x hx => hds x (mem_cons_of_mem _ hx)
    have hpush := Acc.pending_push (s := s) (a := 6) (v := d) (by omega) hd
    show ∃ bs r, base64Loop (base64Digit d :: base64Text ds pad) s 0 = some bs ∧ _
    rw [base64Loop, if_neg (base64Digit_ne_pad hd), if_neg (fun h => h rfl), base64Value_digit hd]
    dsimp only
    by_cases hready : 8 ≤ (s.push 6 d).bits
    · rw [if_pos hready]
      obtain ⟨bs, r, hloop, hbits, hr⟩ := ih hrest (fun h => absurd rfl h)
        (s := (s.push 6 d).take 8) (by rw [Acc.bits_take, Acc.bits_push]; omega)
      refine ⟨UInt8.ofNat ((s.push 6 d).peek 8) :: bs, r, by rw [hloop]; rfl, ?_, hr⟩
      have hpeek := Acc.peek_lt (s.push 6 d) 8
      have hbyte : (UInt8.ofNat ((s.push 6 d).peek 8)).toNat = (s.push 6 d).peek 8 := by
        rw [UInt8.toNat_ofNat']
        exact Nat.mod_eq_of_lt hpeek
      have hoctets : octets (UInt8.ofNat ((s.push 6 d).peek 8) :: bs) =
          (s.push 6 d).peek 8 :: octets bs := by
        unfold octets
        rw [map_cons, hbyte]
      rw [hoctets, bitsOf_cons, bitsOf_cons, ← append_assoc, ← hpush,
        Acc.pending_split hready, append_assoc, append_assoc, hbits]
    · rw [if_neg hready]
      obtain ⟨bs, r, hloop, hbits, hr⟩ := ih hrest (fun h => absurd rfl h)
        (s := s.push 6 d) (by omega)
      refine ⟨bs, r, hloop, ?_, hr⟩
      rw [bitsOf_cons, ← append_assoc, ← hpush, hbits]

/-- A text that is read is digits, with padding behind them. -/
theorem text_of_loop {cs : List Char} {padding : ℕ}
    (h : base64Loop cs s padding = some bs) (hpadding : padding ≤ 2) :
    ∃ ds pad, cs = base64Text ds pad ∧ (∀ d ∈ ds, d < 64) ∧ padding + pad ≤ 2 ∧
      (padding ≠ 0 → ds = []) := by
  induction cs generalizing s padding bs with
  | nil => exact ⟨[], 0, rfl, by simp, by omega, fun _ => rfl⟩
  | cons c cs ih =>
    unfold base64Loop at h
    split at h
    · next hc =>
      obtain ⟨hcond, h⟩ := Outcome.passed h nofun
      obtain ⟨ds, pad, hcs, hds, hpad, hnone⟩ := ih h (by omega)
      have hnil := hnone (by omega)
      refine ⟨[], pad + 1, ?_, by simp, by omega, fun _ => rfl⟩
      rw [hc, hcs, hnil]
      rfl
    · obtain ⟨hpad0, h⟩ := Outcome.passed h nofun
      obtain rfl : padding = 0 := not_not.mp hpad0
      split at h
      · cases h
      rename_i v hvalue
      obtain ⟨hv, hc⟩ := base64Value_eq_some hvalue
      have hih : ∃ ds pad, cs = base64Text ds pad ∧ (∀ d ∈ ds, d < 64) ∧ pad ≤ 2 := by
        dsimp only at h
        split at h
        · obtain ⟨bs', hloop, -⟩ := map_eq_some_iff.mp h
          obtain ⟨ds, pad, hcs, hds, hpad, -⟩ := ih hloop (by omega)
          exact ⟨ds, pad, hcs, hds, by omega⟩
        · obtain ⟨ds, pad, hcs, hds, hpad, -⟩ := ih h (by omega)
          exact ⟨ds, pad, hcs, hds, by omega⟩
      obtain ⟨ds, pad, hcs, hds, hpad⟩ := hih
      refine ⟨v :: ds, pad, by rw [hc, hcs]; rfl, ?_, by omega, fun hne => absurd rfl hne⟩
      intro d hd
      rcases mem_cons.mp hd with rfl | hd
      · exact hv
      · exact hds d hd

/-! ### Both directions -/

/-- What a text is that is accepted. -/
structure Decoded (text : List Char) (bs : List UInt8) (ds : List ℕ) (pad : ℕ) (r : List Bool) :
    Prop where
  text : text = base64Text ds pad
  digits : ∀ d ∈ ds, d < 64
  pad_le : pad ≤ 2
  length : (ds.length + pad) % 4 = 0 ∧ 0 < ds.length + pad
  bits : bitsOf 6 ds = bitsOf 8 (octets bs) ++ r
  rest : r.length < 8

variable {text : List Char}

theorem decoded (h : base64Decode text = some bs) : ∃ ds pad r, Decoded text bs ds pad r := by
  unfold base64Decode at h
  obtain ⟨hcond, h⟩ := Outcome.passed h nofun
  simp only [not_or, not_not] at hcond
  obtain ⟨ds, pad, htext, hds, hpad, -⟩ := text_of_loop h (by decide)
  rw [Nat.zero_add] at hpad
  obtain ⟨bs', r, hloop, hbits, hr⟩ := loop_text hds pad 0 (by omega)
    (fun hne => absurd rfl hne) (s := {}) (by decide)
  rw [← htext, h] at hloop
  obtain rfl := some.inj hloop
  rw [htext, length_base64Text] at hcond
  exact ⟨ds, pad, r, htext, hds, hpad, ⟨hcond.2.1, by omega⟩, hbits, hr⟩

/-- **What is encoded is decoded**, if it is there and not too long. -/
theorem decode_encode (bs : List UInt8) : base64Decode (base64Encode bs) = some bs ↔
    bs ≠ [] ∧ (bs.length + 2) / 3 * 4 ≤ CLOUD_FRAME_MAX := by
  obtain ⟨ds, pad, henc⟩ := encoded bs
  have hlength : (base64Encode bs).length = (bs.length + 2) / 3 * 4 := by
    rw [henc.text, length_base64Text, henc.length]
  have hnil : bs ≠ [] ↔ bs.length ≠ 0 := length_eq_zero_iff.not.symm
  unfold base64Decode
  rw [hlength]
  split
  · next hcond =>
    refine iff_of_false (by simp) ?_
    rw [hnil]
    omega
  · next hcond =>
    obtain ⟨bs', r, hloop, hbits, hr⟩ := loop_text henc.digits pad 0
      (by have := henc.pad_le; omega) (fun hne => absurd rfl hne) (s := {}) (by decide)
    replace hbits : bitsOf 6 ds = bitsOf 8 (octets bs') ++ r := hbits
    rw [henc.bits] at hbits
    have hzeros : (List.replicate (2 * pad) false).length < 8 := by
      have hpad := henc.pad_le
      rw [length_replicate]
      omega
    obtain ⟨hoctets, -⟩ := bitsOf_append_inj (fun d hd => octets_lt hd) (fun d hd => octets_lt hd)
      hzeros hr hbits
    rw [henc.text, hloop, ← octets_injective hoctets]
    refine iff_of_true rfl ?_
    rw [hnil]
    omega

/-- The bits of the last digit that no byte has. -/
def spareBits (text : List Char) : ℕ :=
  let pad := text.count '='
  (base64Value (text.getD (text.length - 1 - pad) 'A')).getD 0 % 4 ^ pad

theorem digits_of_text (hds : ∀ d ∈ ds, d < 64) :
    (ds.map base64Digit).map (fun c => (base64Value c).getD 0) = ds := by
  rw [List.map_map]
  conv_rhs => rw [← List.map_id ds]
  apply map_congr_left
  intro d hd
  rw [Function.comp_apply, base64Value_digit (hds d hd)]
  rfl

variable {pad : ℕ}

theorem base64Text_inj {ds es : List ℕ} (hds : ∀ d ∈ ds, d < 64) (hes : ∀ e ∈ es, e < 64)
    (h : base64Text ds pad = base64Text es pad) : ds = es := by
  have hdigits := append_cancel_right h
  rw [← digits_of_text hds, hdigits, digits_of_text hes]

theorem spareBits_text {d : ℕ} (hds : ∀ x ∈ ds ++ [d], x < 64) :
    spareBits (base64Text (ds ++ [d]) pad) = d % 4 ^ pad := by
  have hd := hds d (by simp)
  have hcount : (base64Text (ds ++ [d]) pad).count '=' = pad := by
    unfold base64Text
    rw [count_append, count_replicate_self, count_eq_zero.mpr, Nat.zero_add]
    intro hmem
    obtain ⟨x, hx, heq⟩ := List.mem_map.mp hmem
    exact base64Digit_ne_pad (hds x hx) heq
  unfold spareBits
  dsimp only
  rw [hcount, length_base64Text, length_append, length_singleton,
    show ds.length + 1 + pad - 1 - pad = ds.length by omega]
  unfold base64Text
  rw [map_append, append_assoc, getD_append_right _ _ _ _ (by simp), length_map, Nat.sub_self]
  show (base64Value (base64Digit d)).getD 0 % _ = _
  rw [base64Value_digit hd, getD_some]

/-- **What is decoded is encoded again where the spare bits are clear**, and only there. -/
theorem encode_decode (h : base64Decode text = some bs) :
    base64Encode bs = text ↔ spareBits text = 0 := by
  obtain ⟨ds, pad, r, hdec⟩ := decoded h
  obtain ⟨es, q, henc⟩ := encoded bs
  obtain ⟨htext, hds, hpad, hlength, hbits, hr⟩ := hdec
  have hq := henc.pad_le
  have hlength' := henc.length
  have hcount := congrArg List.length hbits
  have hcount' := congrArg List.length henc.bits
  simp only [length_append, length_bitsOf, length_replicate, octets, length_map]
    at hcount hcount'
  -- the lengths of the digits and of the padding follow from the number of bytes
  have hsame : q = pad ∧ r.length = 2 * pad ∧ 0 < ds.length := by
    obtain ⟨hmod, hpos⟩ := hlength
    obtain ⟨k, hk⟩ : ∃ k, ds.length + pad = 4 * k := ⟨(ds.length + pad) / 4, by omega⟩
    rcases (by omega : pad = 0 ∨ pad = 1 ∨ pad = 2) with rfl | rfl | rfl <;>
      rcases (by omega : q = 0 ∨ q = 1 ∨ q = 2) with rfl | rfl | rfl <;> omega
  obtain ⟨rfl, hrest, hpos⟩ := hsame
  obtain ⟨front, d, rfl⟩ : ∃ front d, ds = front ++ [d] := by
    rcases eq_nil_or_concat ds with hnil | ⟨front, d, hds⟩
    · rw [hnil] at hpos
      exact absurd hpos (Nat.lt_irrefl 0)
    · exact ⟨front, d, by rw [hds, concat_eq_append]⟩
  have hspare : r = low (2 * q) d := by
    have hlow := low_append (6 - 2 * q) (2 * q) d
    rw [show 6 - 2 * q + 2 * q = 6 by omega] at hlow
    rw [bitsOf_append, bitsOf_cons, bitsOf_nil, append_nil, hlow, ← append_assoc] at hbits
    exact (append_inj_right' hbits (by rw [length_low, hrest])).symm
  rw [htext, spareBits_text hds, henc.text]
  have hpow : 4 ^ q = 2 ^ (2 * q) := by rw [Nat.pow_mul]
  rw [hpow, ← low_eq_replicate_iff, ← hspare]
  constructor
  · intro heq
    have hes := base64Text_inj henc.digits hds heq
    have hb := henc.bits
    rw [hes, hbits] at hb
    exact append_cancel_left hb
  · intro heq
    rw [heq, ← henc.bits] at hbits
    rw [bitsOf_inj (by decide) hds henc.digits hbits]

/-! ### The decoder on bytes -/

/-- The characters of some bytes. -/
def characters (text : List UInt8) : List Char := text.map fun c => Char.ofNat c.toNat

theorem base64Value_byte (c : UInt8) :
    (Cloud.base64Value c).map UInt32.toNat = base64Value (Char.ofNat c.toNat) := by
  have hall : ∀ n < 256, (Cloud.base64Value (UInt8.ofNat n)).map UInt32.toNat =
      base64Value (Char.ofNat n) := by decide +kernel
  have hc := hall c.toNat c.toNat_lt
  rwa [UInt8.ofNat_toNat] at hc

theorem pad_byte (c : UInt8) : Char.ofNat c.toNat = '=' ↔ c = 0x3d := by
  have hall : ∀ n < 256, Char.ofNat n = '=' ↔ UInt8.ofNat n = 0x3d := by decide +kernel
  have hc := hall c.toNat c.toNat_lt
  rwa [UInt8.ofNat_toNat] at hc

theorem base64Loop_bytes (text : List UInt8) (accumulator : UInt32) {bits : ℕ} (padding : ℕ)
    (hbits : bits < 8) :
    Cloud.base64Loop text accumulator bits padding =
      base64Loop (characters text) ⟨accumulator.toNat, bits⟩ padding := by
  induction text generalizing accumulator bits padding with
  | nil => rfl
  | cons c text ih =>
    unfold Cloud.base64Loop characters
    rw [map_cons, base64Loop, length_map]
    by_cases hpad : c = 0x3d
    · rw [if_pos hpad, if_pos ((pad_byte c).mpr hpad)]
      exact if_congr Iff.rfl rfl (ih accumulator (padding + 1) hbits)
    rw [if_neg hpad, if_neg (fun h => hpad ((pad_byte c).mp h))]
    refine if_congr Iff.rfl rfl ?_
    have hvalue := base64Value_byte c
    cases hread : Cloud.base64Value c with
    | none =>
      rw [hread] at hvalue
      rw [← hvalue]
      rfl
    | some value =>
      rw [hread] at hvalue
      rw [← hvalue]
      simp only [map_some]
      have hpush : (⟨accumulator.toNat, bits⟩ : Acc).push 6 value.toNat =
          ⟨(accumulator <<< 6 ||| value).toNat, bits + 6⟩ := by
        unfold Acc.push
        rw [UInt32.toNat_or, UInt32.toNat_shiftLeft, Nat.or_mod_two_pow,
          Nat.mod_eq_of_lt value.toNat_lt]
        rfl
      rw [hpush]
      by_cases hfull : 8 ≤ bits + 6
      · rw [if_pos hfull, if_pos hfull, ih _ padding (by omega)]
        have hmod : (UInt32.ofNat (bits + 6 - 8)).toNat % 32 = bits + 6 - 8 := by
          rw [UInt32.toNat_ofNat']
          omega
        have hbyte : ∀ a : UInt32, ((a >>> UInt32.ofNat (bits + 6 - 8)) &&& 0xff).toUInt8 =
              UInt8.ofNat ((⟨a.toNat, bits + 6⟩ : Acc).peek 8) := by
          intro a
          have hmask : (0xff : UInt32).toNat = 2 ^ 8 - 1 := rfl
          apply UInt8.toNat_inj.mp
          rw [UInt32.toNat_toUInt8, UInt32.toNat_and, UInt32.toNat_shiftRight, hmod, hmask,
            Nat.and_two_pow_sub_one_eq_mod, UInt8.toNat_ofNat']
          rfl
        rw [hbyte]
        rfl
      · rw [if_neg hfull, if_neg hfull]
        exact ih _ padding (by omega)

theorem base64Decode_bytes (text : List UInt8) :
    Cloud.base64Decode text = base64Decode (characters text) := by
  have hnil : text = [] ↔ (characters text).length = 0 := by
    unfold characters
    rw [length_map, length_eq_zero_iff]
  unfold Cloud.base64Decode base64Decode
  refine if_congr (or_congr hnil ?_) rfl (base64Loop_bytes text 0 0 (by decide))
  unfold characters
  rw [length_map]

/-- **The text form is canonical**, up to the spare bits of the last digit and to the longest
    text. -/
theorem base64_canonical (bs : List UInt8) (text : List Char) :
    (base64Decode (base64Encode bs) = some bs ↔
        bs ≠ [] ∧ (bs.length + 2) / 3 * 4 ≤ CLOUD_FRAME_MAX) ∧
      (base64Decode text = some bs → (base64Encode bs = text ↔ spareBits text = 0)) :=
  ⟨decode_encode bs, encode_decode⟩

/-- Two texts that decode to one byte. -/
theorem spare_bits_ignored : base64Decode "QQ==".toList = some [65] ∧
    base64Decode "QR==".toList = some [65] ∧ base64Encode [65] ≠ "QR==".toList := by
  decide

end DreamingOS.Cloud.Base64
