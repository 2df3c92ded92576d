import DreamingOS.Lib.BitGroups

namespace DreamingOS.Paircode

open BitGroups List

/-!
# Pairing codes — base32

The text form of a payload, from `apd_paircode.c`: five bits a character, without padding.

* `b32Encode`, `b32Decode` — the two directions, each with the size of the buffer it writes to;
* `b32Encode_spec` — the characters have the bits of the bytes, and up to four zeros behind them;
* `b32Decode_eq`, `b32Decode_spec` — the bytes have the bits of the characters, and up to seven
  bits are dropped.
-/

/-- What the functions return instead of `APD_PAIRCODE_OK`. -/
inductive Result
  | errArg
  | errPrefix
  | errFormat
  | errChecksum
  | errSchema
  | errField
  | errSpace
deriving DecidableEq

/-- The bytes of a literal. -/
def ascii (s : String) : List UInt8 := s.toList.map Char.toUInt8

/-- `apd_pc_alphabet`. -/
def alphabet : List UInt8 := ascii "ABCDEFGHIJKLMNOPQRSTUVWXYZ234567"

def b32Digit (v : ℕ) : UInt8 := alphabet.getD v 0

/-- `out[o++] = apd_pc_alphabet[v]`, with room for the terminator behind it. -/
def b32Put (outSize : ℕ) (out : List UInt8) (v : ℕ) : Except Result (List UInt8) :=
  if out.length + 1 ≥ outSize then .error .errSpace else .ok (out ++ [b32Digit v])

/-- `while (bits >= 5)`; each turn takes five bits off. -/
def b32Drain (outSize : ℕ) : ℕ → Acc → List UInt8 → Except Result (Acc × List UInt8)
  | 0, s, out => .ok (s, out)
  | turns + 1, s, out =>
    if s.bits ≥ 5 then do
      let out ← b32Put outSize out (s.peek 5)
      b32Drain outSize turns (s.take 5) out
    else .ok (s, out)

/-- The loop over the bytes. -/
def b32EncodeLoop (outSize : ℕ) : List UInt8 → Acc → List UInt8 → Except Result (Acc × List UInt8)
  | [], s, out => .ok (s, out)
  | b :: bs, s, out => do
    let s := s.push 8 b.toNat
    let (s, out) ← b32Drain outSize s.bits s out
    b32EncodeLoop outSize bs s out

/-- `apd_pc_b32_encode`. -/
def b32Encode (outSize : ℕ) (bs : List UInt8) : Except Result (List UInt8) :=
  if outSize = 0 then .error .errArg
  else do
    let (s, out) ← b32EncodeLoop outSize bs {} []
    if s.bits > 0 then b32Put outSize out ((s.push (5 - s.bits) 0).peek 5) else .ok out

/-- `apd_pc_b32_value`. -/
def b32Value (c : UInt8) : Option ℕ :=
  if 'A'.toUInt8 ≤ c ∧ c ≤ 'Z'.toUInt8 then some (c - 'A'.toUInt8).toNat
  else if 'a'.toUInt8 ≤ c ∧ c ≤ 'z'.toUInt8 then some (c - 'a'.toUInt8).toNat
  else if '2'.toUInt8 ≤ c ∧ c ≤ '7'.toUInt8 then some ((c - '2'.toUInt8).toNat + 26)
  else none

/-- The loop over the characters. -/
def b32DecodeLoop (outSize : ℕ) : List UInt8 → Acc → List UInt8 → Except Result (List UInt8)
  | [], _, out => .ok out
  | c :: cs, s, out =>
    match b32Value c with
    | none => .error .errFormat
    | some v =>
      let s := s.push 5 v
      if s.bits ≥ 8 then
        if out.length ≥ outSize then .error .errSpace
        else b32DecodeLoop outSize cs (s.take 8) (out ++ [UInt8.ofNat (s.peek 8)])
      else b32DecodeLoop outSize cs s out

/-- `apd_pc_b32_decode`. -/
def b32Decode (outSize : ℕ) (cs : List UInt8) : Except Result (List UInt8) :=
  b32DecodeLoop outSize cs {} []

/-! ### Digits -/

theorem b32Value_digit {v : ℕ} (h : v < 32) : b32Value (b32Digit v) = some v := by
  revert v
  decide +kernel

theorem b32Value_lt {c : UInt8} {v : ℕ} (h : b32Value c = some v) : v < 32 := by
  have hall : ∀ n < 256, ∀ v ∈ b32Value (UInt8.ofNat n), v < 32 := by decide +kernel
  refine hall c.toNat c.toNat_lt v ?_
  rw [UInt8.ofNat_toNat]
  exact h

/-- The bits of some bytes. -/
def byteBits (bs : List UInt8) : List Bool := bitsOf 8 (bs.map UInt8.toNat)

@[simp] theorem byteBits_nil : byteBits [] = [] := rfl

@[simp] theorem byteBits_cons (b : UInt8) (bs : List UInt8) :
    byteBits (b :: bs) = low 8 b.toNat ++ byteBits bs := bitsOf_cons ..

@[simp] theorem length_byteBits (bs : List UInt8) : (byteBits bs).length = bs.length * 8 := by
  unfold byteBits
  rw [length_bitsOf, length_map]

theorem toNat_lt_of_mem_map {bs : List UInt8} {n : ℕ} (h : n ∈ bs.map UInt8.toNat) : n < 2 ^ 8 := by
  obtain ⟨b, -, rfl⟩ := List.mem_map.mp h
  exact b.toNat_lt

/-- Bytes and fewer than eight bits behind them are determined by the bits. -/
theorem byteBits_append_inj {bs cs : List UInt8} {r s : List Bool} (hr : r.length < 8)
    (hs : s.length < 8) (h : byteBits bs ++ r = byteBits cs ++ s) : bs = cs := by
  have hmap := (bitsOf_append_inj (fun _ => toNat_lt_of_mem_map) (fun _ => toNat_lt_of_mem_map)
    hr hs h).1
  exact map_injective_iff.mpr (fun _ _ => UInt8.toNat_inj.mp) hmap

/-! ### From bytes to characters -/

/-- The characters written so far and the bits pending are the bits read. -/
def Written (read : List Bool) (s : Acc) (out : List UInt8) : Prop :=
  ∃ ds, out = ds.map b32Digit ∧ (∀ d ∈ ds, d < 32) ∧ read = bitsOf 5 ds ++ s.pending

variable {out out' : List UInt8}

theorem b32Put_ok {outSize v : ℕ} (h : b32Put outSize out v = .ok out') :
    out' = out ++ [b32Digit v] := by
  unfold b32Put at h
  split at h
  · cases h
  · exact (Except.ok.inj h).symm

theorem length_b32Put {outSize v : ℕ}
    (h : b32Put outSize out v = .ok out') : out'.length < outSize := by
  unfold b32Put at h
  split at h
  · cases h
  cases h
  rw [length_append, length_singleton]
  omega

variable {s s' : Acc}

theorem length_b32Drain {outSize turns : ℕ}
    (hlt : out.length < outSize) (h : b32Drain outSize turns s out = .ok (s', out')) :
    out'.length < outSize := by
  induction turns generalizing s out with
  | zero =>
    cases h
    exact hlt
  | succ turns ih =>
    unfold b32Drain at h
    split at h
    · cases hput : b32Put outSize out (s.peek 5) with
      | error e =>
        rw [hput] at h
        cases h
      | ok put =>
        rw [hput] at h
        exact ih (length_b32Put hput) h
    · cases h
      exact hlt

variable {outSize : ℕ}

theorem length_b32EncodeLoop {bs : List UInt8}
    (hlt : out.length < outSize) (h : b32EncodeLoop outSize bs s out = .ok (s', out')) :
    out'.length < outSize := by
  induction bs generalizing s out with
  | nil =>
    cases h
    exact hlt
  | cons b bs ih =>
    unfold b32EncodeLoop at h
    dsimp only at h
    cases hdrain : b32Drain outSize (s.push 8 b.toNat).bits (s.push 8 b.toNat) out with
    | error e =>
      rw [hdrain] at h
      cases h
    | ok drained =>
      rw [hdrain] at h
      exact ih (length_b32Drain hlt hdrain) h

variable {bs text : List UInt8}

/-- A text and its terminator fit into the buffer. -/
theorem length_b32Encode (h : b32Encode outSize bs = .ok text) : text.length < outSize := by
  unfold b32Encode at h
  split at h
  · cases h
  rename_i hpos
  cases hloop : b32EncodeLoop outSize bs {} [] with
  | error e =>
    rw [hloop] at h
    cases h
  | ok done =>
    rw [hloop] at h
    change (if done.1.bits > 0 then _ else _) = _ at h
    split at h
    · exact length_b32Put h
    cases h
    have hempty : ([] : List UInt8).length < outSize := Nat.pos_of_ne_zero hpos
    exact length_b32EncodeLoop hempty hloop

variable {read : List Bool}

theorem written_put {s : Acc} {out : List UInt8} (h : Written read s out)
    (hbits : 5 ≤ s.bits) : Written read (s.take 5) (out ++ [b32Digit (s.peek 5)]) := by
  obtain ⟨ds, rfl, hds, rfl⟩ := h
  refine ⟨ds ++ [s.peek 5], by rw [map_append]; rfl, ?_, ?_⟩
  · intro d hd
    rcases mem_append.mp hd with hd | hd
    · exact hds d hd
    · rw [mem_singleton.mp hd]
      exact s.peek_lt 5
  · rw [s.pending_split hbits, bitsOf_append, bitsOf_cons, bitsOf_nil, append_nil, append_assoc]

theorem written_drain {outSize turns : ℕ} (h : Written read s out) (hturns : s.bits ≤ turns)
    (hok : b32Drain outSize turns s out = .ok (s', out')) :
    Written read s' out' ∧ s'.bits < 5 := by
  induction turns generalizing s out with
  | zero =>
    cases hok
    exact ⟨h, by omega⟩
  | succ turns ih =>
    unfold b32Drain at hok
    split at hok
    · next hbits =>
      cases hput : b32Put outSize out (s.peek 5) with
      | error e =>
        rw [hput] at hok
        cases hok
      | ok put =>
        rw [hput] at hok
        obtain rfl := b32Put_ok hput
        refine ih (written_put h hbits) ?_ hok
        rw [Acc.bits_take]
        omega
    · cases hok
      exact ⟨h, by omega⟩

theorem written_loop {bs : List UInt8} (h : Written read s out) (hbits : s.bits < 5)
    (hok : b32EncodeLoop outSize bs s out = .ok (s', out')) :
    Written (read ++ byteBits bs) s' out' ∧ s'.bits < 5 := by
  induction bs generalizing s out read with
  | nil =>
    cases hok
    rw [byteBits_nil, append_nil]
    exact ⟨h, hbits⟩
  | cons b bs ih =>
    have hpush : Written (read ++ low 8 b.toNat) (s.push 8 b.toNat) out := by
      obtain ⟨ds, hout, hds, rfl⟩ := h
      refine ⟨ds, hout, hds, ?_⟩
      rw [Acc.pending_push (by omega) b.toNat_lt, append_assoc]
    unfold b32EncodeLoop at hok
    dsimp only at hok
    cases hdrain : b32Drain outSize (s.push 8 b.toNat).bits (s.push 8 b.toNat) out with
    | error e =>
      rw [hdrain] at hok
      cases hok
    | ok drained =>
      obtain ⟨t, mid⟩ := drained
      rw [hdrain] at hok
      obtain ⟨hmid, ht⟩ := written_drain hpush (Nat.le_refl _) hdrain
      have hrest := ih hmid ht hok
      rwa [append_assoc, ← byteBits_cons] at hrest

/-- **The characters have the bits of the bytes, and up to four zeros behind them.** -/
theorem b32Encode_spec (h : b32Encode outSize bs = .ok text) :
    ∃ ds k, text = ds.map b32Digit ∧ (∀ d ∈ ds, d < 32) ∧ k < 5 ∧
      bitsOf 5 ds = byteBits bs ++ List.replicate k false := by
  unfold b32Encode at h
  split at h
  · cases h
  cases hloop : b32EncodeLoop outSize bs {} [] with
  | error e =>
    rw [hloop] at h
    cases h
  | ok done =>
    obtain ⟨s, out⟩ := done
    rw [hloop] at h
    change (if s.bits > 0 then _ else _) = _ at h
    have hstart : Written [] {} [] := ⟨[], rfl, by simp, rfl⟩
    obtain ⟨hwritten, hbits⟩ := written_loop hstart (by decide) hloop
    rw [nil_append] at hwritten
    split at h
    · next hpos =>
      -- the bits left over are filled up with zeros
      obtain rfl := b32Put_ok h
      have hfilled : Written (byteBits bs ++ low (5 - s.bits) 0) (s.push (5 - s.bits) 0) out := by
        obtain ⟨ds, hout, hds, hread⟩ := hwritten
        refine ⟨ds, hout, hds, ?_⟩
        rw [Acc.pending_push (by omega) (Nat.two_pow_pos _), hread, append_assoc]
      have hfive : (s.push (5 - s.bits) 0).bits = 5 := by
        rw [Acc.bits_push]
        omega
      obtain ⟨ds, hout, hds, hread⟩ := written_put hfilled (by omega)
      have hempty : ((s.push (5 - s.bits) 0).take 5).pending = [] := by
        apply length_eq_zero_iff.mp
        rw [Acc.length_pending, Acc.bits_take, hfive]
      rw [hempty, append_nil, low_zero] at hread
      exact ⟨ds, 5 - s.bits, hout, hds, by omega, hread.symm⟩
    · next hzero =>
      cases h
      obtain ⟨ds, hout, hds, hread⟩ := hwritten
      have hempty : s.pending = [] := by
        apply length_eq_zero_iff.mp
        rw [Acc.length_pending]
        omega
      rw [hempty, append_nil] at hread
      exact ⟨ds, 0, hout, hds, by omega, by rw [hread, replicate_zero, append_nil]⟩

/-! ### From characters to bytes -/

/-- The characters stand for the digits. -/
def Reads (cs : List UInt8) (ds : List ℕ) : Prop := cs.map b32Value = ds.map some

variable {ds : List ℕ}

theorem reads_digits (h : ∀ d ∈ ds, d < 32) : Reads (ds.map b32Digit) ds := by
  unfold Reads
  rw [List.map_map]
  exact map_congr_left fun d hd => b32Value_digit (h d hd)

theorem Reads.length {cs : List UInt8} (h : Reads cs ds) : cs.length = ds.length := by
  have hlength := congrArg List.length h
  rwa [length_map, length_map] at hlength

theorem b32DecodeLoop_eq {cs bs out : List UInt8} {s : Acc}
    {r : List Bool} (hreads : Reads cs ds) (hbits : s.bits < 8) (hr : r.length < 8)
    (h : s.pending ++ bitsOf 5 ds = byteBits bs ++ r) (hroom : out.length + bs.length ≤ outSize) :
    b32DecodeLoop outSize cs s out = .ok (out ++ bs) := by
  induction cs generalizing ds bs out s with
  | nil =>
    obtain rfl := length_eq_zero_iff.mp hreads.length.symm
    have hlength := congrArg List.length h
    simp only [length_append, Acc.length_pending, bitsOf_nil, length_nil,
      length_byteBits] at hlength
    obtain rfl := length_eq_zero_iff.mp (show bs.length = 0 by omega)
    rw [append_nil]
    rfl
  | cons c cs ih =>
    obtain _ | ⟨d, ds⟩ := ds
    · cases hreads
    unfold Reads at hreads
    rw [map_cons, map_cons, List.cons.injEq] at hreads
    obtain ⟨hc, hcs⟩ := hreads
    have hpush : (s.push 5 d).pending = s.pending ++ low 5 d :=
      Acc.pending_push (by omega) (b32Value_lt hc)
    rw [bitsOf_cons, ← append_assoc, ← hpush] at h
    unfold b32DecodeLoop
    rw [hc]
    dsimp only
    by_cases height : (s.push 5 d).bits ≥ 8
    · rw [if_pos height]
      rw [Acc.pending_split height, append_assoc] at h
      obtain _ | ⟨b, bs⟩ := bs
      · have hlength := congrArg List.length h
        simp only [length_append, length_low, byteBits_nil, length_nil] at hlength
        omega
      rw [byteBits_cons, append_assoc] at h
      obtain ⟨hfirst, hrest⟩ := append_inj h (by rw [length_low, length_low])
      have hb : UInt8.ofNat ((s.push 5 d).peek 8) = b := by
        rw [low_injective (Acc.peek_lt _ 8) b.toNat_lt hfirst, UInt8.ofNat_toNat]
      rw [length_cons] at hroom
      rw [if_neg (by omega), hb, ih hcs ?_ hrest ?_, append_assoc]
      · rfl
      · rw [Acc.bits_take, Acc.bits_push]
        omega
      · rw [length_append, length_singleton]
        omega
    · rw [if_neg height]
      exact ih hcs (by omega) h hroom

/-- **The bytes have the bits of the characters, but for less than a byte.** -/
theorem b32Decode_eq {cs bs : List UInt8} {r : List Bool}
    (hreads : Reads cs ds) (hr : r.length < 8) (h : bitsOf 5 ds = byteBits bs ++ r)
    (hroom : bs.length ≤ outSize) : b32Decode outSize cs = .ok bs :=
  b32DecodeLoop_eq hreads (by decide) hr (by rw [← h]; rfl) (by simpa using hroom)

theorem b32DecodeLoop_ok {cs out all : List UInt8} {s : Acc} (hbits : s.bits < 8)
    (h : b32DecodeLoop outSize cs s out = .ok all) :
    ∃ ds bs r, Reads cs ds ∧ all = out ++ bs ∧ r.length < 8 ∧
      s.pending ++ bitsOf 5 ds = byteBits bs ++ r := by
  induction cs generalizing s out with
  | nil =>
    cases h
    refine ⟨[], [], s.pending, rfl, by rw [append_nil], ?_, ?_⟩
    · rw [Acc.length_pending]
      exact hbits
    · rw [bitsOf_nil, append_nil]
      rfl
  | cons c cs ih =>
    unfold b32DecodeLoop at h
    cases hc : b32Value c with
    | none =>
      rw [hc] at h
      cases h
    | some d =>
      rw [hc] at h
      dsimp only at h
      have hpush : (s.push 5 d).pending = s.pending ++ low 5 d :=
        Acc.pending_push (by omega) (b32Value_lt hc)
      split at h
      · next height =>
        split at h
        · cases h
        have htake : ((s.push 5 d).take 8).bits < 8 := by
          rw [Acc.bits_take, Acc.bits_push]
          omega
        obtain ⟨ds, bs, r, hreads, hall, hr, hread⟩ := ih htake h
        refine ⟨d :: ds, UInt8.ofNat ((s.push 5 d).peek 8) :: bs, r, ?_, ?_, hr, ?_⟩
        · unfold Reads
          rw [map_cons, map_cons, hc, hreads]
        · rw [hall, append_assoc]
          rfl
        · have hbyte : (UInt8.ofNat ((s.push 5 d).peek 8)).toNat = (s.push 5 d).peek 8 := by
            rw [UInt8.toNat_ofNat']
            exact Nat.mod_eq_of_lt (Acc.peek_lt _ 8)
          rw [bitsOf_cons, ← append_assoc, ← hpush, Acc.pending_split height, byteBits_cons,
            hbyte, append_assoc, append_assoc, hread]
      · next hless =>
        obtain ⟨ds, bs, r, hreads, hall, hr, hread⟩ := ih (by omega) h
        refine ⟨d :: ds, bs, r, ?_, hall, hr, ?_⟩
        · unfold Reads
          rw [map_cons, map_cons, hc, hreads]
        · rw [bitsOf_cons, ← append_assoc, ← hpush, hread]

/-- **What is decoded consists of digits, and its bytes have their bits.** -/
theorem b32Decode_spec {cs bs : List UInt8} (h : b32Decode outSize cs = .ok bs) :
    ∃ ds r, Reads cs ds ∧ r.length < 8 ∧ bitsOf 5 ds = byteBits bs ++ r := by
  obtain ⟨ds, bs', r, hreads, hall, hr, hread⟩ := b32DecodeLoop_ok (by decide) h
  rw [nil_append] at hall
  subst hall
  exact ⟨ds, r, hreads, hr, hread⟩

/-- What was encoded is decoded. -/
theorem b32Decode_encode {outSize room : ℕ}
    (h : b32Encode outSize bs = .ok text) (hroom : bs.length ≤ room) :
    b32Decode room text = .ok bs := by
  obtain ⟨ds, k, rfl, hds, hk, hbits⟩ := b32Encode_spec h
  refine b32Decode_eq (reads_digits hds) ?_ hbits hroom
  rw [length_replicate]
  omega

end DreamingOS.Paircode
