import DreamingOS.Lib.Crc
import DreamingOS.Paircode.Base32

namespace DreamingOS.Paircode

open List

/-!
# Pairing codes — the frame

A code is a marker, the payload in base32 and its checksum in base32, with dots between them.

* `crc32`, `crc32_eq` — the checksum, a cyclic redundancy check of 32 bits;
* `finish_spec`, `openCode_eq` — a text and its parts;
* `openCode_finish` — a code is opened to the payload it was made of.
-/

def APD_PAIRCODE_SCHEMA : UInt8 := 1
def APD_PAIRCODE_PAYLOAD_MAX : ℕ := 320
def APD_PAIRCODE_CRC_CHARS : ℕ := 7
def APD_PAIRCODE_MAX : ℕ := 512

/-- `'.'`. -/
def dot : UInt8 := '.'.toUInt8

/-! ### The checksum -/

/-- One turn of the inner loop of `apd_pc_crc32`. -/
def crcTurn (crc : BitVec 32) : BitVec 32 := (crc >>> 1) ^^^ (0xedb88320#32 &&& -(crc &&& 1#32))

def crcTurns : ℕ → BitVec 32 → BitVec 32
  | 0, crc => crc
  | k + 1, crc => crcTurns k (crcTurn crc)

/-- `apd_pc_crc32`. -/
def crc32 (data : List UInt8) : BitVec 32 :=
  ~~~ data.foldl (fun crc b => crcTurns 8 (crc ^^^ BitVec.ofNat 32 b.toNat)) 0xffffffff#32

/-- The four bytes of a checksum, the highest first. -/
def crcBytes (crc : BitVec 32) : List UInt8 :=
  [UInt8.ofNat (crc >>> 24).toNat, UInt8.ofNat (crc >>> 16).toNat, UInt8.ofNat (crc >>> 8).toNat,
    UInt8.ofNat crc.toNat]

/-! ### The writer -/

/-- `struct apd_pc_writer`. -/
structure Writer where
  data : List UInt8
  overflow : Bool
  fits : data.length ≤ APD_PAIRCODE_PAYLOAD_MAX

def Writer.empty : Writer := ⟨[], false, Nat.zero_le _⟩

/-- `apd_pc_put_byte`. -/
def putByte (w : Writer) (value : UInt8) : Writer :=
  if h : w.data.length ≥ APD_PAIRCODE_PAYLOAD_MAX then { w with overflow := true }
  else
    { w with
      data := w.data ++ [value]
      fits := by
        rw [length_append, length_singleton]
        omega }

/-! ### The text -/

/-- `apd_pc_finish`. -/
def finish (marker : List UInt8) (w : Writer) (outSize : ℕ) : Except Result (List UInt8) :=
  if w.overflow then .error .errSpace
  else do
    let body ← b32Encode APD_PAIRCODE_MAX w.data
    let crcText ← b32Encode (APD_PAIRCODE_CRC_CHARS + 1) (crcBytes (crc32 w.data))
    let text := marker ++ dot :: (body ++ dot :: crcText)
    if text.length ≥ outSize then .error .errSpace else .ok text

/-- `strrchr`: what is in front of the last such byte, and what is behind it. -/
def splitLast (c : UInt8) : List UInt8 → Option (List UInt8 × List UInt8)
  | [] => none
  | x :: xs =>
    match splitLast c xs with
    | some (front, back) => some (x :: front, back)
    | none => if x = c then some ([], xs) else none

/-- The second half of `apd_pc_open`: the payload of a body and a checksum. -/
def openParts (body crcText : List UInt8) (payloadSize : ℕ) : Except Result (List UInt8) :=
  if body = [] then .error .errFormat
  else if body.length ≥ APD_PAIRCODE_MAX then .error .errFormat
  else if crcText.length ≠ APD_PAIRCODE_CRC_CHARS then .error .errChecksum
  else do
    let payload ← b32Decode payloadSize body
    match b32Decode 8 crcText with
    | .error _ => .error .errChecksum
    | .ok bytes =>
      if bytes.length < 4 then .error .errChecksum
      else if bytes.take 4 ≠ crcBytes (crc32 payload) then .error .errChecksum
      else
        match payload with
        | [] => .error .errFormat
        | schema :: _ => if schema ≠ APD_PAIRCODE_SCHEMA then .error .errSchema else .ok payload

/-- `apd_pc_open`. -/
def openCode (marker text : List UInt8) (payloadSize : ℕ) : Except Result (List UInt8) :=
  if text.take marker.length ≠ marker ∨ text[marker.length]? ≠ some dot then .error .errPrefix
  else
    match splitLast dot (text.drop (marker.length + 1)) with
    | none => .error .errFormat
    | some (body, crcText) => openParts body crcText payloadSize

/-! ### The checksum as a redundancy check -/

theorem crcTurn_eq (crc : BitVec 32) : crcTurn crc = Crc.shift 0xedb88320#32 crc := by
  unfold crcTurn Crc.shift
  rw [BitVec.and_one_eq_setWidth_ofBool_getLsbD]
  cases crc.getLsbD 0 <;> rfl

theorem crcTurns_eq (k : ℕ) (crc : BitVec 32) :
    crcTurns k crc = Crc.shifts 0xedb88320#32 k crc := by
  induction k generalizing crc with
  | zero => rfl
  | succ k ih => rw [crcTurns, crcTurn_eq, ih, Crc.shifts]

theorem crc32_eq (data : List UInt8) :
    crc32 data = ~~~ Crc.run 0xedb88320#32 0xffffffff#32 data := by
  unfold crc32 Crc.run
  congr 2
  funext crc b
  exact crcTurns_eq 8 _

variable {bs : List UInt8}

/-- **Payloads of one length that differ in no more than four neighbouring bytes have different
    checksums.** -/
theorem eq_of_crc32_eq {cs : List UInt8} {q n : ℕ} (hn : n ≤ 4) (hlength : bs.length = cs.length)
    (hfront : bs.take q = cs.take q) (hback : bs.drop (q + n) = cs.drop (q + n))
    (h : crc32 bs = crc32 cs) : bs = cs := by
  rw [crc32_eq, crc32_eq] at h
  exact Crc.eq_of_run_eq (by decide) (by omega) hlength hfront hback (BitVec.not_inj.mp h)

theorem crcBytes_injective {x y : BitVec 32} (h : crcBytes x = crcBytes y) : x = y := by
  unfold crcBytes at h
  rw [List.cons.injEq, List.cons.injEq, List.cons.injEq, List.cons.injEq] at h
  obtain ⟨h3, h2, h1, h0, -⟩ := h
  replace h3 := congrArg UInt8.toNat h3
  replace h2 := congrArg UInt8.toNat h2
  replace h1 := congrArg UInt8.toNat h1
  replace h0 := congrArg UInt8.toNat h0
  simp only [UInt8.toNat_ofNat', BitVec.toNat_ushiftRight, Nat.shiftRight_eq_div_pow] at *
  apply BitVec.eq_of_toNat_eq
  have hx := x.isLt
  have hy := y.isLt
  omega

@[simp] theorem length_crcBytes (crc : BitVec 32) : (crcBytes crc).length = 4 := rfl

/-! ### Parts of a text -/

variable {c : UInt8}

theorem splitLast_eq_none {xs : List UInt8} (h : c ∉ xs) : splitLast c xs = none := by
  induction xs with
  | nil => rfl
  | cons x xs ih =>
    rw [mem_cons, not_or] at h
    rw [splitLast, ih h.2]
    exact if_neg (Ne.symm h.1)

theorem splitLast_append (front : List UInt8) {back : List UInt8} (h : c ∉ back) :
    splitLast c (front ++ c :: back) = some (front, back) := by
  induction front with
  | nil =>
    rw [nil_append, splitLast, splitLast_eq_none h]
    exact if_pos rfl
  | cons x front ih => rw [cons_append, splitLast, ih]

theorem dot_not_mem_digits {ds : List ℕ} (h : ∀ d ∈ ds, d < 32) : dot ∉ ds.map b32Digit := by
  have hall : ∀ d < 32, b32Digit d ≠ dot := by decide +kernel
  intro hmem
  obtain ⟨d, hd, hdot⟩ := List.mem_map.mp hmem
  exact hall d (h d hd) hdot

variable {crcText : List UInt8}

/-- What is read of a text with a body and a checksum. -/
theorem openCode_eq (marker body : List UInt8) (payloadSize : ℕ) (h : dot ∉ crcText) :
    openCode marker (marker ++ dot :: (body ++ dot :: crcText)) payloadSize =
      openParts body crcText payloadSize := by
  have hdrop : (marker ++ dot :: (body ++ dot :: crcText)).drop (marker.length + 1) =
      body ++ dot :: crcText := by
    rw [← drop_drop, drop_left, drop_succ_cons, drop_zero]
  unfold openCode
  rw [if_neg, hdrop, splitLast_append body h]
  rw [not_or, not_not, not_not]
  exact ⟨take_left, by rw [getElem?_append_right (Nat.le_refl _), Nat.sub_self]; rfl⟩

variable {rest : List UInt8}

/-- A text without a second dot is refused. -/
theorem openCode_of_not_mem (marker : List UInt8) (payloadSize : ℕ) (h : dot ∉ rest) :
    openCode marker (marker ++ dot :: rest) payloadSize = .error .errFormat := by
  have hdrop : (marker ++ dot :: rest).drop (marker.length + 1) = rest := by
    rw [← drop_drop, drop_left, drop_succ_cons, drop_zero]
  unfold openCode
  rw [if_neg, hdrop, splitLast_eq_none h]
  rw [not_or, not_not, not_not]
  exact ⟨take_left, by rw [getElem?_append_right (Nat.le_refl _), Nat.sub_self]; rfl⟩

/-- A payload that is read has the bytes of the body and their checksum. -/
theorem openParts_ok {body payload : List UInt8} {payloadSize : ℕ}
    (h : openParts body crcText payloadSize = .ok payload) :
    b32Decode payloadSize body = .ok payload ∧
      ∃ bytes, b32Decode 8 crcText = .ok bytes ∧ bytes.take 4 = crcBytes (crc32 payload) := by
  unfold openParts at h
  split at h
  · cases h
  split at h
  · cases h
  split at h
  · cases h
  cases hbody : b32Decode payloadSize body with
  | error e =>
    rw [hbody] at h
    cases h
  | ok read =>
    rw [hbody] at h
    change (match b32Decode 8 crcText with | .error _ => _ | .ok bytes => _) = _ at h
    cases hcrc : b32Decode 8 crcText with
    | error e =>
      rw [hcrc] at h
      cases h
    | ok bytes =>
      rw [hcrc] at h
      dsimp only at h
      split at h
      · cases h
      split at h
      · cases h
      rename_i hsame
      split at h
      · cases h
      split at h
      · cases h
      · cases h
        exact ⟨rfl, bytes, rfl, not_not.mp hsame⟩

variable {outSize : ℕ} {w : Writer} {marker : List UInt8}

/-- What a text that was written consists of. -/
theorem finish_spec {text : List UInt8} (h : finish marker w outSize = .ok text) :
    ∃ body crcText, text = marker ++ dot :: (body ++ dot :: crcText) ∧
      b32Encode APD_PAIRCODE_MAX w.data = .ok body ∧
      b32Encode (APD_PAIRCODE_CRC_CHARS + 1) (crcBytes (crc32 w.data)) = .ok crcText := by
  unfold finish at h
  split at h
  · cases h
  cases hbody : b32Encode APD_PAIRCODE_MAX w.data with
  | error e =>
    rw [hbody] at h
    cases h
  | ok body =>
    rw [hbody] at h
    cases hcrc : b32Encode (APD_PAIRCODE_CRC_CHARS + 1) (crcBytes (crc32 w.data)) with
    | error e =>
      rw [hcrc] at h
      cases h
    | ok crcText =>
      rw [hcrc] at h
      change (if _ then _ else _) = _ at h
      split at h
      · cases h
      · cases h
        exact ⟨body, crcText, rfl, rfl, rfl⟩

/-- A body is empty only for an empty payload. -/
theorem body_ne_nil {body : List UInt8} (h : b32Encode outSize bs = .ok body)
    (hne : bs ≠ []) : body ≠ [] := by
  obtain ⟨ds, k, rfl, -, -, hbits⟩ := b32Encode_spec h
  rintro hnil
  rw [map_eq_nil_iff] at hnil
  subst hnil
  have hlength := congrArg List.length hbits
  rw [length_append, length_byteBits] at hlength
  have hpos := length_pos_iff.mpr hne
  simp only [BitGroups.bitsOf_nil, length_nil] at hlength
  omega

/-- A checksum is seven characters, none of them a dot. -/
theorem crcText_spec {crc : BitVec 32}
    (h : b32Encode (APD_PAIRCODE_CRC_CHARS + 1) (crcBytes crc) = .ok crcText) :
    crcText.length = 7 ∧ dot ∉ crcText := by
  obtain ⟨ds, k, rfl, hds, hk, hbits⟩ := b32Encode_spec h
  refine ⟨?_, dot_not_mem_digits hds⟩
  have hlength := congrArg List.length hbits
  rw [BitGroups.length_bitsOf, length_append, length_byteBits, length_crcBytes,
    length_replicate] at hlength
  rw [length_map]
  omega

/-- **A code is opened to the payload it was made of.** -/
theorem openCode_finish {text : List UInt8}
    (hdata : w.data = APD_PAIRCODE_SCHEMA :: rest) (h : finish marker w outSize = .ok text) :
    openCode marker text APD_PAIRCODE_PAYLOAD_MAX = .ok w.data := by
  obtain ⟨body, crcText, rfl, hbody, hcrc⟩ := finish_spec h
  obtain ⟨hlength, hdot⟩ := crcText_spec hcrc
  have hread : b32Decode APD_PAIRCODE_PAYLOAD_MAX body = .ok w.data := b32Decode_encode hbody w.fits
  have hcrcread : b32Decode 8 crcText = .ok (crcBytes (crc32 w.data)) :=
    b32Decode_encode hcrc (by rw [length_crcBytes]; decide)
  have hne : body ≠ [] := body_ne_nil hbody (by rw [hdata]; exact cons_ne_nil _ _)
  have hshort : ¬ body.length ≥ APD_PAIRCODE_MAX := Nat.not_le.mpr (length_b32Encode hbody)
  have hseven : ¬ crcText.length ≠ APD_PAIRCODE_CRC_CHARS := not_not.mpr hlength
  rw [openCode_eq _ _ _ hdot]
  unfold openParts
  rw [if_neg hne, if_neg hshort, if_neg hseven, hread, hcrcread]
  have hfour : ¬ (crcBytes (crc32 w.data)).length < 4 := by
    rw [length_crcBytes]
    decide
  have hsame : ¬ (crcBytes (crc32 w.data)).take 4 ≠ crcBytes (crc32 w.data) := not_not.mpr rfl
  simp only [bind, Except.bind, if_neg hfour, if_neg hsame]
  rw [hdata]
  exact if_neg (not_not.mpr rfl)

end DreamingOS.Paircode
