import DreamingOS.Lib.Framing

namespace DreamingOS.Cloud

open Framing List

/-!
# Cloud wire — the frame codec

`cw_wire_encode` and `cw_wire_decode`: a twelve-byte header of big-endian fields, then the payload.

* `putU16`, `putU32`, `getU16`, `readU32` — the fields, inverse to each other;
* `encode`, `decode` — the functions of the source; `checkHeader` is the decoder's list of checks;
* `Frame.Valid`, `Frame.bytes` — the frames both sides accept, and their one encoding;
* `decode_bytes`, `decode_item` — decoding undoes encoding, and the other way round;
* `decode_more` — what `NEED_MORE` means: the header is not complete, or it is the header of a
  valid frame whose payload is not.
-/

/-! ### Fields -/

def putU16 (v : UInt16) : List UInt8 := [(v >>> 8).toUInt8, v.toUInt8]

def putU32 (v : UInt32) : List UInt8 :=
  [(v >>> 24).toUInt8, (v >>> 16).toUInt8, (v >>> 8).toUInt8, v.toUInt8]

def getU16 (a b : UInt8) : UInt16 := (a.toUInt16 <<< 8) ||| b.toUInt16

/-- `cw_wire_read_u32`. -/
def readU32 (a b c d : UInt8) : UInt32 :=
  (a.toUInt32 <<< 24) ||| (b.toUInt32 <<< 16) ||| (c.toUInt32 <<< 8) ||| d.toUInt32

/-- Joining a byte below a number that is shifted past it. -/
theorem shift_or_byte {n : ℕ} {b : UInt8} : (n <<< 8) ||| b.toNat = n * 256 + b.toNat := by
  rw [← Nat.shiftLeft_add_eq_or_of_lt (show b.toNat < 2 ^ 8 from b.toNat_lt), Nat.shiftLeft_eq]

theorem toNat_getU16 (a b : UInt8) : (getU16 a b).toNat = a.toNat * 256 + b.toNat := by
  have ha := a.toNat_lt
  have hshift : a.toNat <<< 8 % 2 ^ 16 = a.toNat <<< 8 := by
    rw [Nat.shiftLeft_eq]
    omega
  simp only [getU16, UInt16.toNat_or, UInt16.toNat_shiftLeft, UInt8.toNat_toUInt16,
    UInt16.reduceToNat, Nat.reduceMod, hshift, shift_or_byte]

theorem toNat_readU32 (a b c d : UInt8) :
    (readU32 a b c d).toNat = ((a.toNat * 256 + b.toNat) * 256 + c.toNat) * 256 + d.toNat := by
  have ha := a.toNat_lt
  have hb := b.toNat_lt
  have hc := c.toNat_lt
  have h₁ : a.toNat <<< 24 % 2 ^ 32 = a.toNat <<< 8 <<< 8 <<< 8 := by
    simp only [Nat.shiftLeft_eq]
    omega
  have h₂ : b.toNat <<< 16 % 2 ^ 32 = b.toNat <<< 8 <<< 8 := by
    simp only [Nat.shiftLeft_eq]
    omega
  have h₃ : c.toNat <<< 8 % 2 ^ 32 = c.toNat <<< 8 := by
    rw [Nat.shiftLeft_eq]
    omega
  simp only [readU32, UInt32.toNat_or, UInt32.toNat_shiftLeft, UInt8.toNat_toUInt32,
    UInt32.reduceToNat, Nat.reduceMod]
  rw [h₁, h₂, h₃, ← Nat.shiftLeft_or_distrib, ← Nat.shiftLeft_or_distrib,
    ← Nat.shiftLeft_or_distrib, shift_or_byte, shift_or_byte, shift_or_byte]

theorem getU16_put (v : UInt16) : getU16 (v >>> 8).toUInt8 v.toUInt8 = v := by
  have hv := v.toNat_lt
  apply UInt16.toNat_inj.mp
  rw [toNat_getU16, UInt16.toNat_toUInt8, UInt16.toNat_toUInt8, UInt16.toNat_shiftRight,
    Nat.shiftRight_eq_div_pow]
  simp only [UInt16.reduceToNat, Nat.reduceMod]
  omega

theorem putU16_get (a b : UInt8) : putU16 (getU16 a b) = [a, b] := by
  have ha := a.toNat_lt
  have hb := b.toNat_lt
  have hvalue := toNat_getU16 a b
  have h₁ : (getU16 a b >>> 8).toUInt8 = a := by
    apply UInt8.toNat_inj.mp
    rw [UInt16.toNat_toUInt8, UInt16.toNat_shiftRight, Nat.shiftRight_eq_div_pow, hvalue]
    simp only [UInt16.reduceToNat, Nat.reduceMod]
    omega
  have h₂ : (getU16 a b).toUInt8 = b := by
    apply UInt8.toNat_inj.mp
    rw [UInt16.toNat_toUInt8, hvalue]
    omega
  rw [putU16, h₁, h₂]

theorem readU32_put (v : UInt32) :
    readU32 (v >>> 24).toUInt8 (v >>> 16).toUInt8 (v >>> 8).toUInt8 v.toUInt8 = v := by
  have hv := v.toNat_lt
  apply UInt32.toNat_inj.mp
  simp only [toNat_readU32, UInt32.toNat_toUInt8, UInt32.toNat_shiftRight,
    Nat.shiftRight_eq_div_pow, UInt32.reduceToNat, Nat.reduceMod]
  omega

theorem putU32_read (a b c d : UInt8) : putU32 (readU32 a b c d) = [a, b, c, d] := by
  have ha := a.toNat_lt
  have hb := b.toNat_lt
  have hc := c.toNat_lt
  have hd := d.toNat_lt
  have hvalue := toNat_readU32 a b c d
  have hbyte : ∀ k : UInt32, (readU32 a b c d >>> k).toUInt8.toNat =
      (readU32 a b c d).toNat / 2 ^ (k.toNat % 32) % 256 := fun k => by
    rw [UInt32.toNat_toUInt8, UInt32.toNat_shiftRight, Nat.shiftRight_eq_div_pow]
  have h₁ : (readU32 a b c d >>> 24).toUInt8 = a := by
    apply UInt8.toNat_inj.mp
    rw [hbyte, hvalue]
    simp only [UInt32.reduceToNat, Nat.reduceMod]
    omega
  have h₂ : (readU32 a b c d >>> 16).toUInt8 = b := by
    apply UInt8.toNat_inj.mp
    rw [hbyte, hvalue]
    simp only [UInt32.reduceToNat, Nat.reduceMod]
    omega
  have h₃ : (readU32 a b c d >>> 8).toUInt8 = c := by
    apply UInt8.toNat_inj.mp
    rw [hbyte, hvalue]
    simp only [UInt32.reduceToNat, Nat.reduceMod]
    omega
  have h₄ : (readU32 a b c d).toUInt8 = d := by
    apply UInt8.toNat_inj.mp
    rw [UInt32.toNat_toUInt8, hvalue]
    omega
  rw [putU32, h₁, h₂, h₃, h₄]

/-! ### The code -/

/-- `CW_WIRE_VERSION`. -/
def wireVersion : UInt8 := 1

/-- `CW_WIRE_HDR`. -/
def hdr : ℕ := 12

/-- `CW_WIRE_FRAME_MAX`. -/
def frameMax : ℕ := 65536

/-- `CW_WIRE_MSG_MAX`, the size of the receive buffer. -/
def msgMax : ℕ := hdr + frameMax

/-- `cw_wire_is_control`: HELLO to AUTH_RESPONSE, `0x01` to `0x09`. -/
def isControl (type : UInt8) : Bool :=
  match type with
  | 0x01 | 0x02 | 0x03 | 0x04 | 0x05 | 0x06 | 0x07 | 0x08 | 0x09 => true
  | _ => false

def opFin : UInt8 := 0x13
def opReset : UInt8 := 0x14
def opWindow : UInt8 := 0x15

/-- `cw_wire_is_data`: OPEN, RESP, DATA, FIN, RESET and WINDOW. -/
def isData (type : UInt8) : Bool :=
  match type with
  | 0x10 | 0x11 | 0x12 | 0x13 | 0x14 | 0x15 => true
  | _ => false

/-- `stream_id_ok`: control operations have stream zero, data operations another; WINDOW has
    both. -/
def streamIdOk (type : UInt8) (sid : UInt32) : Bool :=
  if type = opWindow then true
  else if isControl type then sid = 0
  else sid ≠ 0

/-- `length_ok`. -/
def lengthOk (type : UInt8) (length : ℕ) : Bool :=
  if length > frameMax then false
  else if type = opFin then length = 0
  else if type = opReset ∨ type = opWindow then length = 4
  else true

/-- The two errors of the decoder: `CW_ERR_PROTOCOL` and `CW_ERR_FRAME_TOO_BIG`. -/
inductive WireErr
  | protocol
  | frameTooBig
  deriving DecidableEq

/-- `struct cw_frame`; its `length` is that of the payload. -/
structure Frame where
  (version type : UInt8)
  flags : UInt16
  streamId : UInt32
  payload : List UInt8
  deriving DecidableEq

/-- `cw_wire_encode` into a buffer of `cap` bytes; `none` is the `-1` of the source. -/
def encode (cap : ℕ) (type : UInt8) (flags : UInt16) (streamId : UInt32)
    (payload : List UInt8) : Option (List UInt8) :=
  if ¬ isControl type ∧ ¬ isData type then none
  else if ¬ lengthOk type payload.length ∨ ¬ streamIdOk type streamId then none
  else if cap < hdr + payload.length then none
  else some (wireVersion :: type :: (putU16 flags ++ putU32 streamId ++
    putU32 (UInt32.ofNat payload.length) ++ payload))

/-- The checks of the decoder on a complete header, in their order. -/
def checkHeader (version type : UInt8) (sid : UInt32) (length : ℕ) : Option WireErr :=
  if version ≠ wireVersion then some .protocol
  else if ¬ isControl type ∧ ¬ isData type then some .protocol
  else if length > frameMax then some .frameTooBig
  else if ¬ lengthOk type length ∨ ¬ streamIdOk type sid then some .protocol
  else none

/-- `cw_wire_decode`: the frame at the front with the bytes it consumes, `NEED_MORE`, or an
    error. -/
def decode (bytes : List UInt8) : Verdict Frame WireErr :=
  match bytes with
  | version :: type :: f₀ :: f₁ :: s₀ :: s₁ :: s₂ :: s₃ :: l₀ :: l₁ :: l₂ :: l₃ :: rest =>
    let length := (readU32 l₀ l₁ l₂ l₃).toNat
    match checkHeader version type (readU32 s₀ s₁ s₂ s₃) length with
    | some err => .error err
    | none =>
      if rest.length < length then .more
      else .item ⟨version, type, getU16 f₀ f₁, readU32 s₀ s₁ s₂ s₃, rest.take length⟩
        (hdr + length)
  | _ => .more

/-! ### Valid frames -/

/-- The frames that both sides accept. -/
def Frame.Valid (f : Frame) : Prop :=
  f.version = wireVersion ∧ (isControl f.type = true ∨ isData f.type = true) ∧
    lengthOk f.type f.payload.length = true ∧ streamIdOk f.type f.streamId = true

instance (f : Frame) : Decidable f.Valid := inferInstanceAs (Decidable (_ ∧ _))

/-- The encoding of a frame. -/
def Frame.bytes (f : Frame) : List UInt8 :=
  f.version :: f.type :: (putU16 f.flags ++ putU32 f.streamId ++
    putU32 (UInt32.ofNat f.payload.length) ++ f.payload)

@[simp] theorem Frame.length_bytes (f : Frame) : f.bytes.length = hdr + f.payload.length := by
  simp only [Frame.bytes, putU16, putU32, hdr, length_cons, length_append, length_nil]
  omega

variable {length : ℕ} {type : UInt8}

theorem length_le_of_lengthOk (h : lengthOk type length = true) : length ≤ frameMax := by
  by_contra hlt
  rw [lengthOk, if_pos (by omega)] at h
  cases h

/-- The header checks pass exactly on the headers of valid frames. -/
theorem checkHeader_eq_none {version : UInt8} {sid : UInt32} :
    checkHeader version type sid length = none ↔
      version = wireVersion ∧ (isControl type = true ∨ isData type = true) ∧
        lengthOk type length = true ∧ streamIdOk type sid = true := by
  unfold checkHeader
  by_cases hversion : version = wireVersion
  case neg => simp [hversion]
  by_cases htype : isControl type = true ∨ isData type = true
  case neg =>
    rw [if_neg (by simpa using hversion), if_pos (by tauto)]
    simp [htype]
  rw [if_neg (by simpa using hversion), if_neg (by tauto)]
  by_cases hlength : lengthOk type length = true
  · have hmax := length_le_of_lengthOk hlength
    rw [if_neg (by omega)]
    by_cases hsid : streamIdOk type sid = true
    · rw [if_neg (by tauto)]
      simp [hversion, htype, hlength, hsid]
    · rw [if_pos (by tauto)]
      simp [hsid]
  · -- too long, or of the wrong length: refused either way
    have hrefused : ¬ ((if length > frameMax then some WireErr.frameTooBig
        else if ¬ lengthOk type length ∨ ¬ streamIdOk type sid then some .protocol
        else none) = none) := by
      split
      · simp
      · rw [if_pos (by tauto)]
        simp
    exact iff_of_false hrefused fun h => hlength h.2.2.1

variable {bytes : List UInt8} {f : Frame}

/-- **The encoder accepts exactly the valid frames that fit the buffer**, and writes their
    encoding. -/
theorem encode_eq_some {cap : ℕ} (hversion : f.version = wireVersion) :
    encode cap f.type f.flags f.streamId f.payload = some bytes ↔
      f.Valid ∧ hdr + f.payload.length ≤ cap ∧ bytes = f.bytes := by
  unfold encode Frame.Valid Frame.bytes
  by_cases htype : isControl f.type = true ∨ isData f.type = true
  case neg =>
    rw [if_pos (by tauto)]
    simp [htype]
  rw [if_neg (by tauto)]
  by_cases hok : lengthOk f.type f.payload.length = true ∧ streamIdOk f.type f.streamId = true
  case neg =>
    rw [if_pos (by tauto)]
    simp only [reduceCtorEq, false_iff]
    tauto
  rw [if_neg (by tauto)]
  by_cases hcap : cap < hdr + f.payload.length
  · rw [if_pos hcap]
    simp only [reduceCtorEq, false_iff]
    omega
  · rw [if_neg hcap, hversion, Option.some.injEq]
    constructor
    · rintro rfl
      exact ⟨⟨rfl, htype, hok⟩, by omega, rfl⟩
    · rintro ⟨-, -, rfl⟩
      rfl

/-! ### Decoding -/

/-- A header byte for byte: twelve of them, whatever follows. -/
theorem exists_header (h : hdr ≤ bytes.length) :
    ∃ version type f₀ f₁ s₀ s₁ s₂ s₃ l₀ l₁ l₂ l₃ rest, bytes =
      version :: type :: f₀ :: f₁ :: s₀ :: s₁ :: s₂ :: s₃ :: l₀ :: l₁ :: l₂ :: l₃ :: rest := by
  obtain ⟨front, rest, rfl, hfront⟩ : ∃ front rest, bytes = front ++ rest ∧ front.length = 12 :=
    ⟨bytes.take 12, bytes.drop 12, (take_append_drop 12 bytes).symm, by
      rw [length_take]
      exact Nat.min_eq_left h⟩
  match front, hfront with
  | [version, type, f₀, f₁, s₀, s₁, s₂, s₃, l₀, l₁, l₂, l₃], _ =>
    exact ⟨version, type, f₀, f₁, s₀, s₁, s₂, s₃, l₀, l₁, l₂, l₃, rest, rfl⟩

/-- An incomplete header is never judged. -/
theorem decode_short (h : bytes.length < hdr) : decode bytes = .more := by
  unfold decode
  split
  · simp only [hdr, length_cons] at h
    omega
  · rfl

/-- **Decoding undoes encoding**, whatever follows the frame. -/
theorem decode_bytes (h : f.Valid) (rest : List UInt8) :
    decode (f.bytes ++ rest) = .item f f.bytes.length := by
  obtain ⟨version, type, flags, streamId, payload⟩ := f
  have hmax : payload.length ≤ 65536 := length_le_of_lengthOk h.2.2.1
  have hlength : (UInt32.ofNat payload.length).toNat = payload.length :=
    UInt32.toNat_ofNat_of_lt' (by show _ < 2 ^ 32; omega)
  have hcheck := checkHeader_eq_none.mpr h
  have hroom : ¬ (payload ++ rest).length < payload.length := by
    rw [length_append]
    omega
  rw [Frame.length_bytes]
  simp only [Frame.bytes, putU16, putU32, cons_append, nil_append]
  rw [decode]
  simp only [readU32_put, getU16_put, hlength]
  dsimp only at hcheck
  rw [hcheck]
  dsimp only
  rw [if_neg hroom, take_left]

/-- What a complete header with its rest is: an error of the checks, a valid frame with what
    follows it, or a valid frame cut short. -/
theorem decode_cases (h : hdr ≤ bytes.length) : (∃ e, ∀ more, decode (bytes ++ more) = .error e) ∨
      (∃ (f : Frame) (rest : List UInt8), f.Valid ∧ bytes = f.bytes ++ rest) ∨
      (decode bytes = .more ∧
        ∃ (f : Frame) (rest : List UInt8), f.Valid ∧ f.bytes = bytes ++ rest ∧ rest ≠ []) := by
  obtain ⟨version, type, f₀, f₁, s₀, s₁, s₂, s₃, l₀, l₁, l₂, l₃, rest, rfl⟩ := exists_header h
  cases hcheck : checkHeader version type (readU32 s₀ s₁ s₂ s₃) (readU32 l₀ l₁ l₂ l₃).toNat with
  | some e =>
    refine .inl ⟨e, fun more => ?_⟩
    simp only [cons_append]
    rw [decode]
    simp only [hcheck]
  | none =>
    have hvalid := checkHeader_eq_none.mp hcheck
    -- the frame whose payload is `payload`, when that has the length of the header
    have hframe : ∀ payload : List UInt8, payload.length = (readU32 l₀ l₁ l₂ l₃).toNat →
        ∃ f : Frame, f.Valid ∧ f.bytes = version :: type :: f₀ :: f₁ :: s₀ :: s₁ :: s₂ :: s₃ ::
          l₀ :: l₁ :: l₂ :: l₃ :: payload := by
      intro payload hlen
      refine ⟨⟨version, type, getU16 f₀ f₁, readU32 s₀ s₁ s₂ s₃, payload⟩, ?_, ?_⟩
      · rw [← hlen] at hvalid
        exact hvalid
      · rw [Frame.bytes, putU16_get, putU32_read, hlen, UInt32.ofNat_toNat, putU32_read]
        rfl
    by_cases hroom : rest.length < (readU32 l₀ l₁ l₂ l₃).toNat
    · right; right
      obtain ⟨f, hf, hbytes⟩ := hframe
        (rest ++ List.replicate ((readU32 l₀ l₁ l₂ l₃).toNat - rest.length) 0) (by
          rw [length_append, length_replicate]
          omega)
      refine ⟨?_, f, _, hf, hbytes, ?_⟩
      · rw [decode]
        simp only [hcheck, if_pos hroom]
      · intro hnil
        have := congrArg List.length hnil
        rw [length_replicate, length_nil] at this
        omega
    · right; left
      obtain ⟨f, hf, hbytes⟩ := hframe (rest.take (readU32 l₀ l₁ l₂ l₃).toNat) (by
        rw [length_take]
        omega)
      refine ⟨f, rest.drop (readU32 l₀ l₁ l₂ l₃).toNat, hf, ?_⟩
      rw [hbytes]
      simp only [cons_append, take_append_drop]

/-- A decoded frame is valid, and its encoding is what the decoder consumed. -/
theorem decode_item {used : ℕ} (h : decode bytes = .item f used) :
    f.Valid ∧ used = f.bytes.length ∧ bytes = f.bytes ++ bytes.drop used := by
  have hlen : hdr ≤ bytes.length := by
    by_contra hshort
    rw [decode_short (by omega)] at h
    cases h
  rcases decode_cases hlen with ⟨e, herror⟩ | ⟨g, rest, hvalid, rfl⟩ | ⟨hmore, -⟩
  · have := herror []
    rw [append_nil, h] at this
    cases this
  · rw [decode_bytes hvalid] at h
    obtain ⟨rfl, rfl⟩ := Verdict.item.inj h
    exact ⟨hvalid, rfl, by rw [drop_left]⟩
  · rw [h] at hmore
    cases hmore

/-- The verdicts of the decoder do not depend on the bytes behind the frame, and an error is
    final. -/
theorem decode_stable : Stable decode where
  used_pos := by
    intro bytes f used h
    obtain ⟨-, rfl, -⟩ := decode_item h
    rw [Frame.length_bytes]
    exact Nat.add_pos_left (by decide) _
  used_le := by
    intro bytes f used h
    obtain ⟨-, rfl, hsplit⟩ := decode_item h
    have := congrArg List.length hsplit
    rw [length_append] at this
    omega
  item_append := by
    intro bytes f used h rest
    obtain ⟨hvalid, rfl, hsplit⟩ := decode_item h
    rw [hsplit, append_assoc]
    exact decode_bytes hvalid _
  error_append := by
    intro bytes e h rest
    have hlen : hdr ≤ bytes.length := by
      by_contra hshort
      rw [decode_short (by omega)] at h
      cases h
    rcases decode_cases hlen with ⟨e', herror⟩ | ⟨g, rest', hvalid, rfl⟩ | ⟨hmore, -⟩
    · have hsame := herror []
      rw [append_nil, h] at hsame
      rw [herror rest, hsame]
    · rw [decode_bytes hvalid] at h
      cases h
    · rw [h] at hmore
      cases hmore

/-- **`NEED_MORE`**: the header is not complete, or it is that of a valid frame whose payload is
    not. -/
theorem decode_more : decode bytes = .more ↔ bytes.length < hdr ∨
      ∃ (f : Frame) (rest : List UInt8), f.Valid ∧ f.bytes = bytes ++ rest ∧ rest ≠ [] := by
  constructor
  · intro h
    by_cases hlen : bytes.length < hdr
    · exact .inl hlen
    rcases decode_cases (Nat.le_of_not_lt hlen) with ⟨e, herror⟩ | ⟨g, rest, hvalid, rfl⟩ | ⟨-, hf⟩
    · have hsame := herror []
      rw [append_nil, h] at hsame
      cases hsame
    · rw [decode_bytes hvalid] at h
      cases h
    · exact .inr hf
  · rintro (hlen | ⟨f, rest, hvalid, hbytes, hne⟩)
    · exact decode_short hlen
    -- with the missing bytes the frame is decoded, so nothing was decided before them
    have hdecode := decode_bytes hvalid []
    rw [append_nil, hbytes] at hdecode
    cases hd : decode bytes with
    | more => rfl
    | error e =>
      rw [decode_stable.error_append hd] at hdecode
      cases hdecode
    | item g used =>
      have hle := decode_stable.used_le hd
      rw [decode_stable.item_append hd] at hdecode
      obtain ⟨-, hused⟩ := Verdict.item.inj hdecode
      have hpos := length_pos_iff.mpr hne
      rw [length_append] at hused
      omega

end DreamingOS.Cloud
