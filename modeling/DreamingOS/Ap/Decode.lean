import DreamingOS.Lib.JsonText
import DreamingOS.Lib.Outcome
import Mathlib.Tactic.Ring

namespace DreamingOS.Ap

open JsonText Outcome List Option

/-!
# AP control — the scanner's string decoder

`ap_json_string_decode` resolves the escapes of one JSON string into a fresh buffer.

* `store` — a write into that buffer: a write past its end is a fault of the run, never dropped;
* `utf8Append`, `decodeLoop`, `stringDecode` — the functions of the source, on the bytes that
  remain at the current offset;
* `stringDecode_meets` — **no input makes the decoder write past its buffer**;
* `stringDecode_render` — a string of the grammar is decoded to the bytes it stands for, and the
  offset is left behind its closing quotation mark.
-/

/-! ### The code -/

/-- What must not happen in a run: a write outside the buffer, or a loop that does not end. -/
inductive Fault
  | overrun
  | endless
  deriving DecidableEq

/-- `ap_json_hex`; `none` is the `-1` of the source. -/
def hex (value : UInt8) : Option ℕ :=
  if 0x30 ≤ value ∧ value ≤ 0x39 then some (value.toNat - 0x30)
  else if 0x61 ≤ value ∧ value ≤ 0x66 then some (value.toNat - 0x61 + 10)
  else if 0x41 ≤ value ∧ value ≤ 0x46 then some (value.toNat - 0x41 + 10)
  else none

/-- The digit loop: each digit is shifted in from the right. -/
def hexLoop : List UInt8 → ℕ → Option ℕ
  | [], codepoint => some codepoint
  | d :: ds, codepoint =>
    match hex d with
    | none => none
    | some digit => hexLoop ds ((codepoint <<< 4) ||| digit)

/-- `lead | (unsigned char)n`. -/
def tag (lead : UInt8) (n : ℕ) : UInt8 := lead ||| UInt8.ofNat n

/-- The bytes `encoded` of a code point. -/
def encoded (codepoint : ℕ) : List UInt8 :=
  if codepoint ≤ 0x7f then [UInt8.ofNat codepoint]
  else if codepoint ≤ 0x7ff then
    [tag 0xc0 (codepoint >>> 6), tag 0x80 (codepoint &&& 0x3f)]
  else if codepoint ≤ 0xffff then
    [tag 0xe0 (codepoint >>> 12), tag 0x80 ((codepoint >>> 6) &&& 0x3f),
      tag 0x80 (codepoint &&& 0x3f)]
  else
    [tag 0xf0 (codepoint >>> 18), tag 0x80 ((codepoint >>> 12) &&& 0x3f),
      tag 0x80 ((codepoint >>> 6) &&& 0x3f), tag 0x80 (codepoint &&& 0x3f)]

/-- Writing `bytes` behind the `out.length` bytes already in a buffer of `size` bytes. -/
def store (size : ℕ) (out bytes : List UInt8) : Except Fault (List UInt8) :=
  if out.length + bytes.length ≤ size then .ok (out ++ bytes) else .error .overrun

/-- `ap_json_utf8_append`, on a buffer of `size` bytes with the `capacity` its caller names. -/
def utf8Append (size capacity : ℕ) (out : List UInt8) (codepoint : ℕ) :
    Except Fault (Option (List UInt8)) :=
  if codepoint > 0x10ffff ∨ (codepoint ≥ 0xd800 ∧ codepoint ≤ 0xdfff) then .ok none
  else if out.length > capacity ∨ (encoded codepoint).length > capacity - out.length then .ok none
  else (store size out (encoded codepoint)).map some

/-- The one-letter escapes. -/
def simpleEscape (value : UInt8) : Option UInt8 :=
  if value = 0x22 ∨ value = 0x5c ∨ value = 0x2f then some value
  else if value = 0x62 then some 0x08
  else if value = 0x66 then some 0x0c
  else if value = 0x6e then some 0x0a
  else if value = 0x72 then some 0x0d
  else if value = 0x74 then some 0x09
  else none

/-- The second half of a surrogate pair: `\u` and four digits must follow. -/
def lowSurrogate (codepoint : ℕ) (data : List UInt8) : Option (ℕ × List UInt8) :=
  match data with
  | s :: u :: l₀ :: l₁ :: l₂ :: l₃ :: data =>
    if s ≠ 0x5c ∨ u ≠ 0x75 then none
    else match hexLoop [l₀, l₁, l₂, l₃] 0 with
      | none => none
      | some low =>
        if low < 0xdc00 ∨ low > 0xdfff then none
        else some (0x10000 + ((codepoint - 0xd800) <<< 10) + (low - 0xdc00), data)
  | _ => none

/-- What follows `\u`: the code point, with the bytes behind it. -/
def unicodeEscape (data : List UInt8) : Option (ℕ × List UInt8) :=
  match data with
  | d₀ :: d₁ :: d₂ :: d₃ :: data =>
    match hexLoop [d₀, d₁, d₂, d₃] 0 with
    | none => none
    | some codepoint =>
      if codepoint ≥ 0xd800 ∧ codepoint ≤ 0xdbff then lowSurrogate codepoint data
      else some (codepoint, data)
  | _ => none

/-- What one turn of the decoding loop finds at the offset. -/
inductive Piece
  | close (data : List UInt8)
  | byte (b : UInt8) (data : List UInt8)
  | point (codepoint : ℕ) (data : List UInt8)
  | fail

/-- What stands behind a backslash. -/
def escapePiece : List UInt8 → Piece
  | [] => .fail
  | value :: data =>
    match simpleEscape value with
    | some b => .byte b data
    | none =>
      if value = 0x75 then
        match unicodeEscape data with
        | some (codepoint, data) => .point codepoint data
        | none => .fail
      else .fail

/-- The reading half of one turn of the loop; at the end of the input the loop falls through to
    `fail`. -/
def piece : List UInt8 → Piece
  | [] => .fail
  | value :: data =>
    if value = 0x22 then .close data
    else if value < 0x20 then .fail
    else if value ≠ 0x5c then .byte value data
    else escapePiece data

/-- The loop of `ap_json_string_decode`: the turns it may still take, the bytes from the offset on
    and what is decoded so far.  A value is the decoded string with the bytes behind it, `none` the
    `-1` of the source. -/
def decodeLoop (size capacity : ℕ) :
    ℕ → List UInt8 → List UInt8 → Except Fault (Option (List UInt8 × List UInt8))
  | 0, _, _ => .error .endless
  | turns + 1, data, decoded =>
    match piece data with
    | .fail => .ok none
    | .close data => do
      -- the terminating NUL is written, but not counted
      let _ ← store size decoded [0]
      .ok (some (decoded, data))
    | .byte b data => do
      let decoded ← store size decoded [b]
      decodeLoop size capacity turns data decoded
    | .point codepoint data => do
      match ← utf8Append size capacity decoded codepoint with
      | none => .ok none
      | some decoded => decodeLoop size capacity turns data decoded

/-- `ap_json_string_decode` at the offset where `data` begins: `malloc(length - *offset + 1)`, and
    the capacity of the UTF-8 writer one less. -/
def stringDecode (data : List UInt8) : Except Fault (Option (List UInt8 × List UInt8)) :=
  match data with
  | [] => .ok none
  | quote :: rest =>
    if quote ≠ 0x22 then .ok none
    else decodeLoop (data.length + 1) data.length data.length rest []

/-! ### Digits and code points -/

theorem hex_eq (b : UInt8) : hex b = hexValue b := by
  unfold hex hexValue
  by_cases hlower : 0x61 ≤ b ∧ b ≤ 0x66
  · -- the two letter ranges are disjoint, so their order does not matter
    have hupper : ¬ (0x41 ≤ b ∧ b ≤ 0x46) := fun h => by
      have h₁ := UInt8.le_iff_toNat_le.mp hlower.1
      have h₂ := UInt8.le_iff_toNat_le.mp h.2
      simp at h₁ h₂
      omega
    rw [if_pos hlower, if_neg hupper, if_pos hlower]
  · rw [if_neg hlower, if_neg hlower]

theorem hex_hex (h : Hex) : hex h.1 = some h.value := by
  rw [hex_eq]
  exact (some_get h.2).symm

variable {b : UInt8} {digit : ℕ}

theorem hex_lt (h : hex b = some digit) : digit < 16 := by
  have hsome : (hexValue b).isSome = true := by rw [← hex_eq, h]; rfl
  have hval : Hex.value ⟨b, hsome⟩ = digit := by
    have := hex_hex ⟨b, hsome⟩
    rw [h] at this
    exact (some.inj this).symm
  rw [← hval]
  exact Hex.value_lt _

variable {codepoint : ℕ}

/-- Shifting a digit in from the right. -/
theorem shift_digit (h : digit < 16) : (codepoint <<< 4) ||| digit = codepoint * 16 + digit := by
  rw [← Nat.shiftLeft_add_eq_or_of_lt (show digit < 2 ^ 4 from h), Nat.shiftLeft_eq]

theorem hexLoop_lt {ds : List UInt8} {start point : ℕ} (h : hexLoop ds start = some point) :
    point < (start + 1) * 16 ^ ds.length := by
  induction ds generalizing start with
  | nil =>
    obtain rfl : start = point := some.inj h
    simp
  | cons d ds ih =>
    rw [hexLoop] at h
    cases hd : hex d with
    | none => rw [hd] at h; cases h
    | some digit =>
      rw [hd] at h
      have hdigit := hex_lt hd
      have hrest := ih h
      rw [shift_digit hdigit] at hrest
      calc point < (start * 16 + digit + 1) * 16 ^ ds.length := hrest
        _ ≤ ((start + 1) * 16) * 16 ^ ds.length := Nat.mul_le_mul_right _ (by omega)
        _ = (start + 1) * 16 ^ (ds.length + 1) := by ring

/-- Four digits of the grammar are read as the unit they spell. -/
theorem hexLoop_unit (a b c d : Hex) : hexLoop [a.1, b.1, c.1, d.1] 0 = some (unit a b c d) := by
  simp only [hexLoop, hex_hex, shift_digit a.value_lt, shift_digit b.value_lt,
    shift_digit c.value_lt, shift_digit d.value_lt, unit]
  simp

theorem simpleEscape_eq (b : UInt8) : simpleEscape b = escapeValue b := by
  unfold simpleEscape escapeValue
  by_cases hquote : b = 0x22
  · rw [if_pos (.inl hquote), if_pos hquote, hquote]
  by_cases hslash : b = 0x5c
  · rw [if_pos (.inr (.inl hslash)), if_neg hquote, if_pos hslash, hslash]
  by_cases hsolidus : b = 0x2f
  · rw [if_pos (.inr (.inr hsolidus)), if_neg hquote, if_neg hslash, if_pos hsolidus, hsolidus]
  · rw [if_neg (by tauto), if_neg hquote, if_neg hslash, if_neg hsolidus]

/-- Setting the low bits of a lead byte whose own low bits are clear adds them. -/
theorem tag_eq {m k n : ℕ} (hn : n < 2 ^ m) (hbyte : 2 ^ m * k + 2 ^ m ≤ 256) :
    tag (UInt8.ofNat (2 ^ m * k)) n = UInt8.ofNat (n + 2 ^ m * k) := by
  apply UInt8.toNat_inj.mp
  rw [tag, UInt8.toNat_or, UInt8.toNat_ofNat', UInt8.toNat_ofNat', UInt8.toNat_ofNat',
    Nat.mod_eq_of_lt (by omega), Nat.mod_eq_of_lt (by omega), Nat.mod_eq_of_lt (by omega),
    Nat.add_comm, Nat.two_pow_add_eq_or_of_lt hn]

variable {point : ℕ}

theorem toNat_ofNat_point (hmax : point ≤ 0x10ffff)
    (hsurrogate : ¬ (0xd800 ≤ point ∧ point ≤ 0xdfff)) : (Char.ofNat point).val.toNat = point := by
  have hvalid : point.isValidChar := by
    unfold Nat.isValidChar
    omega
  rw [Char.ofNat, dif_pos hvalid]
  rfl

/-- The bytes written for a code point are its UTF-8 encoding. -/
theorem encoded_eq (hmax : point ≤ 0x10ffff)
    (hsurrogate : ¬ (0xd800 ≤ point ∧ point ≤ 0xdfff)) : encoded point = JsonText.utf8 point := by
  have hlow : ∀ n : ℕ, n &&& 0x3f = n % 64 := fun n => Nat.and_two_pow_sub_one_eq_mod n 6
  have htail : ∀ n, tag 0x80 (n % 64) = UInt8.ofNat (n % 64 + 0x80) := fun n =>
    @tag_eq 6 2 _ (Nat.mod_lt n (by decide)) (by decide)
  unfold encoded JsonText.utf8 String.utf8EncodeChar
  rw [toNat_ofNat_point hmax hsurrogate]
  simp only [Nat.shiftRight_eq_div_pow, hlow, htail]
  by_cases h₁ : point ≤ 0x7f
  · rw [if_pos h₁, if_pos h₁]
  rw [if_neg h₁, if_neg h₁]
  by_cases h₂ : point ≤ 0x7ff
  · have hlead : tag 0xc0 (point / 2 ^ 6) = UInt8.ofNat (point / 64 % 0x20 + 0xc0) := by
      rw [Nat.mod_eq_of_lt (by omega)]
      exact @tag_eq 5 6 _ (by omega) (by decide)
    rw [if_pos h₂, if_pos h₂, hlead]
  rw [if_neg h₂, if_neg h₂]
  by_cases h₃ : point ≤ 0xffff
  · have hlead : tag 0xe0 (point / 2 ^ 12) = UInt8.ofNat (point / 4096 % 0x10 + 0xe0) := by
      rw [Nat.mod_eq_of_lt (by omega)]
      exact @tag_eq 4 14 _ (by omega) (by decide)
    rw [if_pos h₃, if_pos h₃, hlead]
  · have hlead : tag 0xf0 (point / 2 ^ 18) = UInt8.ofNat (point / 262144 % 0x08 + 0xf0) := by
      rw [Nat.mod_eq_of_lt (by omega)]
      exact @tag_eq 3 30 _ (by omega) (by decide)
    rw [if_neg h₃, if_neg h₃, hlead]
theorem length_encoded_le (codepoint : ℕ) : (encoded codepoint).length ≤ 4 := by
  unfold encoded
  split
  · simp
  split
  · simp
  split <;> simp

theorem length_encoded_le_three (h : codepoint < 0x10000) : (encoded codepoint).length ≤ 3 := by
  unfold encoded
  split
  · simp
  split
  · simp
  rw [if_pos (by omega)]
  simp

/-! ### Safety -/

variable {data rest : List UInt8}

/-- A surrogate escape takes six more bytes of input. -/
theorem lowSurrogate_length {point : ℕ}
    (h : lowSurrogate codepoint data = some (point, rest)) : data.length = rest.length + 6 := by
  match data, h with
  | s :: u :: l₀ :: l₁ :: l₂ :: l₃ :: data, h =>
    rw [lowSurrogate] at h
    split at h
    · cases h
    split at h
    · cases h
    split at h
    · cases h
    obtain ⟨-, rfl⟩ := Prod.mk.inj (some.inj h)
    rfl

/-- A `\u` escape is longer than the UTF-8 bytes of its code point: four digits for at most three
    bytes, ten bytes of input for four. -/
theorem unicodeEscape_length (h : unicodeEscape data = some (codepoint, rest)) :
    rest.length + (encoded codepoint).length < data.length := by
  match data, h with
  | d₀ :: d₁ :: d₂ :: d₃ :: data, h =>
    rw [unicodeEscape] at h
    split at h
    · cases h
    rename_i point hpoint
    split at h
    · have hlow := lowSurrogate_length h
      have hbytes := length_encoded_le codepoint
      simp only [length_cons]
      omega
    · obtain ⟨rfl, rfl⟩ := Prod.mk.inj (some.inj h)
      have hlt : point < 0x10000 := by simpa using hexLoop_lt hpoint
      have hbytes := length_encoded_le_three hlt
      simp only [length_cons]
      omega

/-- What one turn of the loop reads, out of `n` bytes: at least as many as it asks to be written,
    and at least one. -/
def Piece.Within (n : ℕ) : Piece → Prop
  | .close data => data.length < n
  | .byte _ data => data.length + 1 ≤ n
  | .point codepoint data => data.length + (encoded codepoint).length < n
  | .fail => True

theorem escapePiece_within (data : List UInt8) : (escapePiece data).Within (data.length + 1) := by
  match data with
  | [] => exact trivial
  | letter :: data =>
    rw [escapePiece]
    cases simpleEscape letter with
    | some b => exact Nat.le_succ _
    | none =>
      by_cases hu : letter = 0x75
      · rw [if_pos hu]
        cases hpoint : unicodeEscape data with
        | none => exact trivial
        | some found =>
          have hlen := unicodeEscape_length hpoint
          show found.2.length + _ < _
          simp only [length_cons]
          omega
      · rw [if_neg hu]
        exact trivial

theorem piece_within (data : List UInt8) : (piece data).Within data.length := by
  match data with
  | [] => exact trivial
  | value :: data =>
    rw [piece]
    by_cases hquote : value = 0x22
    · rw [if_pos hquote]
      exact Nat.lt_succ_self _
    rw [if_neg hquote]
    by_cases hcontrol : value < 0x20
    · rw [if_pos hcontrol]
      exact trivial
    rw [if_neg hcontrol]
    by_cases hraw : value ≠ 0x5c
    · rw [if_pos hraw]
      exact Nat.le_refl _
    · rw [if_neg hraw]
      exact escapePiece_within data

theorem store_of_le {size : ℕ} {out bytes : List UInt8} (h : out.length + bytes.length ≤ size) :
    store size out bytes = .ok (out ++ bytes) := if_pos h

/-- The UTF-8 writer stays inside a buffer of one byte more than its capacity, and adds the bytes
    of the code point or nothing. -/
theorem utf8Append_meets (capacity : ℕ) (out : List UInt8) (codepoint : ℕ) :
    Meets (fun _ => False) (fun r => ∀ out', r = some out' → out' = out ++ encoded codepoint)
      (utf8Append (capacity + 1) capacity out codepoint) := by
  unfold utf8Append
  refine Meets.ite (fun _ => ?_) fun _ => Meets.ite (fun _ => ?_) fun hroom => ?_
  · exact fun _ h => nomatch h
  · exact fun _ h => nomatch h
  · rw [store_of_le (by omega)]
    rintro out' h
    exact (some.inj h).symm

variable {capacity : ℕ}

/-- **One run of the loop is safe.**  While what is decoded and what is left to read together fit
    the capacity, no write leaves the buffer, and the loop ends within its turns. -/
theorem decodeLoop_meets (turns : ℕ) (data decoded : List UInt8)
    (hturns : data.length < turns) (hroom : decoded.length + data.length < capacity) :
    Meets (fun _ => False) (fun r => ∀ out rest, r = some (out, rest) → rest.length < data.length)
      (decodeLoop (capacity + 1) capacity turns data decoded) := by
  induction turns generalizing data decoded with
  | zero => exact absurd hturns (Nat.not_lt_zero _)
  | succ turns ih =>
    have hwithin := piece_within data
    rw [decodeLoop]
    cases hpiece : piece data with
    | fail => exact fun _ _ h => nomatch h
    | close rest =>
      rw [hpiece] at hwithin
      show Meets _ _ (store (capacity + 1) decoded [0] >>= _)
      rw [store_of_le (by simp only [length_singleton]; omega)]
      intro out rest' h
      obtain ⟨-, rfl⟩ := Prod.mk.inj (some.inj h)
      exact hwithin
    | byte b rest =>
      rw [hpiece] at hwithin
      have hrest : rest.length + 1 ≤ data.length := hwithin
      show Meets _ _ (store (capacity + 1) decoded [b] >>= _)
      rw [store_of_le (by simp only [length_singleton]; omega)]
      refine (ih rest (decoded ++ [b]) (by omega) ?_).imp fun r h out rest' hr => ?_
      · simp only [length_append, length_singleton]
        omega
      · exact Nat.lt_of_lt_of_le (h out rest' hr) (by omega)
    | point codepoint rest =>
      rw [hpiece] at hwithin
      have hrest : rest.length + (encoded codepoint).length < data.length := hwithin
      refine (utf8Append_meets capacity decoded codepoint).bind fun r hr => ?_
      cases r with
      | none => exact fun _ _ h => nomatch h
      | some decoded' =>
        obtain rfl := hr decoded' rfl
        refine (ih rest (decoded ++ encoded codepoint) (by omega) ?_).imp
          fun r h out rest' hr => ?_
        · rw [length_append]
          omega
        · exact Nat.lt_of_lt_of_le (h out rest' hr) (by omega)

/-- **The decoder is safe on every input**: it neither writes past its buffer nor runs on, and a
    decoded string ends behind the offset it started at. -/
theorem stringDecode_meets (data : List UInt8) :
    Meets (fun _ => False) (fun r => ∀ out rest, r = some (out, rest) → rest.length < data.length)
      (stringDecode data) := by
  match data with
  | [] => exact fun _ _ h => nomatch h
  | quote :: rest =>
    rw [stringDecode]
    refine Meets.ite (fun _ _ _ h => nomatch h) fun _ => ?_
    refine (decodeLoop_meets _ rest [] ?_ ?_).imp fun r h out rest' hr => ?_
    · exact Nat.lt_succ_self _
    · simp
    · exact Nat.lt_succ_of_lt (h out rest' hr)

/-! ### Strings of the grammar -/

theorem piece_close (data : List UInt8) : piece (0x22 :: data) = .close data := rfl

theorem piece_raw (plain : 0x20 ≤ b ∧ b ≠ 0x22 ∧ b ≠ 0x5c) (data : List UInt8) :
    piece (b :: data) = .byte b data := by
  have hcontrol : ¬ b < 0x20 := UInt8.not_lt.mpr plain.1
  rw [piece, if_neg plain.2.1, if_neg hcontrol, if_pos plain.2.2]

theorem piece_escape (known : (escapeValue b).isSome = true) (data : List UInt8) :
    piece (0x5c :: b :: data) = .byte ((escapeValue b).get known) data := by
  show escapePiece (b :: data) = _
  rw [escapePiece, simpleEscape_eq]
  conv_lhs => rw [← some_get known]

theorem piece_point (h : unicodeEscape data = some (point, rest)) :
    piece (0x5c :: 0x75 :: data) = .point point rest := by
  have hnone : simpleEscape 0x75 = none := by decide
  show escapePiece (0x75 :: data) = _
  rw [escapePiece, hnone]
  dsimp only
  rw [if_pos rfl, h]

/-- A unit that opens no pair is a code point by itself. -/
theorem unicodeEscape_single {a b c d : Hex} (hhigh : ¬ isHigh (unit a b c d) = true)
    (data : List UInt8) :
    unicodeEscape (a.1 :: b.1 :: c.1 :: d.1 :: data) = some (unit a b c d, data) := by
  have hrange : ¬ (unit a b c d ≥ 0xd800 ∧ unit a b c d ≤ 0xdbff) := by simpa [isHigh] using hhigh
  rw [unicodeEscape, hexLoop_unit]
  exact if_neg hrange

/-- The closing half of a pair, behind the opening half `codepoint`. -/
theorem lowSurrogate_unit {a b c d : Hex} (hlow : isLow (unit a b c d) = true) (codepoint : ℕ)
    (data : List UInt8) :
    lowSurrogate codepoint (0x5c :: 0x75 :: a.1 :: b.1 :: c.1 :: d.1 :: data) =
      some (pairPoint codepoint (unit a b c d), data) := by
  have hrange : ¬ (unit a b c d < 0xdc00 ∨ unit a b c d > 0xdfff) := by
    simp only [isLow, Bool.and_eq_true, decide_eq_true_eq] at hlow
    omega
  have hsame : ¬ ((0x5c : UInt8) ≠ 0x5c ∨ (0x75 : UInt8) ≠ 0x75) := by decide
  have hshift : ∀ n : ℕ, n <<< 10 = n * 0x400 := fun n => by rw [Nat.shiftLeft_eq]
  rw [lowSurrogate, if_neg hsame, hexLoop_unit]
  dsimp only
  rw [if_neg hrange, hshift]
  rfl

/-- Two units that form a pair are one code point. -/
theorem unicodeEscape_pair {a b c d a' b' c' d' : Hex} (hhigh : isHigh (unit a b c d) = true)
    (hlow : isLow (unit a' b' c' d') = true) (data : List UInt8) :
    unicodeEscape (a.1 :: b.1 :: c.1 :: d.1 ::
        0x5c :: 0x75 :: a'.1 :: b'.1 :: c'.1 :: d'.1 :: data) =
      some (pairPoint (unit a b c d) (unit a' b' c' d'), data) := by
  have hrange : unit a b c d ≥ 0xd800 ∧ unit a b c d ≤ 0xdbff := by simpa [isHigh] using hhigh
  rw [unicodeEscape, hexLoop_unit]
  exact (if_pos hrange).trans (lowSurrogate_unit hlow _ data)

variable {turns : ℕ}

/-- A turn that finds a byte adds it. -/
theorem decodeLoop_byte {data rest decoded : List UInt8}
    (hpiece : piece data = .byte b rest) (hroom : decoded.length + data.length < capacity) :
    decodeLoop (capacity + 1) capacity (turns + 1) data decoded =
      decodeLoop (capacity + 1) capacity turns rest (decoded ++ [b]) := by
  rw [decodeLoop, hpiece]
  show (store (capacity + 1) decoded [b] >>= _) = _
  rw [store_of_le (by simp only [length_singleton]; omega)]
  rfl

/-- A turn that finds a code point adds its UTF-8 bytes. -/
theorem decodeLoop_point {point : ℕ} {data rest decoded : List UInt8}
    (hpiece : piece data = .point point rest) (hmax : point ≤ 0x10ffff)
    (hsurrogate : ¬ (0xd800 ≤ point ∧ point ≤ 0xdfff))
    (hroom : decoded.length + data.length < capacity) :
    decodeLoop (capacity + 1) capacity (turns + 1) data decoded =
      decodeLoop (capacity + 1) capacity turns rest (decoded ++ JsonText.utf8 point) := by
  have hwithin := piece_within data
  rw [hpiece] at hwithin
  have hlen : rest.length + (encoded point).length < data.length := hwithin
  have happend : utf8Append (capacity + 1) capacity decoded point =
      .ok (some (decoded ++ JsonText.utf8 point)) := by
    rw [utf8Append, if_neg (by omega), if_neg (by omega), store_of_le (by omega),
      encoded_eq hmax hsurrogate]
    rfl
  rw [decodeLoop, hpiece]
  show (utf8Append (capacity + 1) capacity decoded point >>= _) = _
  rw [happend]
  rfl

variable {u : ℕ}

theorem unit_not_surrogate (hhigh : ¬ isHigh u = true) (hlow : ¬ isLow u = true) :
    ¬ (0xd800 ≤ u ∧ u ≤ 0xdfff) := by
  simp only [isHigh, isLow, Bool.and_eq_true, decide_eq_true_eq] at hhigh hlow
  omega

theorem pairPoint_bounds {l : ℕ} (hhigh : isHigh u = true) (hlow : isLow l = true) :
    0x10000 ≤ pairPoint u l ∧ pairPoint u l ≤ 0x10ffff := by
  simp only [isHigh, isLow, Bool.and_eq_true, decide_eq_true_eq] at hhigh hlow
  unfold pairPoint
  omega

variable {items : List Item} {name : List UInt8}

/-- What a turn finds at the items of a string that resolves: nothing more, or a byte or a code
    point, with the items behind it. -/
theorem piece_items (hname : resolve items = some name) (rest : List UInt8) :
    (items = [] ∧ name = []) ∨
    ∃ items' name', resolve items' = some name' ∧ ((∃ b, name = b :: name' ∧
          piece (renderItems items ++ rest) = .byte b (renderItems items' ++ rest)) ∨
        ∃ point, name = JsonText.utf8 point ++ name' ∧ point ≤ 0x10ffff ∧
          ¬ (0xd800 ≤ point ∧ point ≤ 0xdfff) ∧
          piece (renderItems items ++ rest) = .point point (renderItems items' ++ rest)) := by
  match items with
  | [] => exact .inl ⟨rfl, (some.inj hname).symm⟩
  | .raw b plain :: items =>
    obtain ⟨name', htail, rfl⟩ := map_eq_some_iff.mp hname
    exact .inr ⟨items, name', htail, .inl ⟨b, rfl, piece_raw plain _⟩⟩
  | .escape b known :: items =>
    obtain ⟨name', htail, rfl⟩ := map_eq_some_iff.mp hname
    exact .inr ⟨items, name', htail, .inl ⟨_, rfl, piece_escape known _⟩⟩
  | .unicode a b c d :: items =>
    by_cases hhigh : isHigh (unit a b c d) = true
    · -- only a closing half may follow
      match items with
      | .unicode a' b' c' d' :: items =>
        rw [resolve, if_pos hhigh] at hname
        by_cases hlow : isLow (unit a' b' c' d') = true
        · rw [if_pos hlow] at hname
          obtain ⟨name', htail, rfl⟩ := map_eq_some_iff.mp hname
          have hbounds := pairPoint_bounds hhigh hlow
          exact .inr ⟨items, name', htail, .inr ⟨_, rfl, hbounds.2, by omega,
            piece_point (unicodeEscape_pair hhigh hlow _)⟩⟩
        · rw [if_neg hlow] at hname
          cases hname
      | [] => simp [resolve, hhigh] at hname
      | .raw b' plain :: items => simp [resolve, hhigh] at hname
      | .escape b' known :: items => simp [resolve, hhigh] at hname
    · have hresolve : resolve (.unicode a b c d :: items) = if isLow (unit a b c d) then none
          else (resolve items).map (JsonText.utf8 (unit a b c d) ++ ·) := by
        rw [resolve.eq_def]
        exact if_neg hhigh
      rw [hresolve] at hname
      by_cases hlow : isLow (unit a b c d) = true
      · rw [if_pos hlow] at hname
        cases hname
      rw [if_neg hlow] at hname
      obtain ⟨name', htail, rfl⟩ := map_eq_some_iff.mp hname
      have hlt := unit_lt a b c d
      exact .inr ⟨items, name', htail, .inr ⟨_, rfl, by omega,
        unit_not_surrogate hhigh hlow, piece_point (unicodeEscape_single hhigh _)⟩⟩

/-- The loop on the items of a string, whatever follows the closing quotation mark. -/
theorem decodeLoop_items (hname : resolve items = some name) (decoded rest : List UInt8)
    (hturns : (renderItems items ++ 0x22 :: rest).length < turns)
    (hroom : decoded.length + (renderItems items ++ 0x22 :: rest).length < capacity) :
    decodeLoop (capacity + 1) capacity turns (renderItems items ++ 0x22 :: rest) decoded =
      .ok (some (decoded ++ name, rest)) := by
  induction turns generalizing items name decoded with
  | zero => exact absurd hturns (Nat.not_lt_zero _)
  | succ turns ih =>
    have hwithin := piece_within (renderItems items ++ 0x22 :: rest)
    rcases piece_items hname (0x22 :: rest) with ⟨rfl, rfl⟩ | ⟨items', name', htail, hturn⟩
    · show decodeLoop _ _ _ (0x22 :: rest) decoded = _
      rw [decodeLoop, piece_close]
      show (store (capacity + 1) decoded [0] >>= _) = _
      rw [store_of_le (by simp only [length_singleton]; omega), append_nil]
      rfl
    rcases hturn with ⟨b, rfl, hpiece⟩ | ⟨point, rfl, hmax, hsurrogate, hpiece⟩
    · rw [hpiece] at hwithin
      have hlen : (renderItems items' ++ 0x22 :: rest).length + 1 ≤ _ := hwithin
      rw [decodeLoop_byte hpiece hroom, ih htail (decoded ++ [b]) (by omega), append_assoc]
      · rfl
      · rw [length_append, length_singleton]
        omega
    · rw [hpiece] at hwithin
      have hlen : (renderItems items' ++ 0x22 :: rest).length + (encoded point).length < _ :=
        hwithin
      rw [encoded_eq hmax hsurrogate] at hlen
      rw [decodeLoop_point hpiece hmax hsurrogate hroom,
        ih htail (decoded ++ JsonText.utf8 point) (by omega), append_assoc]
      rw [length_append]
      omega

/-- **A string of the grammar is decoded to what it stands for**, and the offset is left behind its
    closing quotation mark. -/
theorem stringDecode_render (hname : resolve items = some name) (rest : List UInt8) :
    stringDecode (renderString items ++ rest) = .ok (some (name, rest)) := by
  have hsplit : renderString items ++ rest = 0x22 :: (renderItems items ++ 0x22 :: rest) := by
    simp [renderString]
  rw [hsplit, stringDecode, if_neg (by decide)]
  refine decodeLoop_items hname [] rest ?_ ?_
  · exact Nat.lt_succ_self _
  · simp

end DreamingOS.Ap
