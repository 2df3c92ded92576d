import DreamingOS.Lib.Text
import DreamingOS.Paircode.Frame

namespace DreamingOS.Paircode

open List Option

/-!
# Pairing codes — fields

A payload is a list of tagged fields. Identifiers with a binary form are packed, other fields are
sent as they are.

* `copy`, `uuidUnpack`, `keyidUnpack`, `macUnpack`, `ipv4Unpack` — the text of a field that was read;
* `hexPack_text`, `hexPack_of_isHex` — hexadecimal text is packed and keeps its digits.
-/

/-- The string in an array of `n + 1` characters. -/
abbrev Str (n : ℕ) := {s : List UInt8 // s.length ≤ n ∧ 0 ∉ s}

/-- The array after `memset`. -/
def Str.empty (n : ℕ) : Str n := ⟨[], Nat.zero_le n, not_mem_nil⟩

/-! ### Hexadecimal digits -/

/-- `apd_pc_hex_nibble`. -/
def hexNibble (c : UInt8) : Option ℕ :=
  if '0'.toUInt8 ≤ c ∧ c ≤ '9'.toUInt8 then some (c - '0'.toUInt8).toNat
  else if 'a'.toUInt8 ≤ c ∧ c ≤ 'f'.toUInt8 then some ((c - 'a'.toUInt8).toNat + 10)
  else if 'A'.toUInt8 ≤ c ∧ c ≤ 'F'.toUInt8 then some ((c - 'A'.toUInt8).toNat + 10)
  else none

/-- The separators in UUIDs and MACs. -/
def isSeparator (c : UInt8) : Bool := c == '-'.toUInt8 || c == ':'.toUInt8

/-- The loop of `apd_pc_hex_pack`, with the first digit of a byte and the bytes so far. -/
def hexPackLoop (outSize : ℕ) : List UInt8 → Option ℕ → List UInt8 → Option (List UInt8)
  | [], some _, _ => none
  | [], none, out => some out
  | c :: text, high, out =>
    if isSeparator c then hexPackLoop outSize text high out
    else
      match hexNibble c, high with
      | none, _ => none
      | some v, none => hexPackLoop outSize text (some v) out
      | some v, some h =>
        if out.length ≥ outSize then none
        else hexPackLoop outSize text none (out ++ [UInt8.ofNat (h <<< 4 ||| v)])

/-- `apd_pc_hex_pack`. -/
def hexPack (outSize : ℕ) (text : List UInt8) : Option (List UInt8) :=
  hexPackLoop outSize text none []

def lowerDigits : List UInt8 := ascii "0123456789abcdef"
def upperDigits : List UInt8 := ascii "0123456789ABCDEF"

/-- `out[o++] = hex[b >> 4]; out[o++] = hex[b & 15]`. -/
def hexByte (hex : List UInt8) (b : UInt8) : List UInt8 :=
  [hex.getD (b.toNat >>> 4) 0, hex.getD (b.toNat &&& 15) 0]

/-- The digits of some bytes. -/
def hexText (hex bs : List UInt8) : List UInt8 := bs.flatMap (hexByte hex)

/-- The digits of the groups of an UUID, from the second on with a hyphen in front. -/
def uuidGroups : List ℕ → List UInt8 → List UInt8
  | [], _ => []
  | n :: groups, value =>
    '-'.toUInt8 :: (hexText lowerDigits (value.take n) ++ uuidGroups groups (value.drop n))

/-- The text of an UUID. -/
def uuidText (value : List UInt8) : List UInt8 :=
  hexText lowerDigits (value.take 4) ++ uuidGroups [2, 2, 2, 6] (value.drop 4)

/-- The digits of the bytes of a MAC, from the second on with a colon in front. -/
def macRest (value : List UInt8) : List UInt8 :=
  value.flatMap fun b => ':'.toUInt8 :: hexByte upperDigits b

/-- The text of a MAC. -/
def macText : List UInt8 → List UInt8
  | [] => []
  | b :: value => hexByte upperDigits b ++ macRest value

/-- The text of a key id. -/
def keyidText (value : List UInt8) : List UInt8 := ascii "sha256:" ++ hexText lowerDigits value

/-! ### Addresses -/

/-- `isspace`. -/
def isSpace (c : UInt8) : Bool := c == 32 || (9 ≤ c && c ≤ 13)

/-- The sign in front of a number. -/
def scanSign : List UInt8 → Bool × List UInt8
  | [] => (false, [])
  | c :: s =>
    if c = '-'.toUInt8 then (true, s)
    else if c = '+'.toUInt8 then (false, s)
    else (false, c :: s)

/-- The conversion `%u`: blanks, a sign, and digits, of which the library keeps 32 bits of at most
    64. -/
def scanUnsigned (s : List UInt8) : Option (ℕ × List UInt8) :=
  let (negative, s) := scanSign (s.dropWhile isSpace)
  let digits := s.takeWhile Text.isDigit
  if digits = [] then none
  else
    let n := Text.digitsValue digits
    let n := if n ≥ 2 ^ 64 then 2 ^ 64 - 1 else if negative then (2 ^ 64 - n) % 2 ^ 64 else n
    some (n % 2 ^ 32, s.dropWhile Text.isDigit)

/-- A dot in a format. -/
def scanDot : List UInt8 → Option (List UInt8)
  | [] => none
  | c :: s => if c = dot then some s else none

/-- `sscanf(text, "%u.%u.%u.%u%c", …) == 4`: the last conversion finds nothing. -/
def ipv4Scan (text : List UInt8) : Option (ℕ × ℕ × ℕ × ℕ) := do
  let (a, s) ← scanUnsigned text
  let s ← scanDot s
  let (b, s) ← scanUnsigned s
  let s ← scanDot s
  let (c, s) ← scanUnsigned s
  let s ← scanDot s
  let (d, s) ← scanUnsigned s
  if s = [] then some (a, b, c, d) else none

/-- `apd_pc_ipv4_pack`. -/
def ipv4Pack (text : List UInt8) : Option (List UInt8) :=
  match ipv4Scan text with
  | none => none
  | some (a, b, c, d) =>
    if a > 255 ∨ b > 255 ∨ c > 255 ∨ d > 255 then none
    else some [UInt8.ofNat a, UInt8.ofNat b, UInt8.ofNat c, UInt8.ofNat d]

/-- The format `"%u.%u.%u.%u"`. -/
def dotted (a b c d : ℕ) : List UInt8 :=
  Text.decimal a ++ dot :: (Text.decimal b ++ dot :: (Text.decimal c ++ dot :: Text.decimal d))

/-! ### Lengths and terminators -/

variable {c : UInt8} {hex : List UInt8}

theorem mem_hexByte {b : UInt8} (hhex : hex.length = 16) (h : c ∈ hexByte hex b) : c ∈ hex := by
  have hlow : b.toNat &&& 15 < hex.length := by
    rw [hhex]
    exact Nat.lt_succ_of_le Nat.and_le_right
  have hhigh : b.toNat >>> 4 < hex.length := by
    have hb := b.toNat_lt
    rw [hhex, Nat.shiftRight_eq_div_pow]
    omega
  unfold hexByte at h
  rw [getD_eq_getElem _ _ hhigh, getD_eq_getElem _ _ hlow] at h
  rcases mem_cons.mp h with rfl | h
  · exact getElem_mem _
  · rw [mem_singleton.mp h]
    exact getElem_mem _

@[simp] theorem length_hexText (hex bs : List UInt8) : (hexText hex bs).length = 2 * bs.length := by
  unfold hexText
  induction bs with
  | nil => rfl
  | cons b bs ih =>
    rw [flatMap_cons, length_append, ih, length_cons]
    show 2 + _ = _
    omega

variable {bs : List UInt8}

theorem notMem_hexText (hhex : hex.length = 16) (hzero : 0 ∉ hex) : 0 ∉ hexText hex bs := by
  intro hmem
  obtain ⟨b, -, hb⟩ := mem_flatMap.mp hmem
  exact hzero (mem_hexByte hhex hb)

theorem notMem_lower (bs : List UInt8) : 0 ∉ hexText lowerDigits bs :=
  notMem_hexText (by decide) (by decide)

variable {value : List UInt8}

theorem length_uuidGroups (groups : List ℕ) (h : value.length = groups.sum) :
    (uuidGroups groups value).length = groups.length + 2 * value.length := by
  induction groups generalizing value with
  | nil =>
    rw [sum_nil] at h
    rw [h]
    rfl
  | cons n groups ih =>
    rw [sum_cons] at h
    have hrest : (value.drop n).length = groups.sum := by
      rw [length_drop]
      omega
    rw [uuidGroups, length_cons, length_append, length_hexText, ih hrest,
      length_take, length_drop, length_cons]
    omega

theorem notMem_uuidGroups (groups : List ℕ) (value : List UInt8) : 0 ∉ uuidGroups groups value := by
  induction groups generalizing value with
  | nil => exact not_mem_nil
  | cons n groups ih =>
    rw [uuidGroups, mem_cons, mem_append, not_or, not_or]
    exact ⟨by decide, notMem_lower _, ih _⟩

variable {n : ℕ}

theorem uuidText_fits (h : value.length = 16) (hn : 36 ≤ n) :
    (uuidText value).length ≤ n ∧ 0 ∉ uuidText value := by
  constructor
  · unfold uuidText
    have hrest : (value.drop 4).length = [2, 2, 2, 6].sum := by
      rw [length_drop, h]
      rfl
    rw [length_append, length_hexText, length_uuidGroups _ hrest, length_take, length_drop, h]
    exact hn
  · unfold uuidText
    rw [mem_append, not_or]
    exact ⟨notMem_lower _, notMem_uuidGroups _ _⟩

theorem keyidText_fits (h : 7 + value.length * 2 ≤ n) :
    (keyidText value).length ≤ n ∧ 0 ∉ keyidText value := by
  unfold keyidText
  rw [length_append, length_hexText, mem_append, not_or]
  refine ⟨?_, by decide, notMem_lower _⟩
  show 7 + _ ≤ _
  omega

theorem length_macRest (value : List UInt8) : (macRest value).length = 3 * value.length := by
  unfold macRest
  induction value with
  | nil => rfl
  | cons b value ih =>
    rw [flatMap_cons, length_append, ih, length_cons, length_cons]
    show 2 + 1 + _ = _
    omega

theorem macText_fits (h : value.length = 6) (hn : 17 ≤ n) :
    (macText value).length ≤ n ∧ 0 ∉ macText value := by
  have hbyte : ∀ b, 0 ∉ hexByte upperDigits b := fun b hb =>
    absurd (mem_hexByte (by decide) hb) (by decide)
  cases value with
  | nil => cases h
  | cons b value =>
    rw [length_cons] at h
    unfold macText
    rw [length_append, length_macRest, mem_append, not_or]
    refine ⟨?_, hbyte b, ?_⟩
    · show 2 + _ ≤ _
      omega
    · intro hmem
      obtain ⟨c, -, hc⟩ := mem_flatMap.mp hmem
      rcases mem_cons.mp hc with hzero | hc
      · exact absurd hzero (by decide)
      · exact hbyte c hc

theorem notMem_dotted (a b c d : ℕ) : 0 ∉ dotted a b c d := by
  have hdigits : ∀ n, (0 : UInt8) ∉ Text.decimal n := fun n hmem =>
    absurd (Text.isDigit_of_mem_decimal hmem) (by decide)
  have hdot : (0 : UInt8) ≠ dot := by decide
  unfold dotted
  simp only [mem_append, mem_cons, not_or]
  exact ⟨hdigits a, hdot, hdigits b, hdot, hdigits c, hdot, hdigits d⟩

theorem length_decimal_le (h : n < 256) : (Text.decimal n).length ≤ 3 := by
  revert n
  decide +kernel

theorem length_dotted_le {a b c d : ℕ} (ha : a < 256) (hb : b < 256) (hc : c < 256)
    (hd : d < 256) : (dotted a b c d).length ≤ 15 := by
  have hla := length_decimal_le ha
  have hlb := length_decimal_le hb
  have hlc := length_decimal_le hc
  have hld := length_decimal_le hd
  unfold dotted
  simp only [length_append, length_cons]
  omega

/-! ### Reading a field -/

/-- Printable ASCII. -/
def Printable (s : List UInt8) : Prop := ∀ b ∈ s, 0x20 ≤ b ∧ b ≤ 0x7e

instance (s : List UInt8) : Decidable (Printable s) := List.decidableBAll _ s

theorem Printable.notMem {s : List UInt8} (h : Printable s) : 0 ∉ s :=
  fun hmem => absurd (h 0 hmem).1 (by decide)

/-- `apd_pc_copy` to an array of `n + 1` characters. -/
def copy (n : ℕ) (value : List UInt8) : Except Result (Str n) :=
  if hlength : value.length ≥ n + 1 then .error .errField
  else if hprint : Printable value then
    .ok ⟨value, Nat.le_of_lt_succ (Nat.lt_of_not_le hlength), hprint.notMem⟩
  else .error .errField

/-- `apd_pc_uuid_unpack`. -/
def uuidUnpack (n : ℕ) (value : List UInt8) : Except Result (Str n) :=
  if h : value.length ≠ 16 ∨ n + 1 < 37 then .error .errField
  else .ok ⟨uuidText value, uuidText_fits (by omega) (by omega)⟩

/-- `apd_pc_keyid_unpack`. -/
def keyidUnpack (n : ℕ) (value : List UInt8) : Except Result (Str n) :=
  if h : value.length = 0 ∨ n + 1 < 7 + value.length * 2 + 1 then .error .errField
  else .ok ⟨keyidText value, keyidText_fits (by omega)⟩

/-- `apd_pc_mac_unpack`. -/
def macUnpack (n : ℕ) (value : List UInt8) : Except Result (Str n) :=
  if h : value.length ≠ 6 ∨ n + 1 < 18 then .error .errField
  else .ok ⟨macText value, macText_fits (by omega) (by omega)⟩

/-- `apd_pc_ipv4_unpack`. -/
def ipv4Unpack (n : ℕ) (value : List UInt8) : Except Result (Str n) :=
  match value with
  | [a, b, c, d] =>
    if h : (dotted a.toNat b.toNat c.toNat d.toNat).length ≥ n + 1 then .error .errField
    else .ok ⟨dotted a.toNat b.toNat c.toNat d.toNat, by omega, notMem_dotted _ _ _ _⟩
  | _ => .error .errField

/-- `apd_pc_u16`. -/
def readU16 (value : List UInt8) : Except Result UInt16 :=
  match value with
  | [high, low] => .ok (UInt16.ofNat (high.toNat <<< 8 ||| low.toNat))
  | _ => .error .errField

/-! ### What is packed keeps its digits -/

/-- What is left of a text without its separators. -/
def digitsOf (s : List UInt8) : List UInt8 := s.filter fun c => !isSeparator c

/-- A text is the digits of so many bytes. -/
def IsHex (s : List UInt8) (n : ℕ) : Prop :=
  (∀ c ∈ digitsOf s, (hexNibble c).isSome = true) ∧ (digitsOf s).length = 2 * n

instance (s : List UInt8) (n : ℕ) : Decidable (IsHex s n) :=
  have : Decidable (∀ c ∈ digitsOf s, (hexNibble c).isSome = true) := List.decidableBAll _ _
  inferInstanceAs (Decidable (_ ∧ _))

/-- A digit in the case of some digits. -/
def recase (hex : List UInt8) (c : UInt8) : UInt8 := hex.getD ((hexNibble c).getD 0) 0

variable {v : ℕ}

theorem hexNibble_lt (h : hexNibble c = some v) : v < 16 := by
  have hall : ∀ n < 256, ∀ v ∈ hexNibble (UInt8.ofNat n), v < 16 := by decide +kernel
  refine hall c.toNat c.toNat_lt v ?_
  rw [UInt8.ofNat_toNat]
  exact h

theorem hexByte_of_nibbles (hex : List UInt8) {h : ℕ} (hh : h < 16) (hv : v < 16) :
    hexByte hex (UInt8.ofNat (h <<< 4 ||| v)) = [hex.getD h 0, hex.getD v 0] := by
  have hall : ∀ h < 16, ∀ v < 16, (UInt8.ofNat (h <<< 4 ||| v)).toNat >>> 4 = h ∧
      (UInt8.ofNat (h <<< 4 ||| v)).toNat &&& 15 = v := by decide +kernel
  obtain ⟨hhigh, hlow⟩ := hall h hh v hv
  unfold hexByte
  rw [hhigh, hlow]

theorem digitsOf_cons_separator (h : isSeparator c = true) (s : List UInt8) :
    digitsOf (c :: s) = digitsOf s := by
  unfold digitsOf
  rw [filter_cons_of_neg]
  simp [h]

theorem digitsOf_cons (h : ¬ isSeparator c = true) (s : List UInt8) :
    digitsOf (c :: s) = c :: digitsOf s := by
  unfold digitsOf
  rw [filter_cons_of_pos]
  simpa using h

variable {text : List UInt8} {outSize : ℕ} {high : Option ℕ} {out : List UInt8}

/-- The bytes of a text have its digits, in either case. -/
theorem hexPackLoop_text {all : List UInt8}
    (hhigh : ∀ v ∈ high, v < 16) (h : hexPackLoop outSize text high out = some all) :
    ∃ bs, all = out ++ bs ∧ (∀ c ∈ digitsOf text, (hexNibble c).isSome = true) ∧
      ∀ hex, hexText hex bs =
        (high.toList.map fun v => hex.getD v 0) ++ (digitsOf text).map (recase hex) := by
  induction text generalizing high out with
  | nil =>
    cases high with
    | some v => cases h
    | none =>
      cases h
      exact ⟨[], (append_nil _).symm, nofun, fun _ => rfl⟩
  | cons c text ih =>
    unfold hexPackLoop at h
    split at h
    · next hsep =>
      rw [digitsOf_cons_separator hsep]
      exact ih hhigh h
    rename_i hsep
    rw [digitsOf_cons hsep]
    cases hc : hexNibble c with
    | none =>
      rw [hc] at h
      cases h
    | some v =>
      have hv := hexNibble_lt hc
      have hrecase : ∀ hex, recase hex c = hex.getD v 0 := fun hex => by
        unfold recase
        rw [hc]
        rfl
      have hhex : (hexNibble c).isSome = true := by rw [hc]; rfl
      rw [hc] at h
      cases high with
      | none =>
        obtain ⟨bs, hall, hdigits, htext⟩ := ih (fun w hw => by cases hw; exact hv) h
        refine ⟨bs, hall, forall_mem_cons.mpr ⟨hhex, hdigits⟩, fun hex => ?_⟩
        rw [htext, map_cons, hrecase]
        rfl
      | some u =>
        dsimp only at h
        split at h
        · cases h
        have hnone : ∀ w ∈ (none : Option ℕ), w < 16 := fun w hw => by cases hw
        obtain ⟨bs, rfl, hdigits, htext⟩ := ih hnone h
        refine ⟨UInt8.ofNat (u <<< 4 ||| v) :: bs, by rw [append_assoc]; rfl,
          forall_mem_cons.mpr ⟨hhex, hdigits⟩, fun hex => ?_⟩
        have hcons : hexText hex (UInt8.ofNat (u <<< 4 ||| v) :: bs) =
            hexByte hex (UInt8.ofNat (u <<< 4 ||| v)) ++ hexText hex bs := flatMap_cons
        rw [hcons, hexByte_of_nibbles hex (hhigh u rfl) hv, htext, map_cons, hrecase]
        rfl

/-- **Hexadecimal text that is packed keeps its digits.** -/
theorem hexPack_text {text : List UInt8} (h : hexPack outSize text = some bs) :
    IsHex text bs.length ∧ ∀ hex, hexText hex bs = (digitsOf text).map (recase hex) := by
  have hnone : ∀ w ∈ (none : Option ℕ), w < 16 := fun w hw => by cases hw
  obtain ⟨bs', rfl, hdigits, htext⟩ := hexPackLoop_text hnone h
  have hlength := congrArg List.length (htext lowerDigits)
  rw [length_hexText] at hlength
  simp only [toList_none, map_nil, nil_append, length_map] at hlength htext
  exact ⟨⟨hdigits, hlength.symm⟩, htext⟩

theorem hexPackLoop_isSome {n : ℕ} (hdigits : ∀ c ∈ digitsOf text, (hexNibble c).isSome = true)
    (hlength : high.toList.length + (digitsOf text).length = 2 * n)
    (hroom : out.length + n ≤ outSize) :
    (hexPackLoop outSize text high out).isSome = true := by
  induction text generalizing high out n with
  | nil =>
    cases high with
    | none => rfl
    | some v =>
      change 1 + 0 = 2 * n at hlength
      omega
  | cons c text ih =>
    unfold hexPackLoop
    by_cases hsep : isSeparator c = true
    · rw [if_pos hsep]
      rw [digitsOf_cons_separator hsep] at hdigits hlength
      exact ih hdigits hlength hroom
    rw [if_neg hsep]
    rw [digitsOf_cons hsep] at hdigits hlength
    rw [length_cons] at hlength
    obtain ⟨hc, hrest⟩ := forall_mem_cons.mp hdigits
    obtain ⟨v, hv⟩ := isSome_iff_exists.mp hc
    rw [hv]
    cases high with
    | none =>
      refine ih (n := n) hrest ?_ hroom
      rw [toList_none, length_nil] at hlength
      show 1 + _ = _
      omega
    | some u =>
      rw [toList_some, length_singleton] at hlength
      dsimp only
      rw [if_neg (by omega)]
      refine ih (n := n - 1) hrest ?_ ?_
      · rw [toList_none, length_nil]
        omega
      · rw [length_append, length_singleton]
        omega

theorem hexPack_of_isHex {n : ℕ} (h : IsHex text n)
    (hroom : n ≤ outSize) : ∃ bs, hexPack outSize text = some bs ∧ bs.length = n := by
  have hsome : (hexPack outSize text).isSome = true := by
    refine hexPackLoop_isSome h.1 ?_ (n := n) ?_
    · rw [h.2, toList_none, length_nil, Nat.zero_add]
    · rw [length_nil]
      omega
  obtain ⟨bs, hbs⟩ := isSome_iff_exists.mp hsome
  have hlength := (hexPack_text hbs).1.2
  rw [h.2] at hlength
  exact ⟨bs, hbs, by omega⟩

/-! ### Canonical spellings -/

theorem hexText_take (hex bs : List UInt8) (n : ℕ) :
    hexText hex (bs.take n) = (hexText hex bs).take (2 * n) := by
  induction bs generalizing n with
  | nil => simp [hexText]
  | cons b bs ih =>
    cases n with
    | zero => rfl
    | succ n =>
      show hexByte hex b ++ hexText hex (bs.take n) = (hexByte hex b ++ hexText hex bs).take _
      have hfirst : (hexByte hex b).take (2 + 2 * n) = hexByte hex b :=
        take_of_length_le (Nat.le_add_right 2 _)
      rw [ih, show 2 * (n + 1) = 2 + 2 * n by omega, take_append, hfirst]
      show _ = _ ++ (hexText hex bs).take (2 + 2 * n - 2)
      rw [Nat.add_sub_cancel_left]

theorem hexText_drop (hex bs : List UInt8) (n : ℕ) :
    hexText hex (bs.drop n) = (hexText hex bs).drop (2 * n) := by
  induction bs generalizing n with
  | nil => simp [hexText]
  | cons b bs ih =>
    cases n with
    | zero => rfl
    | succ n =>
      show hexText hex (bs.drop n) = (hexByte hex b ++ hexText hex bs).drop _
      rw [ih, show 2 * (n + 1) = 2 + 2 * n by omega, ← drop_drop]
      rfl

/-- Thirty-two digits in groups of eight, four, four, four and twelve. -/
def hyphenate (d : List UInt8) : List UInt8 :=
  let hyphen := '-'.toUInt8
  d.take 8 ++ hyphen :: ((d.drop 8).take 4 ++ hyphen :: ((d.drop 12).take 4 ++
    hyphen :: ((d.drop 16).take 4 ++ hyphen :: d.drop 20)))

/-- Digits in pairs. -/
def colonPairs : List UInt8 → List UInt8
  | a :: b :: c :: rest => a :: b :: ':'.toUInt8 :: colonPairs (c :: rest)
  | d => d

theorem uuidText_eq (h : value.length = 16) :
    uuidText value = hyphenate (hexText lowerDigits value) := by
  have hlast : ((hexText lowerDigits value).drop 20).take 12 = (hexText lowerDigits value).drop 20 := by
    refine take_of_length_le ?_
    rw [length_drop, length_hexText, h]
  unfold uuidText hyphenate
  simp only [uuidGroups, hexText_take, hexText_drop, drop_drop]
  rw [hlast, append_nil]

theorem macText_eq (value : List UInt8) : macText value = colonPairs (hexText upperDigits value) := by
  have hrest : ∀ (b : UInt8) (bs : List UInt8),
      hexByte upperDigits b ++ macRest bs = colonPairs (hexText upperDigits (b :: bs)) := by
    intro b bs
    induction bs generalizing b with
    | nil => rfl
    | cons c bs ih =>
      show hexByte upperDigits b ++ (':'.toUInt8 :: (hexByte upperDigits c ++ macRest bs)) = _
      rw [ih c]
      rfl
  cases value with
  | nil => rfl
  | cons b bs => exact hrest b bs

/-! ### Dotted quads -/

end DreamingOS.Paircode
