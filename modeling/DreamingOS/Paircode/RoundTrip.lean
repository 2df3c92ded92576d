import DreamingOS.Paircode.Records

namespace DreamingOS.Paircode

open List

/-!
# Pairing codes — decoding what was encoded

The encoder writes whatever a record holds. The decoder only takes printable text, and a record that
names what it is for. `codes_decode` says what comes out of a code that was made.

* `IsHex`, `KeyLike`, `QuadLike` — the fields that are packed;
* `ApRecord.Readable`, `ControllerRecord.Readable` — the records whose codes are decoded;
* `ApRecord.Spells` — the same announcement with its packed fields in their canonical spelling;
* `apDecode_encode`, `controllerDecode_encode` — a code is decoded to its record or refused.
-/

/-! ### One field -/

/-- A read of a field comes out as asked under a condition, and is refused otherwise. -/
structure Yields {α : Type} (read : Except Result α) (cond : Prop) (P : α → Prop) : Prop where
  ok : cond → ∃ x, read = .ok x ∧ P x
  err : ¬ cond → read = .error .errField

/-- What is read of a text field. -/
def readText {n : ℕ} (s : Str n) : Except Result (Str n) :=
  if Printable s.1 then .ok s else .error .errField

theorem copy_eq {n : ℕ} (s : Str n) : copy n s.1 = readText s := by
  have hlength : ¬ s.1.length ≥ n + 1 := Nat.not_le.mpr (Nat.lt_succ_of_le s.2.1)
  unfold copy readText
  rw [dif_neg hlength]
  rfl

theorem yields_text {n : ℕ} (s : Str n) : Yields (readText s) (Printable s.1) (· = s) :=
  ⟨fun h => ⟨s, if_pos h, rfl⟩, fun h => if_neg h⟩

section

variable {R : Type} (field : UInt8 → List UInt8 → R → Except Result R) {n : ℕ}

/-- A text field is read into its array; an absent one leaves the array as it is. -/
theorem fold_text (tag : Tag) (set : R → Str n → R)
    (hfield : ∀ value out, field tag.byte value out = (copy n value >>= fun x => .ok (set out x)))
    (s : Str n) (out : R) (hempty : s.1 = [] → set out s = out) :
    (textField tag s.1).foldlM (fun out f => field f.1.byte f.2 out) out =
      readText s >>= fun x => .ok (set out x) := by
  unfold textField
  split
  · next hnil =>
    have hprint : readText s = .ok s := if_pos (by rw [hnil]; exact nofun)
    rw [hprint]
    exact congrArg Except.ok (hempty hnil).symm
  · rw [foldlM_cons]
    show (field tag.byte s.1 out >>= fun out => .ok out) = _
    rw [hfield, copy_eq]
    cases readText s <;> rfl

/-- The field of an identifier that is packed if it has so many bytes. -/
def packedField (raw text : Tag) (size : ℕ) (value : List UInt8) : List (Tag × List UInt8) :=
  if IsHex value size then [(raw, (hexPack PACKED_MAX value).getD [])] else textField text value

variable {size : ℕ}

theorem writes_putPacked (w : Writer) (raw text : Tag) (value : List UInt8)
    (hpos : 0 < size) (hsize : size ≤ PACKED_MAX) :
    Writes w (putPacked w raw text size value) (packedField raw text size value) := by
  have hmax : PACKED_MAX = 64 := rfl
  unfold putPacked packedField
  by_cases hhex : IsHex value size
  · obtain ⟨bs, hbs, hlength⟩ := hexPack_of_isHex hhex hsize
    rw [if_pos hhex, hbs]
    dsimp only [Option.getD_some]
    rw [if_pos hlength]
    refine writes_putBytes w raw ?_ (by omega)
    exact ne_nil_of_length_pos (by omega)
  · rw [if_neg hhex]
    cases hpack : hexPack PACKED_MAX value with
    | none => exact writes_putString w text value
    | some packed =>
      dsimp only
      rw [if_neg]
      · exact writes_putString w text value
      · rintro rfl
        exact hhex (hexPack_text hpack).1

/-- What is read of an identifier. -/
def readPacked {n : ℕ} (unpack : List UInt8 → Except Result (Str n)) (size : ℕ) (s : Str n) :
    Except Result (Str n) :=
  if IsHex s.1 size then unpack ((hexPack PACKED_MAX s.1).getD []) else readText s

variable {unpack : List UInt8 → Except Result (Str n)}

theorem fold_packed (raw text : Tag) (size : ℕ) (set : R → Str n → R)
    (hraw : ∀ value out, field raw.byte value out = (unpack value >>= fun x => .ok (set out x)))
    (htext : ∀ value out, field text.byte value out = (copy n value >>= fun x => .ok (set out x)))
    (s : Str n) (out : R) (hempty : s.1 = [] → set out s = out) :
    (packedField raw text size s.1).foldlM (fun out f => field f.1.byte f.2 out) out =
      readPacked unpack size s >>= fun x => .ok (set out x) := by
  unfold packedField readPacked
  split
  · rw [foldlM_cons]
    show (field raw.byte _ out >>= fun out => .ok out) = _
    rw [hraw]
    cases unpack _ <;> rfl
  · exact fold_text field text set htext s out hempty

/-- An identifier is read in its canonical spelling. -/
theorem yields_packed
    {spell : List UInt8 → List UInt8} {hex : List UInt8} (hsize : size ≤ PACKED_MAX)
    (hunpack : ∀ value : List UInt8, value.length = size →
      ∃ x, unpack value = .ok x ∧ x.1 = spell (hexText hex value)) (s : Str n) :
    Yields (readPacked unpack size s) (IsHex s.1 size ∨ Printable s.1) fun x =>
      x.1 = if IsHex s.1 size then spell ((digitsOf s.1).map (recase hex)) else s.1 := by
  unfold readPacked
  by_cases hhex : IsHex s.1 size
  · obtain ⟨bs, hbs, hlength⟩ := hexPack_of_isHex hhex hsize
    obtain ⟨x, hx, hspell⟩ := hunpack bs hlength
    rw [if_pos hhex, if_pos hhex, hbs]
    refine ⟨fun _ => ⟨x, hx, ?_⟩, fun h => absurd (.inl hhex) h⟩
    rw [hspell, (hexPack_text hbs).2]
  · rw [if_neg hhex, if_neg hhex]
    refine ⟨fun h => ?_, fun h => (yields_text s).err fun hp => h (.inr hp)⟩
    obtain ⟨x, hx, rfl⟩ := (yields_text s).ok (h.resolve_left hhex)
    exact ⟨x, hx, rfl⟩

end

/-! ### Key ids -/

/-- A key id whose digest is packed. -/
def KeyLike (s : List UInt8) : Prop :=
  s.take 7 = SHA256 ∧ 0 < (digitsOf (s.drop 7)).length ∧
    IsHex (s.drop 7) ((digitsOf (s.drop 7)).length / 2)

instance (s : List UInt8) : Decidable (KeyLike s) := inferInstanceAs (Decidable (_ ∧ _ ∧ _))

def keyField (s : List UInt8) : List (Tag × List UInt8) :=
  if KeyLike s then [(.keyIdRaw, (hexPack PACKED_MAX (s.drop 7)).getD [])] else textField .keyId s

/-- The digits behind the marker of a key id that fits into its array. -/
theorem digits_le (s : Str 71) : (digitsOf (s.1.drop 7)).length ≤ 64 := by
  have hlength := s.2.1
  calc (digitsOf (s.1.drop 7)).length ≤ (s.1.drop 7).length := length_filter_le _ _
    _ ≤ 64 := by
      rw [length_drop]
      omega

theorem hexPack_of_keyLike {s : Str 71} (h : KeyLike s.1) :
    ∃ bs, hexPack PACKED_MAX (s.1.drop 7) = some bs ∧ 0 < bs.length ∧ bs.length ≤ 32 := by
  have hle := digits_le s
  have hmax : PACKED_MAX = 64 := rfl
  have hroom : (digitsOf (s.1.drop 7)).length / 2 ≤ PACKED_MAX := by omega
  obtain ⟨bs, hbs, hlength⟩ := hexPack_of_isHex h.2.2 hroom
  have heven := h.2.2.2
  have hpos := h.2.1
  exact ⟨bs, hbs, by omega, by omega⟩

variable {s : List UInt8}

/-- The first colon of a key id with the marker is the marker's. -/
theorem dropWhile_marker (h : s.take 7 = SHA256) :
    s.dropWhile (· != ':'.toUInt8) = ':'.toUInt8 :: s.drop 7 := by
  conv_lhs => rw [← take_append_drop 7 s, h]
  rfl

theorem writes_putKeyId (w : Writer) (s : Str 71) : Writes w (putKeyId w s.1) (keyField s.1) := by
  unfold putKeyId keyField
  by_cases hkey : KeyLike s.1
  · obtain ⟨bs, hbs, hpos, hle⟩ := hexPack_of_keyLike hkey
    have hne : s.1 ≠ [] := by
      intro hnil
      have hmarker := hkey.1
      rw [hnil] at hmarker
      cases hmarker
    rw [if_neg hne, if_pos hkey, dropWhile_marker hkey.1]
    dsimp only
    rw [hbs]
    dsimp only [Option.getD_some]
    rw [if_pos ⟨hpos, hkey.1⟩]
    exact writes_putBytes w .keyIdRaw (ne_nil_of_length_pos hpos) (by omega)
  · rw [if_neg hkey]
    have htext := writes_putString w .keyId s.1
    split
    · next hnil =>
      rw [hnil]
      exact .nil w
    split
    · exact htext
    rename_i c hex hdrop
    cases hpack : hexPack PACKED_MAX hex with
    | none => exact htext
    | some packed =>
      dsimp only
      split
      · next hpacked =>
        -- then the key id would have been packed
        exfalso
        obtain ⟨hpos, hmarker⟩ := hpacked
        rw [dropWhile_marker hmarker] at hdrop
        obtain ⟨-, rfl⟩ := List.cons.inj hdrop
        obtain ⟨hhex, -⟩ := hexPack_text hpack
        have hcount := hhex.2
        refine hkey ⟨hmarker, by omega, ?_⟩
        rwa [hcount, Nat.mul_div_cancel_left _ (by decide)]
      · exact htext

def readKeyId (s : Str 71) : Except Result (Str 71) :=
  if KeyLike s.1 then keyidUnpack 71 ((hexPack PACKED_MAX (s.1.drop 7)).getD []) else readText s

theorem yields_keyId (s : Str 71) : Yields (readKeyId s) (KeyLike s.1 ∨ Printable s.1) fun x =>
      x.1 = if KeyLike s.1 then SHA256 ++ (digitsOf (s.1.drop 7)).map (recase lowerDigits)
        else s.1 := by
  unfold readKeyId
  by_cases hkey : KeyLike s.1
  · obtain ⟨bs, hbs, hpos, hle⟩ := hexPack_of_keyLike hkey
    rw [if_pos hkey, if_pos hkey, hbs]
    refine ⟨fun _ => ?_, fun h => absurd (.inl hkey) h⟩
    have hfits : ¬ (bs.length = 0 ∨ 71 + 1 < 7 + bs.length * 2 + 1) := by omega
    refine ⟨⟨keyidText bs, keyidText_fits (by omega)⟩, dif_neg hfits, ?_⟩
    show keyidText bs = _
    unfold keyidText
    rw [(hexPack_text hbs).2]
    rfl
  · rw [if_neg hkey, if_neg hkey]
    refine ⟨fun h => ?_, fun h => (yields_text s).err fun hp => h (.inr hp)⟩
    obtain ⟨x, hx, rfl⟩ := (yields_text s).ok (h.resolve_left hkey)
    exact ⟨x, hx, rfl⟩

/-! ### Addresses and ports -/

/-- An address that is packed: it reads as four numbers of one byte. -/
def QuadLike (s : List UInt8) (a b c d : ℕ) : Prop :=
  ipv4Scan s = some (a, b, c, d) ∧ a < 256 ∧ b < 256 ∧ c < 256 ∧ d < 256

theorem ipv4Pack_of_quad {a b c d : ℕ} (h : QuadLike s a b c d) :
    ipv4Pack s = some [UInt8.ofNat a, UInt8.ofNat b, UInt8.ofNat c, UInt8.ofNat d] := by
  obtain ⟨hscan, ha, hb, hc, hd⟩ := h
  unfold ipv4Pack
  rw [hscan]
  exact if_neg (by omega)

theorem quad_of_ipv4Pack {packed : List UInt8} (h : ipv4Pack s = some packed) :
    ∃ a b c d, QuadLike s a b c d := by
  unfold ipv4Pack at h
  split at h
  · cases h
  rename_i a b c d hscan
  split at h
  · cases h
  · exact ⟨a, b, c, d, hscan, by omega, by omega, by omega, by omega⟩

def ipField (s : List UInt8) : List (Tag × List UInt8) :=
  match ipv4Pack s with
  | some packed => [(.ipv4Raw, packed)]
  | none => textField .mgmtIp s

theorem writes_putMgmtIp (w : Writer) (s : List UInt8) : Writes w (putMgmtIp w s) (ipField s) := by
  unfold putMgmtIp ipField
  split
  · next hnil =>
    rw [hnil]
    exact .nil w
  cases hpack : ipv4Pack s with
  | none => exact writes_putString w .mgmtIp s
  | some packed =>
    obtain ⟨a, b, c, d, hquad⟩ := quad_of_ipv4Pack hpack
    rw [ipv4Pack_of_quad hquad] at hpack
    cases hpack
    refine writes_putBytes w .ipv4Raw (cons_ne_nil _ _) ?_
    show 4 ≤ 255
    decide

def readMgmtIp (s : Str 253) : Except Result (Str 253) :=
  match ipv4Pack s.1 with
  | some packed => ipv4Unpack 253 packed
  | none => readText s

theorem yields_mgmtIp (s : Str 253) :
    Yields (readMgmtIp s) ((∃ a b c d, QuadLike s.1 a b c d) ∨ Printable s.1) fun x =>
      (∀ a b c d, QuadLike s.1 a b c d → x.1 = dotted a b c d) ∧
        ((¬ ∃ a b c d, QuadLike s.1 a b c d) → x = s) := by
  unfold readMgmtIp
  cases hpack : ipv4Pack s.1 with
  | some packed =>
    obtain ⟨a, b, c, d, hquad⟩ := quad_of_ipv4Pack hpack
    refine ⟨fun _ => ?_, fun h => absurd (.inl ⟨a, b, c, d, hquad⟩) h⟩
    rw [ipv4Pack_of_quad hquad] at hpack
    cases hpack
    obtain ⟨hscan, ha, hb, hc, hd⟩ := hquad
    have hbyte : ∀ k, k < 256 → (UInt8.ofNat k).toNat = k := fun k hk => by
      rw [UInt8.toNat_ofNat']
      exact Nat.mod_eq_of_lt hk
    have hfits := length_dotted_le ha hb hc hd
    refine ⟨⟨dotted a b c d, by omega, notMem_dotted _ _ _ _⟩, ?_, ?_, ?_⟩
    · show ipv4Unpack 253 _ = _
      unfold ipv4Unpack
      simp only [hbyte a ha, hbyte b hb, hbyte c hc, hbyte d hd]
      exact dif_neg (by omega)
    · rintro a' b' c' d' ⟨hscan', -⟩
      rw [hscan] at hscan'
      cases hscan'
      rfl
    · exact fun h => absurd ⟨a, b, c, d, hscan, ha, hb, hc, hd⟩ h
  | none =>
    have hnone : ¬ ∃ a b c d, QuadLike s.1 a b c d := by
      rintro ⟨a, b, c, d, hquad⟩
      rw [ipv4Pack_of_quad hquad] at hpack
      cases hpack
    refine ⟨fun h => ?_, fun h => (yields_text s).err fun hp => h (.inr hp)⟩
    obtain ⟨x, hx, rfl⟩ := (yields_text s).ok (h.resolve_left hnone)
    exact ⟨x, hx, fun a b c d hquad => absurd ⟨a, b, c, d, hquad⟩ hnone, fun _ => rfl⟩

/-- A number is read back from its two bytes. -/
theorem readU16_bytes (value : UInt16) :
    readU16 [UInt8.ofNat (value.toNat >>> 8), UInt8.ofNat (value.toNat &&& 0xff)] = .ok value := by
  have hlt := value.toNat_lt
  have hmask : value.toNat &&& 0xff = value.toNat % 256 := Nat.and_two_pow_sub_one_eq_mod _ 8
  have hhigh : (UInt8.ofNat (value.toNat >>> 8)).toNat = value.toNat / 256 := by
    rw [UInt8.toNat_ofNat', Nat.shiftRight_eq_div_pow]
    omega
  have hlow : (UInt8.ofNat (value.toNat &&& 0xff)).toNat = value.toNat % 256 := by
    rw [UInt8.toNat_ofNat', hmask]
    omega
  have hjoin : (value.toNat / 256) <<< 8 ||| value.toNat % 256 = value.toNat := by
    rw [← Nat.shiftLeft_add_eq_or_of_lt (show value.toNat % 256 < 2 ^ 8 by omega), Nat.shiftLeft_eq]
    omega
  unfold readU16
  dsimp only
  rw [hhigh, hlow, hjoin, UInt16.ofNat_toNat]

theorem fold_u16 {R : Type} (field : UInt8 → List UInt8 → R → Except Result R)
    (tag : Tag) (set : R → UInt16 → R)
    (hfield : ∀ value out, field tag.byte value out = (readU16 value >>= fun x => .ok (set out x)))
    (value : UInt16) (out : R) (hzero : value = 0 → set out value = out) :
    (u16Field tag value).foldlM (fun out f => field f.1.byte f.2 out) out =
      .ok (set out value) := by
  unfold u16Field
  split
  · next h => exact congrArg Except.ok (hzero h).symm
  rw [foldlM_cons]
  show (field tag.byte _ out >>= fun out => .ok out) = _
  rw [hfield, readU16_bytes]
  rfl

/-! ### Announcements -/

/-- An announcement as it is sent in a form. -/
def ApRecord.inForm (r : ApRecord) : Form → ApRecord
  | .full => r
  | .compact => { r with model := .empty _, boardName := .empty _ }

def apFields (r : ApRecord) : List (Tag × List UInt8) :=
  packedField .apIdRaw .apId 16 r.apId.1 ++ (keyField r.keyId.1 ++
    (packedField .macRaw .mac 6 r.mac.1 ++ (textField .model r.model.1 ++
      (textField .board r.boardName.1 ++ (ipField r.mgmtIp.1 ++ u16Field .mgmtPort r.mgmtPort)))))

theorem writes_apPayload (r : ApRecord) (form : Form) :
    Writes (putByte .empty APD_PAIRCODE_SCHEMA) (apPayload r form) (apFields (r.inForm form)) := by
  have hmax : PACKED_MAX = 64 := rfl
  have hapId := fun w => writes_putPacked w .apIdRaw .apId r.apId.1
    (show 0 < 16 by omega) (show 16 ≤ PACKED_MAX by omega)
  have hmac := fun w => writes_putPacked w .macRaw .mac r.mac.1
    (show 0 < 6 by omega) (show 6 ≤ PACKED_MAX by omega)
  have htail : ∀ w, Writes w (putU16 (putMgmtIp w r.mgmtIp.1) .mgmtPort r.mgmtPort)
      (ipField r.mgmtIp.1 ++ u16Field .mgmtPort r.mgmtPort) := fun w =>
    (writes_putMgmtIp w r.mgmtIp.1).trans (writes_putU16 _ .mgmtPort r.mgmtPort)
  have hids : ∀ {w w' : Writer} {fs : List (Tag × List UInt8)},
      Writes (putPacked (putKeyId (putPacked w .apIdRaw .apId 16 r.apId.1) r.keyId.1)
        .macRaw .mac 6 r.mac.1) w' fs →
      Writes w w' (packedField .apIdRaw .apId 16 r.apId.1 ++ (keyField r.keyId.1 ++
        (packedField .macRaw .mac 6 r.mac.1 ++ fs))) := fun hrest =>
    (hapId _).trans ((writes_putKeyId _ r.keyId).trans ((hmac _).trans hrest))
  cases form with
  | full =>
    exact hids ((writes_putString _ .model r.model.1).trans
      ((writes_putString _ .board r.boardName.1).trans (htail _)))
  | compact => exact hids (htail _)

variable {outSize : ℕ}
variable {w : Writer} {fields : List (Tag × List UInt8)} {marker : List UInt8}

/-- The payload of a record that is encoded is the schema and its fields. -/
theorem data_of_finish {text : List UInt8}
    (hwrites : Writes (putByte .empty APD_PAIRCODE_SCHEMA) w fields)
    (h : finish marker w outSize = .ok text) :
    w.data = APD_PAIRCODE_SCHEMA :: fields.flatMap fieldBytes ∧ ∀ f ∈ fields, f.2.length ≤ 255 := by
  have hnone : w.overflow = false := by
    unfold finish at h
    split at h
    · cases h
    · next hfalse => simpa using hfalse
  obtain ⟨-, hdata, hshort⟩ := hwrites hnone
  exact ⟨hdata, hshort⟩

theorem length_fields_le (fields : List (Tag × List UInt8)) :
    fields.length ≤ (fields.flatMap fieldBytes).length := by
  induction fields with
  | nil => exact Nat.zero_le _
  | cons f fields ih =>
    rw [flatMap_cons, length_append, length_cons]
    unfold fieldBytes at ih ⊢
    rw [length_cons]
    omega

/-- **A code is read field by field.** -/
theorem decode_fields {R : Type} (field : UInt8 → List UInt8 → R → Except Result R)
    {text : List UInt8}
    (hwrites : Writes (putByte .empty APD_PAIRCODE_SCHEMA) w fields)
    (h : finish marker w outSize = .ok text) :
    ∃ payload, openCode marker text APD_PAIRCODE_PAYLOAD_MAX = .ok payload ∧
      payload.headD 0 = APD_PAIRCODE_SCHEMA ∧ ∀ out,
        decodeLoop field payload.length payload.tail out =
          fields.foldlM (fun out f => field f.1.byte f.2 out) out := by
  obtain ⟨hdata, hshort⟩ := data_of_finish hwrites h
  refine ⟨w.data, openCode_finish hdata h, by rw [hdata]; rfl, fun out => ?_⟩
  have hturns : fields.length ≤ w.data.length := by
    rw [hdata, length_cons]
    exact Nat.le_succ_of_le (length_fields_le fields)
  have htail : w.data.tail = fields.flatMap fieldBytes := by
    rw [hdata]
    rfl
  rw [htail, decodeLoop_fields field hshort hturns]

/-- What is read of an announcement. -/
def readAp (r : ApRecord) : Except Result ApRecord := do
  let apId ← readPacked (uuidUnpack 36) 16 r.apId
  let keyId ← readKeyId r.keyId
  let mac ← readPacked (macUnpack 17) 6 r.mac
  let model ← readText r.model
  let boardName ← readText r.boardName
  let mgmtIp ← readMgmtIp r.mgmtIp
  if apId.1 = [] then .error .errField
  else .ok ⟨1, apId, keyId, mac, model, boardName, mgmtIp, r.mgmtPort⟩

theorem eq_empty {n : ℕ} {s : Str n} (h : s.1 = []) : s = .empty n := Subtype.ext h

variable {out : ApRecord}

theorem fold_ip (s : Str 253) (hempty : out.mgmtIp = .empty _) :
    (ipField s.1).foldlM (fun out f => apField f.1.byte f.2 out) out =
      readMgmtIp s >>= fun x => .ok { out with mgmtIp := x } := by
  unfold ipField readMgmtIp
  cases ipv4Pack s.1 with
  | none =>
    refine fold_text apField .mgmtIp (fun out x => ({ out with mgmtIp := x } : ApRecord)) (fun _ _ => rfl) s
      out fun h => ?_
    rw [eq_empty h, ← hempty]
  | some packed =>
    dsimp only
    rw [foldlM_cons]
    show ((ipv4Unpack 253 packed >>= fun x => .ok { out with mgmtIp := x }) >>=
      fun out => .ok out) = _
    cases ipv4Unpack 253 packed <;> rfl

theorem fold_keyId (s : Str 71) (hempty : out.keyId = .empty _) :
    (keyField s.1).foldlM (fun out f => apField f.1.byte f.2 out) out =
      readKeyId s >>= fun x => .ok { out with keyId := x } := by
  unfold keyField readKeyId
  split
  · rw [foldlM_cons]
    show ((keyidUnpack 71 _ >>= fun x => .ok { out with keyId := x }) >>= fun out => .ok out) = _
    cases keyidUnpack 71 _ <;> rfl
  · refine fold_text apField .keyId (fun out x => ({ out with keyId := x } : ApRecord)) (fun _ _ => rfl) s
      out fun h => ?_
    rw [eq_empty h, ← hempty]

variable {α : Type}

/-- The first of some fields are read into one array. -/
theorem fold_then {R S : Type} {step : R → Tag × List UInt8 → Except Result R}
    {fs gs : List (Tag × List UInt8)} {out : R} {read : Except Result α} {set : α → R}
    {last : R → Except Result S} (h : fs.foldlM step out = read >>= fun x => .ok (set x)) :
    ((fs ++ gs).foldlM step out >>= last) =
      read >>= fun x => (gs.foldlM step (set x) >>= last) := by
  rw [foldlM_append, h]
  cases read <;> rfl

theorem fold_port (value : UInt16) (hzero : out.mgmtPort = 0) :
    (u16Field .mgmtPort value).foldlM (fun out f => apField f.1.byte f.2 out) out =
      .ok { out with mgmtPort := value } :=
  fold_u16 apField .mgmtPort (fun out x => { out with mgmtPort := x }) (fun _ _ => rfl) value out
    fun h => by rw [h, ← hzero]

/-- The fields of an announcement, read into empty arrays. -/
theorem fold_apFields (r : ApRecord) :
    ((apFields r).foldlM (fun out f => apField f.1.byte f.2 out) { ApRecord.zero with schema := 1 } >>=
      fun out => if out.apId.1 = [] then .error .errField else .ok out) = readAp r := by
  refine (fold_then (fold_packed apField .apIdRaw .apId 16
    (fun out x => ({ out with apId := x } : ApRecord)) (fun _ _ => rfl) (fun _ _ => rfl) r.apId _
    fun h => by rw [eq_empty h]; rfl)).trans (bind_congr fun apId => ?_)
  refine (fold_then (fold_keyId r.keyId rfl)).trans (bind_congr fun keyId => ?_)
  refine (fold_then (fold_packed apField .macRaw .mac 6
    (fun out x => ({ out with mac := x } : ApRecord)) (fun _ _ => rfl) (fun _ _ => rfl) r.mac _
    fun h => by rw [eq_empty h]; rfl)).trans (bind_congr fun mac => ?_)
  refine (fold_then (fold_text apField .model
    (fun out x => ({ out with model := x } : ApRecord)) (fun _ _ => rfl) r.model _
    fun h => by rw [eq_empty h]; rfl)).trans (bind_congr fun model => ?_)
  refine (fold_then (fold_text apField .board
    (fun out x => ({ out with boardName := x } : ApRecord)) (fun _ _ => rfl) r.boardName _
    fun h => by rw [eq_empty h]; rfl)).trans (bind_congr fun boardName => ?_)
  refine (fold_then (fold_ip r.mgmtIp rfl)).trans (bind_congr fun mgmtIp => ?_)
  rw [fold_port r.mgmtPort rfl]
  rfl

variable {text : List UInt8} {r : ApRecord} {form : Form}

theorem apDecode_eq
    (h : apEncodeForm r form outSize = .ok text) : apDecode text = readAp (r.inForm form) := by
  obtain ⟨payload, hopen, hschema, hloop⟩ := decode_fields apField (writes_apPayload r form) h
  unfold apDecode
  rw [hopen]
  show (decodeLoop apField payload.length payload.tail
    { ApRecord.zero with schema := (payload.headD 0).toNat } >>= _) = _
  rw [hloop, hschema]
  exact fold_apFields _

/-- An announcement whose code is decoded: it names the access point, and its text fields are
    printable. -/
structure ApRecord.Readable (r : ApRecord) : Prop where
  named : r.apId.1 ≠ []
  apId : IsHex r.apId.1 16 ∨ Printable r.apId.1
  keyId : KeyLike r.keyId.1 ∨ Printable r.keyId.1
  mac : IsHex r.mac.1 6 ∨ Printable r.mac.1
  model : Printable r.model.1
  boardName : Printable r.boardName.1
  mgmtIp : (∃ a b c d, QuadLike r.mgmtIp.1 a b c d) ∨ Printable r.mgmtIp.1

/-- The same announcement, its packed fields in their canonical spelling. -/
structure ApRecord.Spells (out r : ApRecord) : Prop where
  schema : out.schema = 1
  apId : out.apId.1 = if IsHex r.apId.1 16 then
    hyphenate ((digitsOf r.apId.1).map (recase lowerDigits)) else r.apId.1
  keyId : out.keyId.1 = if KeyLike r.keyId.1 then
    SHA256 ++ (digitsOf (r.keyId.1.drop 7)).map (recase lowerDigits) else r.keyId.1
  mac : out.mac.1 = if IsHex r.mac.1 6 then
    colonPairs ((digitsOf r.mac.1).map (recase upperDigits)) else r.mac.1
  model : out.model = r.model
  boardName : out.boardName = r.boardName
  quad : ∀ a b c d, QuadLike r.mgmtIp.1 a b c d → out.mgmtIp.1 = dotted a b c d
  mgmtIp : (¬ ∃ a b c d, QuadLike r.mgmtIp.1 a b c d) → out.mgmtIp = r.mgmtIp
  mgmtPort : out.mgmtPort = r.mgmtPort

theorem yields_apId (s : Str 36) :
    Yields (readPacked (uuidUnpack 36) 16 s) (IsHex s.1 16 ∨ Printable s.1) fun x =>
      x.1 = if IsHex s.1 16 then hyphenate ((digitsOf s.1).map (recase lowerDigits)) else s.1 := by
  refine yields_packed (by decide) (fun value hvalue => ?_) s
  have hfits : ¬ (value.length ≠ 16 ∨ 36 + 1 < 37) := by omega
  exact ⟨⟨uuidText value, uuidText_fits hvalue (by decide)⟩, dif_neg hfits, uuidText_eq hvalue⟩

theorem yields_mac (s : Str 17) :
    Yields (readPacked (macUnpack 17) 6 s) (IsHex s.1 6 ∨ Printable s.1) fun x =>
      x.1 = if IsHex s.1 6 then colonPairs ((digitsOf s.1).map (recase upperDigits)) else s.1 := by
  refine yields_packed (by decide) (fun value hvalue => ?_) s
  have hfits : ¬ (value.length ≠ 6 ∨ 17 + 1 < 18) := by omega
  exact ⟨⟨macText value, macText_fits hvalue (by decide)⟩, dif_neg hfits, macText_eq value⟩

variable {cond : Prop}

/-- A read behind a read that is refused. -/
theorem Yields.bind_err {β : Type} {read : Except Result α} {P : α → Prop}
    (h : Yields read cond P) (hnot : ¬ cond) (rest : α → Except Result β) :
    (read >>= rest) = .error .errField := by
  rw [h.err hnot]
  rfl

/-- Reads are refused one behind the other. -/
theorem Yields.bind_refused {β : Type} {read : Except Result α} {P : α → Prop}
    (h : Yields read cond P) {rest : α → Except Result β}
    (hrest : ∀ x, P x → cond → rest x = .error .errField) : (read >>= rest) = .error .errField := by
  by_cases hcond : cond
  · obtain ⟨x, hx, hP⟩ := h.ok hcond
    rw [hx]
    exact hrest x hP hcond
  · exact h.bind_err hcond rest

/-- A readable announcement is read in its canonical spelling. -/
theorem readAp_ok (h : r.Readable) : ∃ out, readAp r = .ok out ∧ out.Spells r := by
  obtain ⟨apId, hapId, hapIdText⟩ := (yields_apId r.apId).ok h.apId
  obtain ⟨keyId, hkeyId, hkeyIdText⟩ := (yields_keyId r.keyId).ok h.keyId
  obtain ⟨mac, hmac, hmacText⟩ := (yields_mac r.mac).ok h.mac
  obtain ⟨model, hmodel, hmodelText⟩ := (yields_text r.model).ok h.model
  obtain ⟨board, hboard, hboardText⟩ := (yields_text r.boardName).ok h.boardName
  obtain ⟨ip, hip, hquad, hipText⟩ := (yields_mgmtIp r.mgmtIp).ok h.mgmtIp
  have hnamed : apId.1 ≠ [] := by
    rw [hapIdText]
    split
    · unfold hyphenate
      exact append_ne_nil_of_right_ne_nil _ (cons_ne_nil _ _)
    · exact h.named
  refine ⟨⟨1, apId, keyId, mac, model, board, ip, r.mgmtPort⟩, ?_,
    rfl, hapIdText, hkeyIdText, hmacText, hmodelText, hboardText, hquad, hipText, rfl⟩
  unfold readAp
  rw [hapId, hkeyId, hmac, hmodel, hboard, hip]
  exact if_neg hnamed

/-- Any other announcement is refused. -/
theorem readAp_err (h : ¬ r.Readable) : readAp r = .error .errField := by
  refine (yields_apId r.apId).bind_refused fun apId hapIdText hapId => ?_
  refine (yields_keyId r.keyId).bind_refused fun keyId _ hkeyId => ?_
  refine (yields_mac r.mac).bind_refused fun mac _ hmac => ?_
  refine (yields_text r.model).bind_refused fun model _ hmodel => ?_
  refine (yields_text r.boardName).bind_refused fun board _ hboard => ?_
  refine (yields_mgmtIp r.mgmtIp).bind_refused fun ip _ hip => ?_
  -- all fields were read, so that the name is missing
  have hnil : r.apId.1 = [] := by
    by_contra hnamed
    exact h ⟨hnamed, hapId, hkeyId, hmac, hmodel, hboard, hip⟩
  refine if_pos ?_
  rw [hapIdText, hnil]
  rfl

/-- **The code of an announcement is decoded to it, or refused where it is not readable.** -/
theorem apDecode_encode (h : apEncodeForm r form outSize = .ok text) :
    ((r.inForm form).Readable → ∃ out, apDecode text = .ok out ∧ out.Spells (r.inForm form)) ∧
      (¬ (r.inForm form).Readable → apDecode text = .error .errField) := by
  rw [apDecode_eq h]
  exact ⟨readAp_ok, readAp_err⟩

/-! ### Bootstrap codes -/

def controllerFields (r : ControllerRecord) : List (Tag × List UInt8) :=
  textField .ctrlHost r.controllerHost.1 ++ (u16Field .ctrlPort r.controllerPort ++
    (textField .ctrlId r.controllerId.1 ++ (textField .tokenId r.tokenId.1 ++
      (textField .token r.token.1 ++ textField .siteId r.siteId.1))))

theorem writes_controllerPayload (r : ControllerRecord) :
    Writes (putByte .empty APD_PAIRCODE_SCHEMA) (controllerPayload r) (controllerFields r) :=
  (writes_putString _ .ctrlHost _).trans ((writes_putU16 _ .ctrlPort _).trans
    ((writes_putString _ .ctrlId _).trans ((writes_putString _ .tokenId _).trans
      ((writes_putString _ .token _).trans (writes_putString _ .siteId _)))))

/-- What is read of a bootstrap record. -/
def readController (r : ControllerRecord) : Except Result ControllerRecord := do
  let host ← readText r.controllerHost
  let controllerId ← readText r.controllerId
  let tokenId ← readText r.tokenId
  let token ← readText r.token
  let siteId ← readText r.siteId
  if host.1 = [] ∨ token.1 = [] ∨ tokenId.1 = [] then .error .errField
  else .ok ⟨1, host, r.controllerPort, controllerId, tokenId, token, siteId⟩

theorem fold_controllerFields (r : ControllerRecord) :
    ((controllerFields r).foldlM (fun out f => controllerField f.1.byte f.2 out)
        { ControllerRecord.zero with schema := 1 } >>=
      fun out => if out.controllerHost.1 = [] ∨ out.token.1 = [] ∨ out.tokenId.1 = [] then
        .error .errField else .ok out) = readController r := by
  refine (fold_then (fold_text controllerField .ctrlHost
    (fun out x => ({ out with controllerHost := x } : ControllerRecord)) (fun _ _ => rfl)
    r.controllerHost _ fun h => by rw [eq_empty h]; rfl)).trans (bind_congr fun host => ?_)
  rw [foldlM_append, fold_u16 controllerField .ctrlPort
    (fun out x => ({ out with controllerPort := x } : ControllerRecord)) (fun _ _ => rfl)
    r.controllerPort _ fun h => by rw [h]; rfl]
  refine (fold_then (fold_text controllerField .ctrlId
    (fun out x => ({ out with controllerId := x } : ControllerRecord)) (fun _ _ => rfl)
    r.controllerId _ fun h => by rw [eq_empty h]; rfl)).trans (bind_congr fun controllerId => ?_)
  refine (fold_then (fold_text controllerField .tokenId
    (fun out x => ({ out with tokenId := x } : ControllerRecord)) (fun _ _ => rfl)
    r.tokenId _ fun h => by rw [eq_empty h]; rfl)).trans (bind_congr fun tokenId => ?_)
  refine (fold_then (fold_text controllerField .token
    (fun out x => ({ out with token := x } : ControllerRecord)) (fun _ _ => rfl)
    r.token _ fun h => by rw [eq_empty h]; rfl)).trans (bind_congr fun token => ?_)
  rw [fold_text controllerField .siteId
    (fun out x => ({ out with siteId := x } : ControllerRecord)) (fun _ _ => rfl)
    r.siteId _ fun h => by rw [eq_empty h]; rfl]
  cases readText r.siteId <;> rfl

theorem controllerDecode_eq {r : ControllerRecord}
    (h : controllerEncode r outSize = .ok text) : controllerDecode text = readController r := by
  obtain ⟨payload, hopen, hschema, hloop⟩ :=
    decode_fields controllerField (writes_controllerPayload r) h
  unfold controllerDecode
  rw [hopen]
  show (decodeLoop controllerField payload.length payload.tail
    { ControllerRecord.zero with schema := (payload.headD 0).toNat } >>= _) = _
  rw [hloop, hschema]
  exact fold_controllerFields r

/-- A bootstrap record whose code is decoded: it says where to go and with which token, and is
    printable. -/
structure ControllerRecord.Readable (r : ControllerRecord) : Prop where
  host : r.controllerHost.1 ≠ []
  token : r.token.1 ≠ []
  tokenId : r.tokenId.1 ≠ []
  printable : Printable r.controllerHost.1 ∧ Printable r.controllerId.1 ∧ Printable r.tokenId.1 ∧
    Printable r.token.1 ∧ Printable r.siteId.1

/-- **A bootstrap code is decoded to its record, or refused where it is not readable.** -/
theorem controllerDecode_encode {r : ControllerRecord} (h : controllerEncode r outSize = .ok text) :
    (r.Readable → controllerDecode text = .ok { r with schema := 1 }) ∧
      (¬ r.Readable → controllerDecode text = .error .errField) := by
  rw [controllerDecode_eq h]
  constructor
  · rintro ⟨hhost, htoken, htokenId, hp, hpid, hptid, hpt, hps⟩
    have hread : ∀ {n : ℕ} {s : Str n}, Printable s.1 → readText s = .ok s := fun h => if_pos h
    unfold readController
    rw [hread hp, hread hpid, hread hptid, hread hpt, hread hps]
    exact if_neg (by simp [hhost, htoken, htokenId])
  · intro hnot
    refine (yields_text r.controllerHost).bind_refused fun host hhost hp => ?_
    refine (yields_text r.controllerId).bind_refused fun controllerId _ hpid => ?_
    refine (yields_text r.tokenId).bind_refused fun tokenId htokenId hptid => ?_
    refine (yields_text r.token).bind_refused fun token htoken hpt => ?_
    refine (yields_text r.siteId).bind_refused fun siteId _ hps => ?_
    refine if_pos ?_
    rw [hhost, htoken, htokenId]
    by_contra hall
    rw [not_or, not_or] at hall
    exact hnot ⟨hall.1, hall.2.1, hall.2.2, hp, hpid, hptid, hpt, hps⟩

/-! ### Pasted codes -/

/-- A text without the blanks that a paste brings along. -/
def strip (text : List UInt8) : List UInt8 := text.filter fun c => !isBlank c

/-- A code with blanks in it is normalized to the code. -/
theorem normalize_paste {text : List UInt8}
    (hmarker : ∀ c ∈ marker, toUpper c = c) (h : finish marker w outSize = .ok text)
    {pasted : List UInt8} (hpasted : strip pasted = text) : normalize pasted = text := by
  have hdigit : ∀ d < 32, toUpper (b32Digit d) = b32Digit d := by decide +kernel
  have hcode : ∀ {size : ℕ} {bs code : List UInt8}, b32Encode size bs = .ok code →
      ∀ c ∈ code, toUpper c = c := by
    intro size bs code hencode c hc
    obtain ⟨ds, k, rfl, hds, -, -⟩ := b32Encode_spec hencode
    obtain ⟨d, hd, rfl⟩ := List.mem_map.mp hc
    exact hdigit d (hds d hd)
  obtain ⟨body, crcText, rfl, hbody, hcrc⟩ := finish_spec h
  have hupper : ∀ c ∈ marker ++ dot :: (body ++ dot :: crcText), toUpper c = c := by
    intro c hc
    simp only [mem_append, mem_cons] at hc
    rcases hc with hc | rfl | hc | rfl | hc
    · exact hmarker c hc
    · decide
    · exact hcode hbody c hc
    · decide
    · exact hcode hcrc c hc
  show (strip pasted).map toUpper = _
  rw [hpasted]
  conv_rhs => rw [← List.map_id (marker ++ dot :: (body ++ dot :: crcText))]
  exact map_congr_left hupper

/-- **A code is decoded to the record it was made of, its packed fields in their canonical spelling,
    also after it was pasted; where the record is not readable the code is refused.** -/
theorem codes_decode :
    (∀ (r : ApRecord) (outSize : ℕ) (text : List UInt8), apEncodeForm r .full outSize = .ok text →
      (∀ pasted, strip pasted = text → normalize pasted = text) ∧
        (r.Readable → ∃ out, apDecode text = .ok out ∧ out.Spells r) ∧
        (¬ r.Readable → apDecode text = .error .errField)) ∧
      ∀ (r : ControllerRecord) (outSize : ℕ) (text : List UInt8),
        controllerEncode r outSize = .ok text →
          (∀ pasted, strip pasted = text → normalize pasted = text) ∧
            (r.Readable → controllerDecode text = .ok { r with schema := 1 }) ∧
            (¬ r.Readable → controllerDecode text = .error .errField) :=
  ⟨fun _ _ _ h => ⟨fun _ => normalize_paste (by decide +kernel) h, apDecode_encode h⟩,
    fun _ _ _ h => ⟨fun _ => normalize_paste (by decide +kernel) h, controllerDecode_encode h⟩⟩

/-- An access point with its identifiers in other spellings. -/
def ApRecord.sample : ApRecord where
  schema := 0
  apId := ⟨ascii "00112233445566778899AABBCCDDEEFF", by decide⟩
  keyId := ⟨ascii "sha256:AB:CD", by decide⟩
  mac := ⟨ascii "aabbccddeeff", by decide⟩
  model := .empty _
  boardName := ⟨ascii "b", by decide⟩
  mgmtIp := ⟨ascii "010.0.0.1", by decide⟩
  mgmtPort := 443

theorem codes_decode_sample :
    ∃ out, apDecode (ascii "DWRTAP1.AEHBAAAREIZUIVLGO6EJTKV3ZTO657YPAKV42EAGVK54ZXPO74CQCYQRAQFAAAABA4BADOY.U6WN6HY") = .ok out ∧
      out.apId.1 = ascii "00112233-4455-6677-8899-aabbccddeeff" ∧
      out.keyId.1 = ascii "sha256:abcd" ∧ out.mac.1 = ascii "AA:BB:CC:DD:EE:FF" ∧
      out.model = .empty _ ∧ out.mgmtIp.1 = ascii "10.0.0.1" ∧ out.mgmtPort = 443 := by
  have hencode : apEncodeForm .sample .full 512 = .ok (ascii "DWRTAP1.AEHBAAAREIZUIVLGO6EJTKV3ZTO657YPAKV42EAGVK54ZXPO74CQCYQRAQFAAAABA4BADOY.U6WN6HY") := by decide +kernel
  have hquad : QuadLike ApRecord.sample.mgmtIp.1 10 0 0 1 := by
    refine ⟨?_, by decide, by decide, by decide, by decide⟩
    decide +kernel
  have hreadable : ApRecord.sample.Readable :=
    ⟨by decide +kernel, .inl (by decide +kernel), .inl (by decide +kernel),
      Or.inl (by decide +kernel), by decide +kernel, by decide +kernel, .inl ⟨10, 0, 0, 1, hquad⟩⟩
  obtain ⟨out, hout, hspells⟩ := ((codes_decode.1 _ _ _ hencode).2.1 hreadable)
  refine ⟨out, hout, ?_, ?_, ?_, hspells.model, ?_, hspells.mgmtPort⟩
  · rw [hspells.apId]
    decide +kernel
  · rw [hspells.keyId]
    decide +kernel
  · rw [hspells.mac]
    decide +kernel
  · rw [hspells.quad 10 0 0 1 hquad]
    decide +kernel

/-- Codes that are made and refused: of a record without a name, of one whose model is not ASCII,
    and of a bootstrap record without a host. -/
theorem codes_refused : apEncodeForm .zero .full 512 = .ok (ascii "DWRTAP1.AE.UUC56GY") ∧
      apDecode (ascii "DWRTAP1.AE.UUC56GY") = .error .errField ∧
      (∃ r : ApRecord, r.apId.1 = ascii "ap" ∧ r.model.1 = [0xc3, 0xa9] ∧
        apEncodeForm r .full 512 = .ok (ascii "DWRTAP1.AEAQEYLQAQBMHKI.KMDPDEQ")) ∧
      apDecode (ascii "DWRTAP1.AEAQEYLQAQBMHKI.KMDPDEQ") = .error .errField ∧
      controllerEncode .zero 512 = .ok (ascii "DWRTCT1.AE.UUC56GY") ∧
      controllerDecode (ascii "DWRTCT1.AE.UUC56GY") = .error .errField := by
  refine ⟨by decide +kernel, by decide +kernel, ⟨{ ApRecord.zero with
    apId := ⟨ascii "ap", by decide⟩, model := ⟨[0xc3, 0xa9], by decide⟩ }, rfl, rfl,
    by decide +kernel⟩, by decide +kernel, by decide +kernel, by decide +kernel⟩

end DreamingOS.Paircode
