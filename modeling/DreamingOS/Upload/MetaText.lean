import DreamingOS.Upload.Meta

namespace DreamingOS.Upload

open List Option

/-!
# Upload staging — the metadata file is read back

* `Meta.Readable` — a record that the reader accepts;
* `metaParse_metaText` — what has been written is read back;
* `length_metaText` — and it is not too long.
-/

/-! ### What has been written is read back -/

/-- A record that the reader accepts, with an error that fits. -/
structure Meta.Readable (m : Meta) : Prop where
  consistent : m.consistent = true
  created : 0 ≤ m.created
  updated : m.updated < 2 ^ 63
  expires : m.expires < 2 ^ 63
  error : '\n' ∉ m.error ∧ m.error.length ≤ 95

theorem ne_newline_of_isXDigit {c : Char} (h : isXDigit c = true) : c ≠ '\n' := by
  rintro rfl
  revert h
  decide

variable {n : ℕ}

theorem hexValue_digitChar (h : n < 16) : hexValue (Nat.digitChar n) = some n := by
  revert n
  decide

theorem ne_newline_digitChar (h : n < 16) : Nat.digitChar n ≠ '\n' := by
  revert n
  decide

theorem newline_notMem_hexEncode (bs : Bytes) : '\n' ∉ hexEncode bs := by
  intro h
  obtain ⟨b, -, hb⟩ := mem_flatMap.mp h
  unfold hexByte hex2 at hb
  generalize (if printable b = true then b else 0x5f) = x at hb
  have hx := x.toNat_lt
  simp only [mem_cons, not_mem_nil, or_false] at hb
  obtain hb | hb := hb
  · exact ne_newline_digitChar (by omega) hb.symm
  · exact ne_newline_digitChar (by omega) hb.symm

theorem hexDecode_hexEncode {bs : Bytes} (hbs : bs.all printable = true)
    (hn : bs.length ≤ n) : hexDecode n (hexEncode bs) = bs := by
  induction bs generalizing n with
  | nil => cases n <;> rfl
  | cons b bs ih =>
    obtain ⟨n, rfl⟩ : ∃ k, n = k + 1 := ⟨n - 1, by simp at hn; omega⟩
    rw [all_cons, Bool.and_eq_true] at hbs
    have hb := b.toNat_lt
    show hexDecode (n + 1) (hexByte b ++ hexEncode bs) = _
    unfold hexByte
    rw [if_pos hbs.1]
    show hexDecode (n + 1) (_ :: _ :: hexEncode bs) = _
    rw [hexDecode, hexValue_digitChar (by omega), hexValue_digitChar (by omega)]
    dsimp only
    rw [ih hbs.2 (by rw [length_cons] at hn; omega), Nat.div_add_mod' b.toNat 16, UInt8.ofNat_toNat]

theorem newline_notMem_digits (n : ℕ) : '\n' ∉ Nat.toDigits 10 n := by
  intro h
  have hsolid := (Scan.field_decimal n).solid _ h
  revert hsolid
  decide

theorem newline_notMem_timeText (t : ℤ) : '\n' ∉ timeText t := by
  unfold timeText
  split
  · simp [newline_notMem_digits]
  · exact newline_notMem_digits _

theorem parseU64_digits (h : n < 2 ^ 64) : parseU64 (Nat.toDigits 10 n) = some n := by
  have hne : Nat.toDigits 10 n ≠ [] := Nat.toDigits_ne_nil
  have hminus : (Nat.toDigits 10 n).head? ≠ some '-' := by
    intro hhead
    obtain ⟨c, hc⟩ := exists_cons_of_ne_nil hne
    obtain ⟨cs, hc⟩ := hc
    rw [hc] at hhead
    obtain rfl := some.inj hhead
    have hmem : '-' ∈ Nat.toDigits 10 n := by
      rw [hc]
      exact mem_cons_self
    have hdigit := Nat.isDigit_of_mem_toDigits (by decide) (by decide) hmem
    revert hdigit
    decide
  have hsigned := @Scan.signed_decimal n [] nofun
  rw [append_nil] at hsigned
  unfold parseU64
  rw [if_neg (by simp [hne, hminus]), hsigned]
  simp only [Nat.ofDigitChars_ten_toDigits, Bool.false_eq_true, if_false]
  rw [if_neg (by omega)]

variable {t : ℤ}

theorem parseTime_timeText (h : 0 ≤ t) (hlt : t < 2 ^ 63) : parseTime (timeText t) = some t := by
  unfold parseTime timeText
  rw [if_neg (by omega), parseU64_digits (by omega)]
  dsimp only
  rw [if_neg (by omega)]
  congr 1
  omega

theorem Origin.ofText_text (o : Origin) : Origin.ofText (o.text.take 23) = some o := by
  cases o <;> decide

theorem UploadType.ofText_text (t : UploadType) : UploadType.ofText (t.text.take 15) = some t := by
  cases t <;> decide

theorem Status.ofText_text (t : Status) : Status.ofText (t.text.take 15) = some t := by
  cases t <;> decide

theorem Key.ofText_text (k : Key) : Key.ofText k.text = some k := by
  cases k <;> decide

theorem Key.text_solid (k : Key) : '=' ∉ k.text ∧ '\n' ∉ k.text := by
  cases k <;> decide

theorem splitLine_line (m : Meta) (k : Key) : splitLine (m.line k) = some (k.text, m.value k) := by
  have hpos : ∀ c ∈ k.text, decide (c ≠ '=') = true := by
    intro c hc
    have hne : c ≠ '=' := fun heq => k.text_solid.1 (heq ▸ hc)
    simpa using hne
  unfold splitLine Meta.line
  rw [if_pos (by simp), takeWhile_append_of_pos hpos, dropWhile_append_of_pos hpos]
  simp

/-- The lines of a text that has been written line by line. -/
theorem lines_flatMap {α κ : Type} [DecidableEq α] {sep : α} {f : κ → List α} {ks : List κ}
    (h : ∀ k ∈ ks, sep ∉ f k) :
    Text.lines sep (ks.flatMap fun k => f k ++ [sep]) = ks.map fun k => (f k, true) := by
  induction ks with
  | nil => rfl
  | cons k ks ih =>
    rw [flatMap_cons, append_assoc, singleton_append,
      Text.lines_append (h k mem_cons_self), ih fun x hx => h x (mem_cons_of_mem _ hx),
      map_cons]

variable {m : Meta}

theorem newline_notMem_id {id : List Char} (h : uploadIdOk id = true) : '\n' ∉ id := by
  unfold uploadIdOk at h
  simp only [Bool.and_eq_true, decide_eq_true_eq, List.all_eq_true] at h
  rw [← take_append_drop 4 id, mem_append, h.1.2]
  rintro (hmem | hmem)
  · revert hmem
    decide
  · exact ne_newline_of_isXDigit (h.2 _ hmem) rfl

theorem newline_notMem_sha {sha : List Char} (h : sha = [] ∨ sha256HexOk sha = true) :
    '\n' ∉ sha := by
  intro hmem
  obtain rfl | h := h
  · cases hmem
  · unfold sha256HexOk at h
    simp only [Bool.and_eq_true, List.all_eq_true] at h
    exact ne_newline_of_isXDigit (h.2 _ hmem) rfl

/-- What the checks of a record say. -/
theorem Meta.Readable.checks (h : m.Readable) :
    (uploadIdOk m.uploadId = true ∧ ownerIdOk m.ownerId = true ∧ filenameOk m.filename = true) ∧
      (m.max ≠ 0 ∧ m.max ≤ m.uploadType.defaultMax ∧ m.expected ≤ m.max ∧ m.size ≤ m.max ∧
        (m.expected = 0 ∨ m.size ≤ m.expected)) ∧
      (m.created ≤ m.updated ∧ m.created ≤ m.expires ∧ m.expires - m.created ≤ TTL_MAX_SECONDS) ∧
      (m.sha256 = [] ∨ sha256HexOk m.sha256 = true) := by
  have hc := h.consistent
  unfold Meta.consistent at hc
  simpa [and_assoc] using hc

theorem defaultMax_lt (t : UploadType) : t.defaultMax < 2 ^ 64 := by
  cases t <;> decide

/-- Every line of a record is one line. -/
theorem newline_notMem_line (h : m.Readable) (k : Key) : '\n' ∉ m.line k := by
  have hvalue : '\n' ∉ m.value k := by
    obtain ⟨⟨hid, -, -⟩, -, -, hsha⟩ := h.checks
    cases k with
    | version => show '\n' ∉ ['2']; decide
    | uploadId => exact newline_notMem_id hid
    | ownerHex => exact newline_notMem_hexEncode _
    | origin => show '\n' ∉ m.origin.text; cases m.origin <;> decide
    | uploadType => show '\n' ∉ m.uploadType.text; cases m.uploadType <;> decide
    | filenameHex => exact newline_notMem_hexEncode _
    | status => show '\n' ∉ m.status.text; cases m.status <;> decide
    | sizeBytes => exact newline_notMem_digits _
    | expectedSizeBytes => exact newline_notMem_digits _
    | maxSizeBytes => exact newline_notMem_digits _
    | createdAt => exact newline_notMem_timeText _
    | updatedAt => exact newline_notMem_timeText _
    | expiresAt => exact newline_notMem_timeText _
    | sha256 => exact newline_notMem_sha hsha
    | error => exact h.error.1
  unfold Meta.line
  simp [k.text_solid.2, hvalue]

/-- The parser sees the lines of the record. -/
theorem metaParse_lines (h : m.Readable) :
    ((Text.lines '\n' (metaText m)).map Prod.fst).filter (fun line => line ≠ []) =
      Key.all.map m.line := by
  unfold metaText
  rw [lines_flatMap fun k _ => newline_notMem_line h k, List.map_map, filter_eq_self.mpr]
  · rfl
  · intro line hline
    obtain ⟨k, -, rfl⟩ := List.mem_map.mp hline
    simp [Meta.line]

/-- Reading the lines of a record sets its fields. -/
theorem readLines_lines (f : Fields) (ks : List Key) :
    readLines f (ks.map m.line) = ks.foldlM (fun f k => f.set k (m.value k)) f := by
  induction ks generalizing f with
  | nil => rfl
  | cons k ks ih =>
    rw [map_cons, readLines, splitLine_line]
    dsimp only
    rw [Key.ofText_text, foldlM_cons]
    dsimp only
    cases f.set k (m.value k) with
    | none => rfl
    | some f' => exact ih f'

/-- **What has been written is read back**, as the record that was to be written. -/
theorem metaParse_metaText (h : m.Readable) : metaParse (metaText m) = some m := by
  obtain ⟨⟨hid, howner, hname⟩, ⟨-, hmax, hexpected, hsize, -⟩, ⟨hupdated, hexpires, -⟩, hsha⟩ :=
    h.checks
  have hbound := defaultMax_lt m.uploadType
  have hcreated := h.created
  have hlt := h.updated
  have hlt' := h.expires
  unfold ownerIdOk at howner
  unfold filenameOk at hname
  simp only [Bool.and_eq_true, decide_eq_true_eq] at howner hname
  have hidlen : m.uploadId.take ID_LEN = m.uploadId := by
    unfold uploadIdOk at hid
    simp only [Bool.and_eq_true, decide_eq_true_eq] at hid
    exact take_of_length_le (Nat.le_of_eq hid.1.1)
  have hprintable : m.filename.all printable = true := by
    rw [List.all_eq_true]
    intro b hb
    have hall := List.all_eq_true.mp hname.2 b hb
    simp only [Bool.and_eq_true] at hall
    exact hall.1.1
  have hshalen : m.sha256.take SHA256_HEX_LEN = m.sha256 := by
    apply take_of_length_le
    obtain hnil | hok := hsha
    · rw [hnil]
      exact Nat.zero_le _
    · unfold sha256HexOk at hok
      simp only [Bool.and_eq_true, decide_eq_true_eq] at hok
      exact Nat.le_of_eq hok.1
  have hfields : readLines {} (Key.all.map m.line) = some
      { version := 2, uploadId := some m.uploadId, ownerId := some m.ownerId
        origin := some (m.origin.text.take 23), uploadType := some (m.uploadType.text.take 15)
        filename := m.filename, status := some (m.status.text.take 15), size := some m.size
        expected := some m.expected, max := some m.max, created := some m.created
        updated := some m.updated, expires := some m.expires, sha256 := m.sha256
        error := m.error } := by
    have hversion : atoi ['2'] = 2 := by decide
    rw [readLines_lines]
    simp only [Key.all, foldlM_cons, foldlM_nil, Fields.set, Meta.value, hversion,
      bind_eq_bind, bind_some, Option.pure_def, hidlen, hexDecode_hexEncode howner.2 howner.1.2,
      hexDecode_hexEncode hprintable (Nat.le_of_lt_succ hname.1.1.2), hshalen,
      take_of_length_le h.error.2, map_some,
      parseU64_digits (show m.size < 2 ^ 64 by omega),
      parseU64_digits (show m.expected < 2 ^ 64 by omega),
      parseU64_digits (show m.max < 2 ^ 64 by omega), parseTime_timeText hcreated (by omega),
      parseTime_timeText (show 0 ≤ m.updated by omega) hlt,
      parseTime_timeText (show 0 ≤ m.expires by omega) hlt']
  unfold metaParse
  rw [metaParse_lines h, hfields]
  simp [Fields.record, Origin.ofText_text, UploadType.ofText_text, Status.ofText_text, h.consistent]

/-! ### Its length -/

theorem length_text_le (k : Key) : k.text.length ≤ 19 := by
  cases k <;> decide

theorem length_hexEncode (bs : Bytes) : (hexEncode bs).length = 2 * bs.length := by
  induction bs with
  | nil => rfl
  | cons b bs ih =>
    show (hexByte b ++ hexEncode bs).length = _
    rw [length_append, ih, length_cons]
    show 2 + 2 * bs.length = _
    omega

theorem length_digits_le (h : n < 2 ^ 64) : (Nat.toDigits 10 n).length ≤ 20 := by
  rw [Nat.length_toDigits_le_iff (by decide) (by decide)]
  exact Nat.lt_trans h (by decide)

theorem length_timeText_le (h : 0 ≤ t) (hlt : t < 2 ^ 63) : (timeText t).length ≤ 20 := by
  unfold timeText
  rw [if_neg (by omega)]
  exact length_digits_le (by omega)

theorem length_value_le (h : m.Readable) (k : Key) : (m.value k).length ≤ 512 := by
  obtain ⟨⟨hid, howner, hname⟩, ⟨-, hmax, hexpected, hsize, -⟩, ⟨hupdated, hexpires, -⟩, hsha⟩ :=
    h.checks
  have hbound := defaultMax_lt m.uploadType
  have hcreated := h.created
  have hlt := h.updated
  have hlt' := h.expires
  cases k with
  | version => show ['2'].length ≤ 512; decide
  | uploadId =>
    unfold uploadIdOk at hid
    simp only [Bool.and_eq_true, decide_eq_true_eq] at hid
    exact Nat.le_trans (Nat.le_of_eq hid.1.1) (by decide)
  | ownerHex =>
    unfold ownerIdOk OWNER_ID_LEN at howner
    simp only [Bool.and_eq_true, decide_eq_true_eq] at howner
    show (hexEncode m.ownerId).length ≤ 512
    rw [length_hexEncode]
    omega
  | origin => show m.origin.text.length ≤ 512; cases m.origin <;> decide
  | uploadType => show m.uploadType.text.length ≤ 512; cases m.uploadType <;> decide
  | filenameHex =>
    unfold filenameOk at hname
    simp only [Bool.and_eq_true, decide_eq_true_eq] at hname
    show (hexEncode m.filename).length ≤ 512
    rw [length_hexEncode]
    omega
  | status => show m.status.text.length ≤ 512; cases m.status <;> decide
  | sizeBytes => exact Nat.le_trans (length_digits_le (by omega)) (by decide)
  | expectedSizeBytes => exact Nat.le_trans (length_digits_le (by omega)) (by decide)
  | maxSizeBytes => exact Nat.le_trans (length_digits_le (by omega)) (by decide)
  | createdAt => exact Nat.le_trans (length_timeText_le hcreated (by omega)) (by decide)
  | updatedAt => exact Nat.le_trans (length_timeText_le (by omega) hlt) (by decide)
  | expiresAt => exact Nat.le_trans (length_timeText_le (by omega) hlt') (by decide)
  | sha256 =>
    obtain hnil | hok := hsha
    · show m.sha256.length ≤ 512
      rw [hnil]
      exact Nat.zero_le _
    · unfold sha256HexOk at hok
      simp only [Bool.and_eq_true, decide_eq_true_eq] at hok
      exact Nat.le_trans (Nat.le_of_eq hok.1) (by decide)
  | error => exact Nat.le_trans h.error.2 (by decide)

/-- The text of a record fits, and there is some. -/
theorem length_metaText (h : m.Readable) :
    0 < (metaText m).length ∧ (metaText m).length < META_MAX := by
  have hsum : ∀ ks : List Key, ks.length ≤ (ks.flatMap fun k => m.line k ++ ['\n']).length ∧
        (ks.flatMap fun k => m.line k ++ ['\n']).length ≤ ks.length * 533 := by
    intro ks
    induction ks with
    | nil => exact ⟨Nat.le_refl _, Nat.le_refl _⟩
    | cons k ks ih =>
      have hkey := length_text_le k
      have hvalue := length_value_le h k
      have hline : (m.line k).length = k.text.length + ((m.value k).length + 1) := by
        unfold Meta.line
        rw [length_append, length_cons]
      rw [flatMap_cons, length_append, length_append, length_singleton, length_cons]
      omega
  obtain ⟨hpos, hle⟩ := hsum Key.all
  have hall : Key.all.length = 15 := rfl
  have hmax : META_MAX = 16384 := rfl
  unfold metaText
  omega

end DreamingOS.Upload
