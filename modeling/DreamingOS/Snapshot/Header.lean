import DreamingOS.Snapshot.Codec
import Mathlib.Data.List.DropRight

namespace DreamingOS.Snapshot

open Text List

/-!
# Configuration snapshots — the header

* `header_eq` — a header is the magic, four lines and a blank one;
* `search_header` — the decoder finds this blank line;
* `decode_snapshot` — decoding a snapshot that was written depends on its body and two lengths.
-/

/-! ### The header -/

def ORIG_SHA256 : List UInt8 := ascii ['o', 'r', 'i', 'g', '_', 's', 'h', 'a', '2', '5', '6']
def ORIG_LEN : List UInt8 := ascii ['o', 'r', 'i', 'g', '_', 'l', 'e', 'n']
def BODY_LEN : List UInt8 := ascii ['b', 'o', 'd', 'y', '_', 'l', 'e', 'n']
def ENC : List UInt8 := ascii ['e', 'n', 'c']
def ZLIB : List UInt8 := ascii ['z', 'l', 'i', 'b']

/-- A header line. -/
def field (key value : List UInt8) : List UInt8 := key ++ colon :: value

/-- The four lines of a header. -/
def headerLines (libs : Libs) (plain body : List UInt8) : List UInt8 :=
  field ORIG_SHA256 (sha256Hex libs plain) ++ newline ::
    (field ORIG_LEN (decimal plain.length) ++ newline ::
      (field BODY_LEN (decimal body.length) ++ newline :: field ENC ZLIB))

/-- A header is the magic, four lines and a blank one. -/
theorem header_eq (libs : Libs) (plain body : List UInt8) :
    header libs plain body = MAGIC ++ (headerLines libs plain body ++ [newline, newline]) := by
  simp [header, headerLines, field, ORIG_SHA256, ORIG_LEN, BODY_LEN, ENC, ZLIB, ascii, colon,
    newline]

theorem newline_notMem_hex (libs : Libs) (text : List UInt8) : newline ∉ sha256Hex libs text := by
  intro hmem
  obtain ⟨b, -, hb⟩ := mem_flatMap.mp hmem
  have hdigit : ∀ n < 16, newline ≠ hexDigit n := by decide
  have hlt : b.toNat < 256 := b.toNat_lt
  rcases mem_cons.mp hb with h | h
  · exact hdigit _ (by omega) h
  · exact hdigit _ (by omega) (mem_singleton.mp h)

variable {libs : Libs}

theorem length_sha256Hex (hlibs : libs.Lawful) (text : List UInt8) :
    (sha256Hex libs text).length = 64 := by
  have hpairs : ∀ text : List UInt8, (text.flatMap fun b =>
      [hexDigit (b.toNat / 16), hexDigit (b.toNat % 16)]).length = 2 * text.length := by
    intro text
    induction text with
    | nil => rfl
    | cons b text ih =>
      rw [flatMap_cons, length_append, ih, length_cons, length_cons, length_cons, length_nil]
      omega
  rw [sha256Hex, hpairs, hlibs.length_sha256]

theorem length_header_lt (hlibs : libs.Lawful) {plain body : List UInt8}
    (hplain : plain.length < 10 ^ 7) (hbody : body.length < 10 ^ 7) :
    (header libs plain body).length < 256 := by
  have hp := length_decimal_le hplain
  have hb := length_decimal_le hbody
  have hkeys : MAGIC.length = 12 ∧ ORIG_SHA256.length = 11 ∧ ORIG_LEN.length = 8 ∧
      BODY_LEN.length = 8 ∧ (field ENC ZLIB).length = 8 := by decide
  obtain ⟨h₁, h₂, h₃, h₄, h₅⟩ := hkeys
  rw [header_eq, headerLines]
  simp only [length_append, length_cons, h₁, h₅]
  simp only [field, length_append, length_cons, h₂, h₃, h₄, length_sha256Hex hlibs, length_nil]
  omega

theorem newline_notMem_decimal (n : ℕ) : newline ∉ decimal n := by
  intro hmem
  exact absurd (isDigit_of_mem_decimal hmem) (by decide)

variable {key : List UInt8}

theorem newline_notMem_field {value : List UInt8} (hkey : newline ∉ key)
    (hvalue : newline ∉ value) : newline ∉ field key value := by
  have hcolon : newline ≠ colon := by decide
  simp [field, hkey, hvalue, hcolon]

/-- Reading a written number back, with any text behind it. -/
theorem strtoull_decimal (n : ℕ) {c : UInt8} (hc : isDigit c = false) (rest : List UInt8) :
    strtoull (decimal n ++ c :: rest) = min n 18446744073709551615 := by
  have hdigits : (decimal n ++ c :: rest).takeWhile isDigit = decimal n := by
    rw [takeWhile_append_of_pos fun b hb => isDigit_of_mem_decimal hb,
      takeWhile_cons_of_neg (by simp [hc]), append_nil]
  obtain ⟨d, ds, hcons⟩ := exists_cons_of_ne_nil (decimal_ne_nil n)
  have hd : isDigit d = true := isDigit_of_mem_decimal (hcons ▸ mem_cons_self)
  -- a digit is neither white space nor a sign
  have hfacts : ∀ k < 256, isDigit (UInt8.ofNat k) = true →
      isSpace (UInt8.ofNat k) = false ∧ UInt8.ofNat k ≠ 45 ∧ UInt8.ofNat k ≠ 43 := by
    decide +kernel
  have hd' := hfacts d.toNat d.toNat_lt
  rw [UInt8.ofNat_toNat] at hd'
  obtain ⟨hspace, hminus, hplus⟩ := hd' hd
  have hskip : (decimal n ++ c :: rest).dropWhile isSpace = decimal n ++ c :: rest := by
    rw [hcons, cons_append, dropWhile_cons_of_neg (by simp [hspace])]
  have hhead : (decimal n ++ c :: rest).head? = some d := by rw [hcons, cons_append, head?_cons]
  have hneg : ¬ (decimal n ++ c :: rest).head? = some 45 := by simpa [hhead] using hminus
  have hpos : ¬ (decimal n ++ c :: rest).head? = some 43 := by simpa [hhead] using hplus
  unfold strtoull
  simp only [hskip, hneg, hpos, or_self, if_false, hdigits, digitsValue_decimal, decide_false,
    Bool.false_eq_true]
  split
  · omega
  · omega

variable {line : List UInt8}

/-- One step of the loop over the header lines. -/
theorem headerLoop_line (hline : newline ∉ line) (fuel n : ℕ) (rest : List UInt8) (h : Header) :
    headerLoop (fuel + 1) (line ++ newline :: rest) (line.length + 1 + n) h =
      headerLoop fuel rest n (headerField line (line ++ newline :: rest) h) := by
  have htake : ((line ++ newline :: rest).take (line.length + 1 + n)).takeWhile (· ≠ newline) =
      line := by
    have hsplit : (line ++ newline :: rest).take (line.length + 1 + n) =
        line ++ newline :: rest.take n := by
      rw [take_append, take_of_length_le (by omega)]
      have hsub : line.length + 1 + n - line.length = n + 1 := by omega
      rw [hsub, take_succ_cons]
    rw [hsplit, takeWhile_append_of_pos, takeWhile_cons_of_neg (by simp), append_nil]
    intro b hb
    have hb' : b ≠ newline := fun heq => hline (heq ▸ hb)
    simpa using hb'
  have hdrop : (line ++ newline :: rest).drop (line.length + 1) = rest := by
    rw [← drop_drop, drop_left]
    rfl
  rw [headerLoop, if_neg (by omega)]
  simp only [htake, hdrop]
  have hsub : line.length + 1 + n - (line.length + 1) = n := by omega
  rw [hsub]

/-- The last header line ends where the header does. -/
theorem headerLoop_last (hline : newline ∉ line) (hne : line ≠ [])
    (fuel : ℕ) (rest : List UInt8) (h : Header) :
    headerLoop (fuel + 1) (line ++ newline :: rest) line.length h =
      headerField line (line ++ newline :: rest) h := by
  have hlen : line.length ≠ 0 := fun h0 => hne (length_eq_zero_iff.mp h0)
  have htake : ((line ++ newline :: rest).take line.length).takeWhile (· ≠ newline) = line := by
    rw [take_left, takeWhile_eq_self_iff]
    intro b hb
    have hb' : b ≠ newline := fun heq => hline (heq ▸ hb)
    simpa using hb'
  have hstop : ∀ text h', headerLoop fuel text 0 h' = h' := by
    intro text h'
    cases fuel with
    | zero => rfl
    | succ fuel => rw [headerLoop, if_pos rfl]
  rw [headerLoop, if_neg hlen]
  simp only [htake]
  have hsub : line.length - (line.length + 1) = 0 := by omega
  rw [hsub, hstop]

/-- What a header line with a known key says. -/
theorem headerField_field (hkey : colon ∉ key) (value rest : List UInt8) (h : Header) :
    headerField (field key value) (field key value ++ rest) h =
      if key = ORIG_SHA256 then if value.length = 64 then { h with sha := some value } else h
      else if key = ORIG_LEN then { h with origLen := some (strtoull (value ++ rest)) }
      else if key = BODY_LEN then { h with bodyLen := some (strtoull (value ++ rest)) }
      else if key = ENC then if value = ZLIB then { h with zlib := true } else h
      else h := by
  have htake : (field key value).takeWhile (· ≠ colon) = key := by
    rw [field, takeWhile_append_of_pos, takeWhile_cons_of_neg (by simp), append_nil]
    intro b hb
    have hb' : b ≠ colon := fun heq => hkey (heq ▸ hb)
    simpa using hb'
  have hne : key ≠ field key value := by
    intro heq
    have hlen := congrArg List.length heq
    simp [field] at hlen
  have hvalue : (field key value).drop (key.length + 1) = value := by
    rw [← drop_drop, field, drop_left]
    rfl
  have htext : (field key value ++ rest).drop (key.length + 1) = value ++ rest := by
    rw [← drop_drop, field, append_assoc, drop_left]
    rfl
  unfold headerField
  simp only [htake, hvalue, htext, if_neg hne]
  rfl

theorem field_ne_nil (key value : List UInt8) : field key value ≠ [] := by
  simp [field]

theorem newline_notMem_number (hkey : newline ∉ key) (n : ℕ) : newline ∉ field key (decimal n) :=
  newline_notMem_field hkey (newline_notMem_decimal n)

/-- Each of the four fields is on one line. -/
theorem newline_notMem_lines (libs : Libs) (plain body : List UInt8) :
    newline ∉ field ORIG_SHA256 (sha256Hex libs plain) ∧
      newline ∉ field ORIG_LEN (decimal plain.length) ∧
      newline ∉ field BODY_LEN (decimal body.length) ∧ newline ∉ field ENC ZLIB :=
  ⟨newline_notMem_field (by decide) (newline_notMem_hex libs plain),
    newline_notMem_number (by decide) _, newline_notMem_number (by decide) _,
    newline_notMem_field (by decide) (by decide)⟩

theorem headerLines_append (libs : Libs) (plain body rest : List UInt8) :
    headerLines libs plain body ++ newline :: rest =
      field ORIG_SHA256 (sha256Hex libs plain) ++ newline ::
        (field ORIG_LEN (decimal plain.length) ++ newline ::
          (field BODY_LEN (decimal body.length) ++ newline ::
            (field ENC ZLIB ++ newline :: rest))) := by
  simp [headerLines]

/-- The blank line behind the four lines is the first one. -/
theorem search_header (libs : Libs) (plain body rest : List UInt8) :
    search [newline, newline] (headerLines libs plain body ++ newline :: newline :: rest) =
      some (headerLines libs plain body, newline :: newline :: rest) := by
  obtain ⟨hsha, horig, hlen, henc⟩ := newline_notMem_lines libs plain body
  rw [headerLines_append, search_doubled_line hsha horig (field_ne_nil _ _),
    search_doubled_line horig hlen (field_ne_nil _ _),
    search_doubled_line hlen henc (field_ne_nil _ _), search_doubled_end henc]
  rfl

/-- What the decoder reads from the four lines. -/
theorem headerLoop_header (hlibs : libs.Lawful) (plain body rest : List UInt8) :
    headerLoop (headerLines libs plain body).length
        (headerLines libs plain body ++ newline :: rest)
        (headerLines libs plain body).length {} =
      { sha := some (sha256Hex libs plain)
        origLen := some (min plain.length 18446744073709551615)
        bodyLen := some (min body.length 18446744073709551615)
        zlib := true } := by
  have hhex := length_sha256Hex hlibs plain
  obtain ⟨hsha, horig, hlen, henc⟩ := newline_notMem_lines libs plain body
  have hdigit : isDigit newline = false := by decide
  have hlength : (headerLines libs plain body).length =
      (field ORIG_SHA256 (sha256Hex libs plain)).length + 1 +
        ((field ORIG_LEN (decimal plain.length)).length + 1 +
          ((field BODY_LEN (decimal body.length)).length + 1 + (field ENC ZLIB).length)) := by
    simp [headerLines]
    omega
  -- as many steps as there are bytes, of which four are needed
  obtain ⟨fuel, hfuel⟩ : ∃ fuel, (headerLines libs plain body).length = fuel + 4 := by
    have henc_pos := length_pos_iff.mpr (field_ne_nil ENC ZLIB)
    exact ⟨(headerLines libs plain body).length - 4, by omega⟩
  have hloop : headerLoop (headerLines libs plain body).length
      (headerLines libs plain body ++ newline :: rest) (headerLines libs plain body).length {} =
      headerLoop (fuel + 4) (headerLines libs plain body ++ newline :: rest)
        (headerLines libs plain body).length {} := by rw [← hfuel]
  rw [hloop, headerLines_append, hlength]
  rw [headerLoop_line hsha, headerField_field (by decide), if_pos rfl, if_pos hhex,
    headerLoop_line horig, headerField_field (by decide), if_neg (by decide), if_pos rfl,
    strtoull_decimal _ hdigit, headerLoop_line hlen, headerField_field (by decide),
    if_neg (by decide), if_neg (by decide), if_pos rfl, strtoull_decimal _ hdigit,
    headerLoop_last henc (by decide), headerField_field (by decide), if_neg (by decide),
    if_neg (by decide), if_neg (by decide), if_pos rfl, if_pos rfl]

/-- Decoding what the encoder wrote: the header is read back, and only the two lengths and an
    empty stream can make it invalid. -/
theorem decode_snapshot {σ : Type} (libs : Libs) (hlibs : libs.Lawful) (vault : Vault σ) (v : σ)
    (plain body comp : List UInt8) :
    decode libs vault v (header libs plain body ++ comp) =
      if plain.length = 0 ∨ MAX_BYTES < plain.length ∨ body.length = 0 ∨
          MAX_BYTES < body.length ∨ comp = [] then .refuse "snapshot_header_invalid"
      else decodeBody libs vault v (sha256Hex libs plain) plain.length body.length comp := by
  have hsearch := search_header libs plain body comp
  have hfields := headerLoop_header hlibs plain body (newline :: comp)
  have hsnap : header libs plain body ++ comp =
      MAGIC ++ (headerLines libs plain body ++ newline :: newline :: comp) := by
    simp [header_eq]
  rw [hsnap]
  generalize headerLines libs plain body ++ newline :: newline :: comp = text at hsearch hfields ⊢
  generalize headerLines libs plain body = head at hsearch hfields
  have hmagic : ¬ (MAGIC ++ text).take MAGIC.length ≠ MAGIC := by
    rw [take_left]
    exact fun h => h rfl
  unfold decode
  simp only [if_neg hmagic, drop_left, hsearch, hfields]
  have hcomp : (newline :: newline :: comp).drop 2 = comp := rfl
  rw [hcomp]
  have hmax : MAX_BYTES < 18446744073709551615 := by decide
  by_cases hbad : plain.length = 0 ∨ MAX_BYTES < plain.length ∨ body.length = 0 ∨
      MAX_BYTES < body.length ∨ comp = []
  · rw [if_pos hbad, if_pos]
    rcases hbad with h | h | h | h | h
    · exact .inl (by omega)
    · exact .inr (.inl (by omega))
    · exact .inr (.inr (.inl (by omega)))
    · exact .inr (.inr (.inr (.inl (by omega))))
    · exact .inr (.inr (.inr (.inr h)))
  · have hplainLe : plain.length ≤ MAX_BYTES := by
      by_contra hlt
      exact hbad (.inr (.inl (by omega)))
    have hbodyLe : body.length ≤ MAX_BYTES := by
      by_contra hlt
      exact hbad (.inr (.inr (.inr (.inl (by omega)))))
    rw [Nat.min_eq_left (by omega), Nat.min_eq_left (by omega), if_neg hbad]

end DreamingOS.Snapshot
