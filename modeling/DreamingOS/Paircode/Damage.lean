import DreamingOS.Paircode.Frame

namespace DreamingOS.Paircode

open BitGroups List

/-!
# Pairing codes — damage

A code that is mistyped in one place, or cut short, is not taken for another one.

* `decode_set` — a character that is changed reaches no more than two neighbouring bytes;
* `openCode_set` — after such a change a code is refused or still has its payload;
* `openCode_take` — a code that is cut short is refused;
* `damage_detected` — both.
-/

/-! ### One character of the body -/
variable {bs cs : List UInt8}


section

variable {ds : List ℕ} {j v : ℕ}

theorem take_set_bits (ds : List ℕ) (j v : ℕ) :
    (bitsOf 5 (ds.set j v)).take (j * 5) = (bitsOf 5 ds).take (j * 5) := by
  rw [← bitsOf_take, ← bitsOf_take, take_set_of_le (Nat.le_refl j)]

theorem drop_set_bits (ds : List ℕ) (j v : ℕ) :
    (bitsOf 5 (ds.set j v)).drop ((j + 1) * 5) = (bitsOf 5 ds).drop ((j + 1) * 5) := by
  rw [← bitsOf_drop, ← bitsOf_drop, drop_set_of_lt (Nat.lt_succ_self j)]

/-- Bits that are equal but for five in a row are those of bytes that are equal but for two. -/
theorem bytes_set {r t : List Bool} (hr : r.length < 8) (ht : t.length < 8)
    (hbs : bitsOf 5 ds = byteBits bs ++ r) (hcs : bitsOf 5 (ds.set j v) = byteBits cs ++ t) :
    bs.length = cs.length ∧ bs.take (j * 5 / 8) = cs.take (j * 5 / 8) ∧
      bs.drop (j * 5 / 8 + 2) = cs.drop (j * 5 / 8 + 2) := by
  have hlength : bs.length = cs.length := by
    have hb := congrArg List.length hbs
    have hc := congrArg List.length hcs
    rw [length_bitsOf, length_append, length_byteBits] at hb hc
    rw [length_set] at hc
    omega
  have hbytes : ∀ (xs : List UInt8) (s bits : List Bool), bits = byteBits xs ++ s →
      byteBits xs = bits.take (xs.length * 8) := by
    rintro xs s _ rfl
    rw [take_left' (length_byteBits xs)]
  have hb := hbytes bs r _ hbs
  have hc := hbytes cs t _ hcs
  rw [← hlength] at hc
  have htake : ∀ (xs : List UInt8) (n : ℕ), byteBits (xs.take n) = (byteBits xs).take (n * 8) := by
    intro xs n
    unfold byteBits
    rw [map_take, bitsOf_take]
  have hdrop : ∀ (xs : List UInt8) (n : ℕ), byteBits (xs.drop n) = (byteBits xs).drop (n * 8) := by
    intro xs n
    unfold byteBits
    rw [map_drop, bitsOf_drop]
  have hinj : ∀ {xs ys : List UInt8}, byteBits xs = byteBits ys → xs = ys := by
    intro xs ys h
    refine byteBits_append_inj (r := []) (s := []) (by decide) (by decide) ?_
    rw [h]
  refine ⟨hlength, hinj ?_, hinj ?_⟩
  · have hwindow : j * 5 / 8 * 8 ≤ j * 5 := Nat.div_mul_le_self _ _
    have hcut : ∀ bits : List Bool, bits.take (j * 5 / 8 * 8) =
        (bits.take (j * 5)).take (j * 5 / 8 * 8) := by
      intro bits
      rw [take_take, min_eq_left hwindow]
    rw [htake, htake, hb, hc, take_take, take_take, min_comm, ← take_take,
      ← take_take, hcut (bitsOf 5 ds), hcut (bitsOf 5 (ds.set j v)), take_set_bits]
  · have hwindow : (j + 1) * 5 ≤ (j * 5 / 8 + 2) * 8 := by omega
    have hcut : ∀ bits : List Bool, bits.drop ((j * 5 / 8 + 2) * 8) =
        (bits.drop ((j + 1) * 5)).drop ((j * 5 / 8 + 2) * 8 - (j + 1) * 5) := by
      intro bits
      rw [drop_drop, Nat.add_sub_cancel' hwindow]
    rw [hdrop, hdrop, hb, hc, drop_take, drop_take, hcut (bitsOf 5 ds),
      hcut (bitsOf 5 (ds.set j v)), drop_set_bits]

end

variable {c : UInt8}

theorem reads_set {ds : List ℕ} (h : Reads cs ds) (j : ℕ) {v : ℕ}
    (hc : b32Value c = some v) : Reads (cs.set j c) (ds.set j v) := by
  unfold Reads at *
  rw [map_set, map_set, h, hc]

theorem reads_inj {ds es : List ℕ} (hd : Reads cs ds) (he : Reads cs es) : ds = es :=
  map_injective_iff.mpr (Option.some_injective ℕ) (hd.symm.trans he)

variable {body : List UInt8}

/-- **A body with one character changed decodes to bytes that differ in no more than two
    neighbouring places.** -/
theorem decode_set {outSize room j v : ℕ}
    (hbody : b32Encode outSize bs = .ok body) (hc : b32Value c = some v)
    (hread : b32Decode room (body.set j c) = .ok cs) :
    bs.length = cs.length ∧ bs.take (j * 5 / 8) = cs.take (j * 5 / 8) ∧
      bs.drop (j * 5 / 8 + 2) = cs.drop (j * 5 / 8 + 2) := by
  obtain ⟨ds, k, rfl, hds, hk, hbits⟩ := b32Encode_spec hbody
  obtain ⟨es, t, hes, ht, hbits'⟩ := b32Decode_spec hread
  obtain rfl := reads_inj hes (reads_set (reads_digits hds) j hc)
  exact bytes_set (by rw [length_replicate]; omega) ht hbits hbits'

/-! ### Codes -/

/-- What is decoded of a text that was encoded is what was encoded, whatever the room. -/
theorem eq_of_decode_encode {outSize room : ℕ} {text : List UInt8}
    (h : b32Encode outSize bs = .ok text) (hread : b32Decode room text = .ok cs) : cs = bs := by
  obtain ⟨ds, k, rfl, hds, hk, hbits⟩ := b32Encode_spec h
  obtain ⟨es, t, hes, ht, hbits'⟩ := b32Decode_spec hread
  obtain rfl := reads_inj hes (reads_digits hds)
  refine byteBits_append_inj ht ?_ (hbits'.symm.trans hbits)
  rw [length_replicate]
  omega

theorem dot_not_mem_body {outSize : ℕ} (h : b32Encode outSize bs = .ok body) : dot ∉ body := by
  obtain ⟨ds, k, rfl, hds, -, -⟩ := b32Encode_spec h
  exact dot_not_mem_digits hds

theorem ne_dot_of_value {v : ℕ} (h : b32Value c = some v) : c ≠ dot := by
  rintro rfl
  have hdot : b32Value dot = none := by decide
  rw [hdot] at h
  cases h

variable {marker text payload : List UInt8} {w : Writer} {outSize payloadSize : ℕ}
variable {crcText : List UInt8}

/-- What is still read after a change has the payload's checksum or the payload's body. -/
theorem openParts_set {v : ℕ} (hc : b32Value c = some v)
    (hbody : b32Encode APD_PAIRCODE_MAX w.data = .ok body)
    (hcrc : b32Encode (APD_PAIRCODE_CRC_CHARS + 1) (crcBytes (crc32 w.data)) = .ok crcText) :
    (∀ j, openParts (body.set j c) crcText payloadSize = .ok payload → payload = w.data) ∧
      ∀ crcText', openParts body crcText' payloadSize = .ok payload → payload = w.data := by
  constructor
  · intro j h
    obtain ⟨hread, bytes, hbytes, hsame⟩ := openParts_ok h
    obtain rfl := eq_of_decode_encode hcrc hbytes
    rw [take_of_length_le (by rw [length_crcBytes])] at hsame
    -- the checksums agree, and the change is too short for that
    obtain ⟨hlength, hfront, hback⟩ := decode_set hbody hc hread
    exact (eq_of_crc32_eq (by decide) hlength hfront hback (crcBytes_injective hsame)).symm
  · intro crcText' h
    exact eq_of_decode_encode hbody (openParts_ok h).1

/-- **A code with one character of its body or its checksum changed to another base32 character is
    refused, or it still has its payload.** -/
theorem openCode_set (h : finish marker w outSize = .ok text) {i v v' : ℕ} {old : UInt8}
    (hi : marker.length < i) (hold : text[i]? = some old) (hv : b32Value old = some v)
    (hc : b32Value c = some v') (hopen : openCode marker (text.set i c) payloadSize = .ok payload) :
    payload = w.data := by
  obtain ⟨body, crcText, rfl, hbody, hcrc⟩ := finish_spec h
  obtain ⟨hlength, hdot⟩ := crcText_spec hcrc
  obtain ⟨inBody, inCrc⟩ := openParts_set
    hc hbody hcrc
  obtain ⟨n, rfl⟩ := Nat.exists_eq_add_of_lt hi
  rw [getElem?_append_right (by omega), show marker.length + n + 1 - marker.length = n + 1 by
    omega, getElem?_cons_succ] at hold
  rw [set_append_right _ _ (by omega), show marker.length + n + 1 - marker.length = n + 1 by
    omega, set_cons_succ] at hopen
  by_cases hn : n < body.length
  · rw [set_append_left _ _ hn, openCode_eq _ _ _ hdot] at hopen
    exact inBody n hopen
  rw [getElem?_append_right (by omega)] at hold
  rw [set_append_right _ _ (by omega)] at hopen
  cases hm : n - body.length with
  | zero =>
    -- the dot between the two parts is no base32 character
    rw [hm, getElem?_cons_zero] at hold
    exact absurd (Option.some.inj hold).symm (ne_dot_of_value hv)
  | succ m =>
    rw [hm, set_cons_succ, openCode_eq] at hopen
    · exact inCrc _ hopen
    · intro hmem
      rcases mem_or_eq_of_mem_set hmem with hmem | heq
      · exact hdot hmem
      · exact ne_dot_of_value hc heq.symm

/-- Nothing shorter than its marker and a dot is a code. -/
theorem openCode_short (hshort : text.length ≤ marker.length) :
    openCode marker text payloadSize = .error .errPrefix := by
  unfold openCode
  rw [if_pos (Or.inr ?_)]
  rw [getElem?_eq_none hshort]
  exact nofun

/-- A code whose checksum is not seven characters is refused. -/
theorem openParts_of_length (h : crcText.length ≠ 7) :
    ∃ e, openParts body crcText payloadSize = .error e := by
  unfold openParts
  split
  · exact ⟨_, rfl⟩
  split
  · exact ⟨_, rfl⟩
  · exact ⟨_, if_pos h⟩

/-- **A code that is cut short is refused.** -/
theorem openCode_take (h : finish marker w outSize = .ok text) {n : ℕ} (hn : n < text.length) :
    ∃ e, openCode marker (text.take n) payloadSize = .error e := by
  obtain ⟨body, crcText, rfl, hbody, hcrc⟩ := finish_spec h
  obtain ⟨hlength, hdot⟩ := crcText_spec hcrc
  by_cases hmarker : n ≤ marker.length
  · exact ⟨_, openCode_short (by rw [length_take]; omega)⟩
  obtain ⟨m, rfl⟩ := Nat.exists_eq_add_of_lt (Nat.lt_of_not_le hmarker)
  rw [length_append, length_cons, length_append, length_cons] at hn
  rw [take_append, show marker.length + m + 1 - marker.length = m + 1 by omega,
    take_of_length_le (by omega), take_succ_cons]
  by_cases hm : m ≤ body.length
  · refine ⟨_, openCode_of_not_mem _ _ fun hmem => dot_not_mem_body hbody ?_⟩
    rw [take_append_of_le_length hm] at hmem
    exact mem_of_mem_take hmem
  obtain ⟨k, rfl⟩ := Nat.exists_eq_add_of_lt (Nat.lt_of_not_le hm)
  rw [take_append, show body.length + k + 1 - body.length = k + 1 by omega,
    take_of_length_le (by omega), take_succ_cons,
    openCode_eq _ _ _ fun hmem => hdot (mem_of_mem_take hmem)]
  refine openParts_of_length ?_
  rw [length_take]
  omega

/-- **A code that is mistyped in one place of its body or checksum is refused or still has its
    payload, and a code that is cut short is refused.** -/
theorem damage_detected (h : finish marker w outSize = .ok text) :
    (∀ (i v v' : ℕ) (old c : UInt8), marker.length < i → text[i]? = some old →
        b32Value old = some v → b32Value c = some v' → v' ≠ v → ∀ payloadSize payload,
          openCode marker (text.set i c) payloadSize = .ok payload → payload = w.data) ∧
      ∀ n < text.length, ∀ payloadSize, ∃ e, openCode marker (text.take n) payloadSize = .error e :=
  ⟨fun _ _ _ _ _ hi hold hv hc _ _ _ hopen => openCode_set h hi hold hv hc hopen,
    fun _ hn _ => openCode_take h hn⟩

/-- The payload of one byte, and its last character with another value in its spare bits. -/
theorem damage_detected_short :
    openCode (ascii "DWRTAP1") (ascii "DWRTAP1.AF.UUC56GY") 320 = .ok [1] ∧
      [1] = (putByte .empty 1).data ∧
      ∃ e, openCode (ascii "DWRTAP1") ((ascii "DWRTAP1.AE.UUC56GY").take 17) 320 = .error e := by
  have hfinish : finish (ascii "DWRTAP1") (putByte .empty 1) 512 =
      .ok (ascii "DWRTAP1.AE.UUC56GY") := by decide +kernel
  have hset : (ascii "DWRTAP1.AE.UUC56GY").set 9 'F'.toUInt8 = ascii "DWRTAP1.AF.UUC56GY" := by
    decide +kernel
  have hopen : openCode (ascii "DWRTAP1") (ascii "DWRTAP1.AF.UUC56GY") 320 = .ok [1] := by
    decide +kernel
  obtain ⟨hset', htake⟩ := damage_detected hfinish
  refine ⟨hopen, ?_, htake 17 (by decide +kernel) 320⟩
  exact hset' 9 4 5 'E'.toUInt8 'F'.toUInt8 (by decide +kernel) (by decide +kernel)
    (by decide +kernel) (by decide +kernel) (by decide) 320 [1] (by rw [hset, hopen])

end DreamingOS.Paircode
