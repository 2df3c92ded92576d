import DreamingOS.Cloud.ReplayGuard
import DreamingOS.Lib.Text

namespace DreamingOS.Cloud

/-!
# Cloud request transcript — what a signature covers

The bytes under the signature of a `relay_request` frame: a bare concatenation of four fields behind
a context string.

* `base64Decode`, `RelayFrame.fields` — the field checks of the tunnel;
* `RouterId` — an id of one of the two shapes a router can have;
* `transcript_fields` — **equal transcripts have equal router ids**, and all their fields are equal
  when the request ids, or the ciphertexts, are of one length.
-/

open Text List

/-! ### Base64 -/

def CLOUD_FRAME_MAX : ℕ := 64 * 1024

/-- `cloud_base64_value`. -/
def base64Value (c : UInt8) : Option UInt32 :=
  if 0x41 ≤ c ∧ c ≤ 0x5a then some (c.toUInt32 - 0x41)
  else if 0x61 ≤ c ∧ c ≤ 0x7a then some (c.toUInt32 - 0x61 + 26)
  else if 0x30 ≤ c ∧ c ≤ 0x39 then some (c.toUInt32 - 0x30 + 52)
  else if c = 0x2b then some 62
  else if c = 0x2f then some 63
  else none

/-- The loop of `cloud_base64_decode`. -/
def base64Loop : List UInt8 → UInt32 → ℕ → ℕ → Option (List UInt8)
  | [], _, _, _ => some []
  | c :: s, accumulator, bits, padding =>
    if c = 0x3d then
      -- padding is only legal in the last two places
      if 2 ≤ s.length ∨ 2 < padding + 1 then none
      else base64Loop s accumulator bits (padding + 1)
    else if padding ≠ 0 then none
    else
      match base64Value c with
      | none => none
      | some value =>
        let accumulator := accumulator <<< 6 ||| value
        if 8 ≤ bits + 6 then
          let byte := (accumulator >>> UInt32.ofNat (bits + 6 - 8)) &&& 0xff
          (base64Loop s accumulator (bits + 6 - 8) padding).map (byte.toUInt8 :: ·)
        else base64Loop s accumulator (bits + 6) padding

/-- `cloud_base64_decode`. -/
def base64Decode (text : List UInt8) : Option (List UInt8) :=
  if text = [] ∨ text.length % 4 ≠ 0 ∨ CLOUD_FRAME_MAX < text.length then none
  else base64Loop text 0 0 0

/-- `cloud_base64_decode_fixed`. -/
def base64DecodeFixed (text : List UInt8) (expected : ℕ) : Option (List UInt8) :=
  match base64Decode text with
  | none => none
  | some decoded => if decoded.length ≠ expected then none else some decoded

theorem length_base64DecodeFixed {text decoded : List UInt8} {expected : ℕ}
    (h : base64DecodeFixed text expected = some decoded) : decoded.length = expected := by
  unfold base64DecodeFixed at h
  split at h
  · cases h
  split at h
  · cases h
  rename_i hlen
  obtain rfl := Option.some.inj h
  exact not_not.mp hlen

/-! ### Frames -/

def CLOUD_X25519_KEY_LEN : ℕ := 32
def CLOUD_ED25519_KEY_LEN : ℕ := 32
def CLOUD_ED25519_SIG_LEN : ℕ := 64

/-- The strings of a `relay_request` frame, where it has them. -/
structure RelayFrame where
  (requestId ephemeralPublicKey ciphertext appSignature appSigningKey : Option (List UInt8))

/-- The fields that are signed, decoded; the key has its fixed length. -/
structure SignedFields where
  (requestId ephemeral ciphertext : List UInt8)
  length_ephemeral : ephemeral.length = CLOUD_X25519_KEY_LEN

/-- The field checks at the head of `cloud_handle_request`. -/
def RelayFrame.fields (frame : RelayFrame) : Option SignedFields :=
  match frame.requestId, frame.ephemeralPublicKey, frame.ciphertext, frame.appSignature,
    frame.appSigningKey with
  | some requestId, some ephemeral, some ciphertext, some signature, some signingKey =>
    if requestIdMax < requestId.length then none
    else
      match hkey : base64DecodeFixed ephemeral CLOUD_X25519_KEY_LEN,
        base64DecodeFixed signature CLOUD_ED25519_SIG_LEN,
        base64DecodeFixed signingKey CLOUD_ED25519_KEY_LEN, base64Decode ciphertext with
      | some ephemeral, some _, some _, some ciphertext =>
        some ⟨requestId, ephemeral, ciphertext, length_base64DecodeFixed hkey⟩
      | _, _, _, _ => none
  | _, _, _, _, _ => none

/-- A request that passes the field checks. -/
abbrev AcceptedFrame := { frame : RelayFrame // frame.fields.isSome = true }

/-- What of it is signed. -/
def AcceptedFrame.signed (frame : AcceptedFrame) : SignedFields := frame.1.fields.get frame.2

/-! ### Router ids -/

/-- A digit of a router id. -/
def lowerHex (c : UInt8) : Bool := (0x30 ≤ c && c ≤ 0x39) || (0x61 ≤ c && c ≤ 0x66)

def ROUTER_ID_PREFIX : List UInt8 := ascii "router-".toList

/-- `cloud_identity_router_id_is_fingerprint`. -/
def routerIdIsFingerprint (value : List UInt8) : Bool :=
  value.length = 7 + 32 && value.take 7 = ROUTER_ID_PREFIX && (value.drop 7).all lowerHex

def CLOUD_UUID_LEN : ℕ := 36

/-- `cloud_identity_router_id_is_uuid`. -/
def routerIdIsUuid (value : List UInt8) : Bool :=
  value.length = CLOUD_UUID_LEN &&
    value.zipIdx.all fun (c, i) =>
      if i = 8 ∨ i = 13 ∨ i = 18 ∨ i = 23 then c = 0x2d else lowerHex c

/-- `cloud_identity_router_id_valid`. -/
def routerIdValid (value : List UInt8) : Bool := routerIdIsFingerprint value || routerIdIsUuid value

/-- An id of a router: the one derived from its keys, or a legacy one from its file. -/
abbrev RouterId := { value : List UInt8 // routerIdValid value = true }

/-- An id of the derived shape begins with a letter that begins no id of the other. -/
theorem RouterId.shape (r : RouterId) : (∃ rest, r.1 = 0x72 :: rest ∧ rest.length = 38) ∨
      ∃ c rest, r.1 = c :: rest ∧ c ≠ 0x72 ∧ rest.length = 35 := by
  obtain ⟨value, hvalid⟩ := r
  obtain hfinger | huuid := Bool.or_eq_true_iff.mp hvalid
  · unfold routerIdIsFingerprint at hfinger
    rw [Bool.and_eq_true, Bool.and_eq_true, decide_eq_true_eq, decide_eq_true_eq] at hfinger
    obtain ⟨⟨hlen, htake⟩, -⟩ := hfinger
    cases value with
    | nil => cases hlen
    | cons c rest =>
      obtain ⟨hc, -⟩ := List.cons.inj htake
      subst hc
      exact .inl ⟨rest, rfl, Nat.succ.inj hlen⟩
  · unfold routerIdIsUuid at huuid
    rw [Bool.and_eq_true, decide_eq_true_eq] at huuid
    obtain ⟨hlen, hall⟩ := huuid
    cases value with
    | nil => cases hlen
    | cons c rest =>
      have hc : lowerHex c = true := by
        rw [List.all_eq_true] at hall
        simpa using hall (c, 0) (by simp)
      refine .inr ⟨c, rest, rfl, ?_, Nat.succ.inj hlen⟩
      rintro rfl
      exact absurd hc (by decide)

/-- **An id of a router is no beginning of another one.** -/
theorem RouterId.eq_of_append {r r' : RouterId} {rest rest' : List UInt8}
    (h : r.1 ++ rest = r'.1 ++ rest') : r = r' ∧ rest = rest' := by
  have hlen : r.1.length = r'.1.length := by
    obtain ⟨a, ha, hla⟩ | ⟨c, a, ha, hc, hla⟩ := r.shape
    · obtain ⟨b, hb, hlb⟩ | ⟨d, b, hb, hd, -⟩ := r'.shape
      · rw [ha, hb, length_cons, length_cons, hla, hlb]
      · rw [ha, hb] at h
        exact absurd (List.cons.inj h).1.symm hd
    · obtain ⟨b, hb, -⟩ | ⟨d, b, hb, -, hlb⟩ := r'.shape
      · rw [ha, hb] at h
        exact absurd (List.cons.inj h).1 hc
      · rw [ha, hb, length_cons, length_cons, hla, hlb]
  obtain ⟨hr, hrest⟩ := append_inj h hlen
  exact ⟨Subtype.ext hr, hrest⟩

/-! ### The transcript -/

def CLOUD_E2EE_CONTEXT : List UInt8 := ascii "dreamingos-relay-e2ee-v1".toList

/-- The bytes that `cloud_envelope_verify_signature` verifies. -/
def transcript (routerId : RouterId) (fields : SignedFields) : List UInt8 :=
  CLOUD_E2EE_CONTEXT ++ routerId.1 ++ fields.requestId ++ fields.ephemeral ++ fields.ciphertext

/-- Behind equal context and router id, the lengths of the other fields are balanced. -/
theorem transcript_eq {r r' : RouterId} {q q' : SignedFields}
    (h : transcript r q = transcript r' q') :
    r = r' ∧ q.requestId ++ (q.ephemeral ++ q.ciphertext) =
      q'.requestId ++ (q'.ephemeral ++ q'.ciphertext) := by
  unfold transcript at h
  simp only [append_assoc] at h
  exact RouterId.eq_of_append (append_cancel_left h)

theorem SignedFields.ext_of_length {q q' : SignedFields}
    (h : q.requestId ++ (q.ephemeral ++ q.ciphertext) =
      q'.requestId ++ (q'.ephemeral ++ q'.ciphertext))
    (hlen : q.requestId.length = q'.requestId.length) : q = q' := by
  obtain ⟨hid, hrest⟩ := append_inj h hlen
  obtain ⟨hkey, htext⟩ := append_inj hrest (q.length_ephemeral.trans q'.length_ephemeral.symm)
  cases q
  cases q'
  cases hid
  cases hkey
  cases htext
  rfl

/-- **Equal transcripts name one router**, one of the request ids begins with the other, and the
    requests are the same ones if and only if their request ids, or their ciphertexts, are of one
    length. -/
theorem transcript_fields {r r' : RouterId} {frame frame' : AcceptedFrame}
    (h : transcript r frame.signed = transcript r' frame'.signed) :
    r = r' ∧ (frame.signed.requestId <+: frame'.signed.requestId ∨
        frame'.signed.requestId <+: frame.signed.requestId) ∧
      (frame.signed = frame'.signed ↔
        frame.signed.requestId.length = frame'.signed.requestId.length) ∧
      (frame.signed = frame'.signed ↔
        frame.signed.ciphertext.length = frame'.signed.ciphertext.length) := by
  generalize frame.signed = q at h ⊢
  generalize frame'.signed = q' at h ⊢
  obtain ⟨hr, heq⟩ := transcript_eq h
  have hfront : q.requestId <+: q'.requestId ++ (q'.ephemeral ++ q'.ciphertext) :=
    heq ▸ prefix_append _ _
  have hprefix := prefix_or_prefix_of_prefix hfront (prefix_append _ _)
  -- the keys are of one length, so what one field gains the other loses
  have hsum : q.requestId.length + q.ciphertext.length =
      q'.requestId.length + q'.ciphertext.length := by
    have hlen := congrArg List.length heq
    rw [length_append, length_append, length_append, length_append,
      q.length_ephemeral, q'.length_ephemeral] at hlen
    omega
  have hid : q = q' ↔ q.requestId.length = q'.requestId.length :=
    ⟨fun hqq => by rw [hqq], SignedFields.ext_of_length heq⟩
  refine ⟨hr, hprefix, hid, hid.trans ?_⟩
  constructor
  · intro hlen
    omega
  · intro hlen
    omega

/-! ### One byte moved from a field to the next -/

/-- A frame with a short request id; its other fields are zeros. -/
def shortIdFrame : RelayFrame where
  requestId := some (ascii "job-7".toList)
  ephemeralPublicKey := some (ascii "QUFBQUFBQUFBQUFBQUFBQUFBQUFBQUFBQUFBQUFBQUE=".toList)
  ciphertext := some (ascii "QUJD".toList)
  appSignature := some (List.replicate 86 0x41 ++ [0x3d, 0x3d])
  appSigningKey := some (List.replicate 43 0x41 ++ [0x3d])

/-- The first byte of its key belongs to the request id, and that of its ciphertext to the key. -/
def longIdFrame : RelayFrame :=
  { shortIdFrame with
    requestId := some (ascii "job-7A".toList)
    ciphertext := some (ascii "QkM=".toList) }

def sampleRouterId : RouterId := ⟨ascii "router-0123456789abcdef0123456789abcdef".toList, by decide⟩

def shortIdRequest : AcceptedFrame := ⟨shortIdFrame, by decide +kernel⟩

def longIdRequest : AcceptedFrame := ⟨longIdFrame, by decide +kernel⟩

/-- One signature covers two requests with different ids. -/
theorem transcript_shared :
    transcript sampleRouterId shortIdRequest.signed = transcript sampleRouterId longIdRequest.signed ∧
      shortIdRequest.signed.requestId ≠ longIdRequest.signed.requestId ∧
      shortIdRequest.signed.ephemeral = longIdRequest.signed.ephemeral ∧
      shortIdRequest.signed.ciphertext ≠ longIdRequest.signed.ciphertext := by
  decide +kernel

theorem transcript_fields_shared :
    (shortIdRequest.signed.requestId <+: longIdRequest.signed.requestId ∨
      longIdRequest.signed.requestId <+: shortIdRequest.signed.requestId) ∧
    (shortIdRequest.signed = longIdRequest.signed ↔
      shortIdRequest.signed.ciphertext.length = longIdRequest.signed.ciphertext.length) := by
  have h := @transcript_fields sampleRouterId sampleRouterId shortIdRequest longIdRequest
    (by decide +kernel)
  exact ⟨h.2.1, h.2.2.2⟩

end DreamingOS.Cloud
