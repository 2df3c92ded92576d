import DreamingOS.Lib.BigEndian
import DreamingOS.Lib.JsonRead

namespace DreamingOS.SecretRotation

/-!
# The secret rotation — the digest of a request

What `ac_secret_create` compares a repeated request by (`ac_secret_rotation.c`).

* `Request`, `Request.Valid` — the fields that are hashed, and their checks;
* `Request.bytes`, `requestDigest`, `repeated` — what is hashed, and the answer to a repeat;
* `MovesRight`, `MovesLeft` — a byte can go from one field to the next;
* `digest_binds_iff` — **the digest binds a request** just where none can.
-/

open Bytes List

/-! ### The checks -/

/-- `ac_secret_uuid4_valid`. -/
def uuid4Valid (value : List UInt8) : Bool :=
  value.length = 36 ∧ value[14]? = some 0x34 ∧
    (value[19]?.any fun c => c = 0x38 ∨ c = 0x39 ∨ c = 0x61 ∨ c = 0x62) ∧
    value.zipIdx.all fun (c, i) =>
      if i ∈ [8, 13, 18, 23] then c = 0x2d
      else (0x30 ≤ c ∧ c ≤ 0x39) ∨ (0x61 ≤ c ∧ c ≤ 0x66)

def ssidChar (c : UInt8) : Bool :=
  (0x61 ≤ c ∧ c ≤ 0x7a) ∨ (0x30 ≤ c ∧ c ≤ 0x39) ∨ c = 0x2d

/-- `ac_secret_ssid_id_valid`. -/
def ssidIdValid (value : List UInt8) : Bool :=
  value.length ≠ 0 ∧ value.length ≤ 64 ∧ value.all ssidChar

def secretChar (c : UInt8) : Bool :=
  0x20 ≤ c ∧ c ≤ 0x7e ∧ c ≠ 0x27 ∧ c ≠ 0x22 ∧ c ≠ 0x5c

def isHex (c : UInt8) : Bool :=
  (0x30 ≤ c ∧ c ≤ 0x39) ∨ (0x61 ≤ c ∧ c ≤ 0x66) ∨
    (0x41 ≤ c ∧ c ≤ 0x46)

/-- `ac_secret_value_valid`. -/
def valueValid (value : List UInt8) : Bool :=
  8 ≤ value.length ∧ value.length ≤ 64 ∧ value.all secretChar ∧ (value.length < 64 ∨ value.all isHex)

structure Request where
  (apId ssidId : List UInt8)
  baseRevision : ℕ
  secret : List UInt8
deriving DecidableEq

/-- The checks of `ac_secret_create`. -/
structure Request.Valid (r : Request) : Prop where
  apId : uuid4Valid r.apId = true
  ssidId : ssidIdValid r.ssidId = true
  baseRevision : 1 ≤ r.baseRevision ∧ r.baseRevision ≤ 2 ^ 63 - 2
  secret : valueValid r.secret = true

/-! ### The digest -/

/-- What `ac_secret_request_digest` hashes. -/
def Request.bytes (r : Request) : List UInt8 :=
  r.apId ++ 0 :: (r.ssidId ++ (toBE 8 r.baseRevision ++ r.secret))

def hexText (bs : List UInt8) : List UInt8 :=
  bs.flatMap fun b => [JsonBytes.hexDigit (b.toNat / 16), JsonBytes.hexDigit (b.toNat % 16)]

/-- `ac_secret_request_digest`. -/
def requestDigest (hmac : List UInt8 → List UInt8) (r : Request) : List UInt8 :=
  "hmac-sha256:".toList.map Char.toUInt8 ++ hexText (hmac r.bytes)

inductive Answer where
  | status (jobId : List UInt8)
  | idempotencyConflict

/-- The answer of `ac_secret_create` where the actor and the idempotency key have a job. -/
def repeated (hmac : List UInt8 → List UInt8) (jobId stored : List UInt8) (r : Request) : Answer :=
  if stored = [] ∨ stored ≠ requestDigest hmac r then .idempotencyConflict else .status jobId

variable {r r' : Request}

theorem hexText_injective : Function.Injective hexText := by
  have hdigits : ∀ b : UInt8, b.toNat = 16 * JsonBytes.hexValue (JsonBytes.hexDigit (b.toNat / 16)) +
      JsonBytes.hexValue (JsonBytes.hexDigit (b.toNat % 16)) := by
    intro b
    have hb := b.toNat_lt
    rw [JsonBytes.hexValue_hexDigit (by omega), JsonBytes.hexValue_hexDigit (by omega)]
    omega
  intro as
  induction as with
  | nil => exact fun bs h => by cases bs <;> cases h; rfl
  | cons a as ih =>
    intro bs h
    cases bs with
    | nil => cases h
    | cons b bs =>
      obtain ⟨hhigh, hlow, hrest⟩ : _ ∧ _ ∧ hexText as = hexText bs := by
        simpa only [hexText, flatMap_cons, cons_append, nil_append, cons.injEq] using h
      have hab : a = b := UInt8.toNat_inj.mp (by rw [hdigits a, hhigh, hlow, ← hdigits b])
      rw [hab, ih hrest]

/-! ### A byte moves -/

theorem valueValid_suffix {value rest : List UInt8} (h : valueValid value = true)
    (hsuffix : rest <:+ value) (hlen : 8 ≤ rest.length) : valueValid rest = true := by
  obtain ⟨front, rfl⟩ := hsuffix
  simp only [valueValid, length_append, all_append, Bool.and_eq_true, decide_eq_true_eq] at h ⊢
  obtain ⟨-, hmax, ⟨-, hchars⟩, hhex⟩ := h
  exact ⟨hlen, by omega, hchars, hhex.imp (by omega) And.right⟩

/-- The first byte of the revision is one of an SSID id, and the next one can be the first. -/
def MovesRight (r : Request) : Prop :=
  r.ssidId.length < 64 ∧ 8 < r.secret.length ∧ ssidChar ((toBE 8 r.baseRevision).getD 0 0) = true ∧
    (toBE 8 r.baseRevision).getD 1 0 < 0x80

/-- The SSID id has a byte to spare, and the secret takes the last one of the revision. -/
def MovesLeft (r : Request) : Prop :=
  1 < r.ssidId.length ∧ valueValid ((toBE 8 r.baseRevision).getD 7 0 :: r.secret) = true

/-- The bytes of a revision. -/
theorem toBE_eight (n : ℕ) : ∃ b₀ b₁ b₂ b₃ b₄ b₅ b₆ b₇, toBE 8 n = [b₀, b₁, b₂, b₃, b₄, b₅, b₆, b₇] :=
  ⟨_, _, _, _, _, _, _, _, rfl⟩

theorem ssidChar_bounds {c : UInt8} (h : ssidChar c = true) : 0x2d ≤ c.toNat ∧ c.toNat ≤ 0x7a := by
  simp only [ssidChar, decide_eq_true_eq, UInt8.le_iff_toNat_le, ← UInt8.toNat_inj,
    UInt8.reduceToNat] at h
  omega

theorem secretChar_bounds {c : UInt8} (h : secretChar c = true) : 0x20 ≤ c.toNat ∧ c.toNat ≤ 0x7e := by
  simp only [secretChar, decide_eq_true_eq, UInt8.le_iff_toNat_le, UInt8.reduceToNat] at h
  exact ⟨h.1, h.2.1⟩

/-- The first byte of a revision. -/
theorem first_lt {n : ℕ} {b : UInt8} {bs : List UInt8} (h : n < 2 ^ 63) (hlen : bs.length = 7)
    (hb : toBE 8 n = b :: bs) : b.toNat < 0x80 := by
  have hn := @ofBE_toBE_of_lt 8 n (h.trans (by decide))
  rw [hb, ofBE_cons, hlen] at hn
  omega

/-- Of two requests with the same bytes, one has the longer SSID id. -/
theorem moves_of_longer (h : r.Valid) (h' : r'.Valid) (hlt : r.ssidId.length < r'.ssidId.length)
    (heq : r.ssidId ++ (toBE 8 r.baseRevision ++ r.secret) =
      r'.ssidId ++ (toBE 8 r'.baseRevision ++ r'.secret)) : MovesRight r ∧ MovesLeft r' := by
  have hs := h.ssidId
  have hs' := h'.ssidId
  have hv' := h'.secret
  simp only [ssidIdValid, valueValid, decide_eq_true_eq, all_eq_true] at hs hs' hv'
  have hlen := congrArg length heq
  simp only [length_append, length_toBE] at hlen
  obtain ⟨front, hfront, hrest⟩ := (append_eq_append_iff.mp heq).resolve_right
    fun ⟨t, ht, _⟩ => by rw [ht, length_append] at hlt; omega
  cases front with
  | nil =>
    rw [hfront, append_nil] at hlt
    exact absurd hlt (Nat.lt_irrefl _)
  | cons c front =>
    have hchars : ∀ x ∈ c :: front, ssidChar x = true :=
      fun x hx => hs'.2.2 x (hfront ▸ mem_append_right _ hx)
    obtain ⟨b₀, b₁, b₂, b₃, b₄, b₅, b₆, b₇, hb⟩ := toBE_eight r.baseRevision
    obtain ⟨d₀, d₁, d₂, d₃, d₄, d₅, d₆, d₇, hd⟩ := toBE_eight r'.baseRevision
    have hfirst := first_lt (Nat.lt_of_le_of_lt h'.baseRevision.2 (by decide)) rfl hd
    unfold MovesRight MovesLeft
    rw [hb, hd] at hrest ⊢
    have hc : b₀ = c := (cons.inj hrest).1
    have hsecond : b₁.toNat < 0x80 := by
      cases front with
      | nil => exact (cons.inj (cons.inj hrest).2).1 ▸ hfirst
      | cons d front =>
        rw [(cons.inj (cons.inj hrest).2).1]
        exact Nat.lt_of_le_of_lt (ssidChar_bounds (hchars d (mem_cons_of_mem _ mem_cons_self))).2
          (by decide)
    refine ⟨⟨by omega, by omega, hc ▸ hchars c mem_cons_self, UInt8.lt_iff_toNat_lt.mpr hsecond⟩,
      by omega, valueValid_suffix h.secret ?_ (by rw [length_cons]; omega)⟩
    refine suffix_of_suffix_length_le ?_ (suffix_append [b₀, b₁, b₂, b₃, b₄, b₅, b₆, b₇] r.secret)
      (by rw [getD_cons_succ, length_cons]; omega)
    rw [hrest]
    exact (suffix_append [d₀, d₁, d₂, d₃, d₄, d₅, d₆] (d₇ :: r'.secret)).trans (suffix_append _ _)

/-- A request over other borders. -/
theorem bytes_other {ssidId revision secret : List UInt8} (hlen : revision.length = 8)
    (h : ssidId ++ (revision ++ secret) = r.ssidId ++ (toBE 8 r.baseRevision ++ r.secret)) :
    (Request.mk r.apId ssidId (ofBE revision) secret).bytes = r.bytes := by
  unfold Request.bytes
  rw [← hlen, toBE_ofBE, h, hlen]

theorem exists_of_movesRight (h : r.Valid) (hmoves : MovesRight r) :
    ∃ r', r'.Valid ∧ r'.bytes = r.bytes ∧ r' ≠ r := by
  obtain ⟨hlen, hsecret, hchar, hnext⟩ := hmoves
  obtain ⟨b₀, b₁, b₂, b₃, b₄, b₅, b₆, b₇, hb⟩ := toBE_eight r.baseRevision
  cases hr : r.secret with
  | nil => rw [hr] at hsecret; cases hsecret
  | cons c rest =>
    rw [hb] at hchar hnext
    have hs := h.ssidId
    have hv := h.secret
    simp only [ssidIdValid, decide_eq_true_eq] at hs
    rw [hr] at hv hsecret
    have hc : secretChar c = true := by
      simp only [valueValid, all_cons, Bool.and_eq_true, decide_eq_true_eq] at hv
      exact hv.2.2.1.1
    have hnext : b₁.toNat < 0x80 := UInt8.lt_iff_toNat_lt.mp hnext
    have hbounds := secretChar_bounds hc
    have hmid := ofBE_lt [b₂, b₃, b₄, b₅, b₆, b₇]
    have hvalue : ofBE [b₁, b₂, b₃, b₄, b₅, b₆, b₇, c] =
        b₁.toNat * 256 ^ 7 + (ofBE [b₂, b₃, b₄, b₅, b₆, b₇] * 256 + c.toNat) := by
      rw [ofBE_cons]
      exact congrArg _ (ofBE_append [b₂, b₃, b₄, b₅, b₆, b₇] [c])
    simp only [length_cons, length_nil] at hmid
    refine ⟨⟨r.apId, r.ssidId ++ [b₀], ofBE [b₁, b₂, b₃, b₄, b₅, b₆, b₇, c], rest⟩,
      ⟨h.apId, ?_, ?_, ?_⟩, bytes_other rfl (by rw [hb, hr]; simp), fun heq => ?_⟩
    · simp only [ssidIdValid, length_append, length_singleton, all_append, all_cons, all_nil,
        Bool.and_eq_true, decide_eq_true_eq]
      exact ⟨by omega, by omega, hs.2.2, hchar, trivial⟩
    · show 1 ≤ ofBE _ ∧ ofBE _ ≤ _
      rw [hvalue]
      omega
    · exact valueValid_suffix hv (suffix_cons c rest) (Nat.le_of_lt_succ hsecret)
    · have hids := congrArg (fun r => r.ssidId.length) heq
      simp at hids

theorem exists_of_movesLeft (h : r.Valid) (hmoves : MovesLeft r) :
    ∃ r', r'.Valid ∧ r'.bytes = r.bytes ∧ r' ≠ r := by
  obtain ⟨hlen, hvalue⟩ := hmoves
  obtain ⟨b₀, b₁, b₂, b₃, b₄, b₅, b₆, b₇, hb⟩ := toBE_eight r.baseRevision
  have hs := h.ssidId
  simp only [ssidIdValid, decide_eq_true_eq] at hs
  obtain ⟨front, c, hr⟩ := eq_nil_or_concat' r.ssidId |>.resolve_left (by rintro hnil; simp [hnil] at hs)
  rw [hr, length_append, length_singleton, all_append, Bool.and_eq_true] at hs
  rw [hr, length_append, length_singleton] at hlen
  have hchar : ssidChar c = true := all_eq_true.mp hs.2.2.2 c mem_cons_self
  have hbounds := ssidChar_bounds hchar
  have hrest := ofBE_lt [b₀, b₁, b₂, b₃, b₄, b₅, b₆]
  simp only [length_cons, length_nil] at hrest
  rw [hb] at hvalue
  refine ⟨⟨r.apId, front, ofBE [c, b₀, b₁, b₂, b₃, b₄, b₅, b₆], b₇ :: r.secret⟩,
    ⟨h.apId, ?_, ?_, hvalue⟩, bytes_other rfl (by rw [hb, hr]; simp), fun heq => ?_⟩
  · simp only [ssidIdValid, decide_eq_true_eq]
    exact ⟨by omega, by omega, hs.2.2.1⟩
  · show 1 ≤ ofBE _ ∧ ofBE _ ≤ _
    rw [ofBE_cons]
    simp only [length_cons, length_nil]
    omega
  · have hsecrets := congrArg (fun r => r.secret.length) heq
    simp at hsecrets

/-! ### What the digest binds -/

/-- No other request has the bytes of this one. -/
theorem bytes_bind_iff (h : r.Valid) :
    (∀ r', r'.Valid → r'.bytes = r.bytes → r' = r) ↔ ¬ MovesRight r ∧ ¬ MovesLeft r := by
  constructor
  · refine fun hbind => ⟨fun hmoves => ?_, fun hmoves => ?_⟩
    · obtain ⟨r', hr', hbytes, hne⟩ := exists_of_movesRight h hmoves
      exact hne (hbind r' hr' hbytes)
    · obtain ⟨r', hr', hbytes, hne⟩ := exists_of_movesLeft h hmoves
      exact hne (hbind r' hr' hbytes)
  · rintro ⟨hright, hleft⟩ r' h' hbytes
    have hap : ∀ {r : Request}, r.Valid → r.apId.length = 36 := by
      intro r h
      have hid := h.apId
      simp only [uuid4Valid, decide_eq_true_eq] at hid
      exact hid.1
    obtain ⟨hids, hrest⟩ := append_inj hbytes ((hap h').trans (hap h).symm)
    have hrest := (cons.inj hrest).2
    rcases Nat.lt_trichotomy r.ssidId.length r'.ssidId.length with hlt | heq | hlt
    · exact absurd (moves_of_longer h h' hlt hrest.symm).1 hright
    · obtain ⟨hssid, hrest⟩ := append_inj hrest heq.symm
      obtain ⟨hrevision, hsecret⟩ := append_inj hrest (by rw [length_toBE, length_toBE])
      have hvalue : ∀ {r : Request}, r.Valid → ofBE (toBE 8 r.baseRevision) = r.baseRevision :=
        fun h => ofBE_toBE_of_lt (Nat.lt_of_le_of_lt h.baseRevision.2 (by decide))
      have hrevision := congrArg ofBE hrevision
      rw [hvalue h', hvalue h] at hrevision
      obtain ⟨ap, ssid, revision, secret⟩ := r
      exact (Request.mk.injEq ..).mpr ⟨hids, hssid, hrevision, hsecret⟩
    · exact absurd (moves_of_longer h' h hlt hrest).2 hleft

/-- **The digest binds a request**, and a repeat of it is answered right, just where no byte can move
    over a border. -/
theorem digest_binds_iff (hmac : List UInt8 → List UInt8) (h : r.Valid)
    (hcollision : ∀ bs, hmac bs = hmac r.bytes → bs = r.bytes) :
    ((∀ r', r'.Valid → r'.bytes = r.bytes → r' = r) ∧
      ∀ jobId r', r'.Valid → repeated hmac jobId (requestDigest hmac r) r' =
        if r' = r then .status jobId else .idempotencyConflict) ↔
      ¬ MovesRight r ∧ ¬ MovesLeft r := by
  rw [← bytes_bind_iff h, and_iff_left_iff_imp]
  intro hbind jobId r' h'
  have hsome : requestDigest hmac r ≠ [] := by
    intro hnil
    cases hnil
  have hdigest : requestDigest hmac r = requestDigest hmac r' ↔ r' = r := by
    refine ⟨fun heq => hbind r' h' (hcollision _ ?_), fun heq => by rw [heq]⟩
    exact (hexText_injective (append_cancel_left heq)).symm
  unfold repeated
  by_cases heq : r' = r
  · rw [if_pos heq, if_neg (by rintro (hnil | hne); exacts [hsome hnil, hne (hdigest.mpr heq)])]
  · rw [if_neg heq, if_pos (.inr fun hsame => heq (hdigest.mp hsame))]

def sampleAp : List UInt8 := "00000000-0000-4000-8000-000000000000".toList.map Char.toUInt8

/-- The request for an SSID `ab` at its revision 32, and the one for `a` with the next byte. -/
def sample : Request := ⟨sampleAp, [97, 98], 32, [112, 97, 115, 115, 119, 111, 114, 100]⟩

def sampleMoved : Request := ⟨sampleAp, [97], 98 * 2 ^ 56, 32 :: sample.secret⟩

def sampleFirst : Request := { sample with baseRevision := 1 }

/-- The request for `ab` at its first revision is bound. -/
theorem digest_binds_iff_first : sampleFirst.Valid ∧
    ∀ r', r'.Valid → r'.bytes = sampleFirst.bytes → r' = sampleFirst :=
  ⟨by constructor <;> decide +kernel, ((digest_binds_iff (fun bs => List.replicate 32 (if bs = sampleFirst.bytes then 1 else 0))
    (by constructor <;> decide +kernel)
    (fun bs hbs => by by_contra hne; rw [if_neg hne] at hbs; revert hbs; decide)).mpr
    (by unfold MovesRight MovesLeft; decide +kernel)).1⟩

/-- Two requests, and one digest. -/
theorem moved_byte_unnoticed : sample.Valid ∧ sampleMoved.Valid ∧ sample ≠ sampleMoved ∧
    sample.bytes = sampleMoved.bytes ∧ ∀ hmac jobId,
      repeated hmac jobId (requestDigest hmac sample) sampleMoved = .status jobId := by
  have hbytes : sample.bytes = sampleMoved.bytes := by decide +kernel
  refine ⟨by constructor <;> decide +kernel, by constructor <;> decide +kernel, by decide +kernel,
    hbytes, fun hmac jobId => ?_⟩
  unfold repeated requestDigest
  rw [hbytes]
  exact if_neg (by rintro (hnil | hne); exacts [absurd hnil (by simp), hne rfl])

end DreamingOS.SecretRotation
