import DreamingOS.ApiKey.Path
import DreamingOS.Lib.InetNumber
import DreamingOS.Lib.Json
import DreamingOS.Lib.Table
import Mathlib.Data.List.DropRight

namespace DreamingOS.ApiKey

/-!
# API keys — the gate

Who is let through: `webd_api_key_authenticate`, and what it asks.

* `KeyRow` — a row of `api_keys`; the handler that creates it has checked its lengths;
* `ipAllowed` — the addresses that a key may be used from;
* `scopeAllows` — the routes and the methods that it is narrowed to;
* `authenticate` — all of this in its order.

The digest, with its pepper, and the parser of JSON texts are parameters.
-/

open Segments Text

def KEY_ID_LEN : ℕ := 16
def KEY_SECRET_LEN : ℕ := 64
def KEY_PLAIN_MAX : ℕ := 128
def KEY_NAME_MAX : ℕ := 64
def KEY_SCOPE_MAX : ℕ := 2048
def KEY_IPS_MAX : ℕ := 512
def KEY_PREFIX : List UInt8 := ascii "dwrt_".toList

/-! ### Rows and keys -/

/-- A row of `api_keys`. -/
structure KeyRow where
  (keyId keyHash name tier scopeJson : List UInt8)
  allowIps : List Char
  (expiresAt revokedAt : ℤ)
  hash_len : keyHash.length = 64
  scope_len : scopeJson.length ≤ KEY_SCOPE_MAX
  ips_len : allowIps.length ≤ KEY_IPS_MAX

/-- `webd_api_key_tier_t`. -/
inductive Tier where
  | readOnly | control
  deriving DecidableEq

/-- `webd_api_key_result_t`. -/
inductive Result where
  | ok | notPresented | malformed | unknown | revoked | expired | ipNotAllowed | scopeDenied
  | forbiddenRoute | rateLimited | dbError
  deriving DecidableEq

/-- `struct webd_api_key_identity`; the tier is filled in late. -/
structure Identity where
  (keyId name : List UInt8)
  expiresAt : ℤ
  tier : Option Tier := none

/-- `webd_api_key_looks_like_key`. -/
def looksLikeKey (value : List UInt8) : Bool :=
  KEY_PREFIX.isPrefixOf value && decide (value.length > KEY_PREFIX.length + KEY_ID_LEN + 1)

/-- `api_key_split`. -/
def splitKey (presented : List UInt8) : Option (List UInt8 × List UInt8) :=
  if !looksLikeKey presented ∨ presented.length > KEY_PLAIN_MAX then none
  else
    let rest := presented.drop KEY_PREFIX.length
    let keyId := rest.takeWhile (· ≠ 0x5f)
    if keyId.length = rest.length ∨ keyId.length ≠ KEY_ID_LEN then none
    else
      let secret := rest.drop (KEY_ID_LEN + 1)
      if secret.length ≠ KEY_SECRET_LEN then none
      else if (keyId ++ secret).all fun c => (hexval c).isSome then some (keyId, secret)
      else none

/-- `api_key_ct_equal`. -/
def ctEqual (a b : List UInt8) : Bool :=
  (List.range (max a.length b.length)).foldl (fun diff i => diff ||| (a.getD i 0 ^^^ b.getD i 0)) 0
    = 0 && decide (a.length = b.length)

/-- `webd_api_key_tier_parse`. -/
def tierParse (s : List UInt8) : Option Tier :=
  if s = ascii "read_only".toList ∨ s = ascii "readonly".toList then some .readOnly
  else if s = ascii "control".toList then some .control
  else none

/-! ### Addresses -/

inductive Family where
  | inet | inet6
  deriving DecidableEq

/-- `strtol` in base ten: without a digit it reads nothing. -/
def strtol (s : List Char) : ℤ × List Char := (Scan.int s).getD (0, s)

/-- The length of a prefix, as a C `int`; `-1` stands for all the bits. -/
def cidrBits : List Char → Option ℤ
  | [] => some (-1)
  | _ :: suffix =>
    let (v, rest) := strtol suffix
    if rest ≠ [] ∨ v < 0 then none else some (v.bmod (2 ^ 32))

/-- The bits of a network, if there are so many. -/
def cidrLength (bits : ℤ) (width : ℕ) : Option ℕ :=
  if bits < 0 then some width else if bits > width then none else some bits.toNat

/-- `api_key_parse_cidr`. -/
def parseCidr (entry : List Char) : Option (Family × List UInt8 × ℕ) :=
  if entry = [] ∨ entry.length ≥ 64 then none
  else
    let text := entry.takeWhile (· ≠ '/')
    match cidrBits (entry.drop text.length) with
    | none => none
    | some bits =>
      match Inet.pton4 text with
      | some net => (cidrLength bits 32).map (.inet, net, ·)
      | none =>
        match Inet.pton6 text with
        | some net => (cidrLength bits 128).map (.inet6, net, ·)
        | none => none

/-- The address of a peer. -/
def peerAddr (ip : List Char) : Option (Family × List UInt8) :=
  match Inet.pton4 ip with
  | some addr => some (.inet, addr)
  | none => (Inet.pton6 ip).map (.inet6, ·)

/-- `api_key_ip_in_cidr`. -/
def ipInCidr (ip entry : List Char) : Bool :=
  match parseCidr entry, peerAddr ip with
  | some (family, net, bits), some (family', addr) =>
    family' = family && addr.take (bits / 8) = net.take (bits / 8) &&
      (bits % 8 = 0 ||
        addr.getD (bits / 8) 0 &&& Inet.mask (bits % 8) = net.getD (bits / 8) 0 &&& Inet.mask (bits % 8))
  | _, _ => false

/-- The entries of a list of addresses, without the blanks in front. -/
def entries (allowIps : List Char) : List (List Char) :=
  (segments ',' allowIps).map fun tok => tok.dropWhile fun c => c = ' ' || c = '\t'

/-- `api_key_ip_allowed`. -/
def ipAllowed (allowIps : List Char) (peerIp : Option (List Char)) : Bool :=
  if allowIps = [] then true
  else
    match peerIp with
    | none => false
    | some ip =>
      ip ≠ [] && (entries (allowIps.take KEY_IPS_MAX)).any fun entry => entry ≠ [] && ipInCidr ip entry

/-! ### Rates -/

/-- `struct api_key_rate_slot`; a slot is free if its key is empty. -/
structure RateSlot where
  keyId : List UInt8 := []
  ip : List Char := []
  windowStart : ℤ := 0
  count : ℕ := 0

def RATE_WINDOW_S : ℤ := 60
def RATE_MAX : ℕ := 120
def RATE_SLOTS : ℕ := 64

/-- The slot that is given to a new caller: a free one, or one whose window is over. -/
def rateVictim (slots : List RateSlot) (now : ℤ) : ℕ :=
  let victim := slots.zipIdx.foldl (fun victim (s, i) =>
    if s.keyId = [] then some (victim.getD (i, true))
    else if now - s.windowStart ≥ RATE_WINDOW_S ∧ victim.all (fun v => !v.2) then some (i, false)
    else victim) none
  (victim.map Prod.fst).getD 0

/-- `api_key_rate_ok`. -/
def rateOk (slots : List RateSlot) (keyId : List UInt8) (ip : List Char) (now : ℤ) :
    List RateSlot × Bool :=
  match slots.findIdx? fun s => s.keyId ≠ [] ∧ s.keyId = keyId ∧ s.ip = ip with
  | some i =>
    let s := slots.getD i {}
    let s := if now - s.windowStart ≥ RATE_WINDOW_S then { s with windowStart := now, count := 0 } else s
    if s.count ≥ RATE_MAX then (slots.set i s, false)
    else (slots.set i { s with count := s.count + 1 }, true)
  | none =>
    (slots.set (rateVictim slots now)
      { keyId := keyId, ip := ip.take 63, windowStart := now, count := 1 }, true)

/-! ### Scopes -/

variable {D : Type}

/-- The items of a member that is an array; without one, nothing is narrowed. -/
def narrowed (scope : Json D) (key : String) : List (Json D) :=
  match scope.get key with
  | some (.arr items) => items
  | _ => []

/-- The bytes of a string, up to its first zero. -/
def stringOf : Json D → Option (List UInt8)
  | .str s => some (utf8 (cstr s))
  | _ => none

/-- An entry of `allow`: a subtree where it ends in an asterisk, and one path otherwise. -/
def patternAdmits (norm pattern : List UInt8) : Bool :=
  if pattern = [] ∨ pattern.length ≥ 512 then false
  else
    let lowered := pattern.map lower
    if lowered.getLast? = some 0x2a then prefixMatch norm (lowered.dropLast.rdropWhile (· = SLASH))
    else norm = if lowered.length > 1 ∧ lowered.getLast? = some SLASH then lowered.dropLast else lowered

/-- `api_key_scope_allows`. -/
def scopeAllows (parse : List UInt8 → Option (Json D)) (scope : List UInt8)
    (method : Option (List UInt8)) (norm : List UInt8) : Bool :=
  if scope = [] then true
  else
    match parse scope with
    | some (.obj members) =>
      let allow := narrowed (.obj members) "allow"
      let methods := narrowed (.obj members) "methods"
      (allow.isEmpty || allow.any fun e => (stringOf e).any (patternAdmits norm)) &&
        (methods.isEmpty || methods.any fun e => (stringOf e).any fun m => method.any (sameName m))
    | _ => false

/-! ### Authentication -/

/-- What `webd_api_key_authenticate` returns, with the identity that it publishes. -/
structure Verdict where
  result : Result
  identity : Option Identity := none

/-- The gates behind the secret. -/
def authorize (parse : List UInt8 → Option (Json D)) (row : KeyRow) (keyId : List UInt8)
    (method path : Option (List UInt8)) (peerIp : Option (List Char)) (now : ℤ)
    (slots : List RateSlot) : Verdict × List RateSlot :=
  let identity tier : Identity := ⟨keyId, row.name.take KEY_NAME_MAX, row.expiresAt, tier⟩
  if row.revokedAt > 0 then (⟨.revoked, identity none⟩, slots)
  else if row.expiresAt > 0 ∧ now ≥ row.expiresAt then (⟨.expired, identity none⟩, slots)
  else if !ipAllowed (row.allowIps.take KEY_IPS_MAX) peerIp then (⟨.ipNotAllowed, identity none⟩, slots)
  else
    let (slots, inRate) := rateOk slots keyId (peerIp.getD []) now
    if !inRate then (⟨.rateLimited, identity none⟩, slots)
    else if routeForbidden method path then (⟨.forbiddenRoute, identity none⟩, slots)
    else
      match path.bind normalizePath with
      | none => (⟨.scopeDenied, identity none⟩, slots)
      | some norm =>
        let tier := (tierParse (row.tier.take 31)).getD .readOnly
        if tier = .readOnly ∧ !methodIsReadonly method then (⟨.scopeDenied, identity (some tier)⟩, slots)
        else if !scopeAllows parse (row.scopeJson.take KEY_SCOPE_MAX) method norm then
          (⟨.scopeDenied, identity (some tier)⟩, slots)
        else (⟨.ok, identity (some tier)⟩, slots)

/-- `webd_api_key_authenticate`; the table is `none` where it cannot be queried. -/
def authenticate (digest : List UInt8 → List UInt8 → Option (List UInt8))
    (parse : List UInt8 → Option (Json D)) (table : Option (Table KeyRow.keyId))
    (presented method path : Option (List UInt8)) (peerIp : Option (List Char)) (now : ℤ)
    (slots : List RateSlot) : Verdict × List RateSlot :=
  if presented.getD [] = [] then (⟨.notPresented, none⟩, slots)
  else
    match splitKey (presented.getD []) with
    | none => (⟨.malformed, none⟩, slots)
    | some (keyId, secret) =>
      match table with
      | none => (⟨.dbError, none⟩, slots)
      | some table =>
        match table.find keyId with
        | none => (⟨.unknown, none⟩, slots)
        | some row =>
          match digest keyId secret with
          | none => (⟨.dbError, none⟩, slots)
          | some mac =>
            if !ctEqual mac (row.keyHash.take 127) then (⟨.unknown, none⟩, slots)
            else authorize parse row keyId method path peerIp now slots

end DreamingOS.ApiKey
