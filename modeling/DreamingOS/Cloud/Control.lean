import DreamingOS.Cloud.Session
import DreamingOS.Lib.JsonBytes

namespace DreamingOS.Cloud

open JsonBytes

/-!
# Cloud control frames — the payload schemas

`control.c`: encoders that check a value and write it as compact JSON, and decoders that parse
strictly and check every field.  A C string is the list of its bytes.

* `ctlParse`, `ctlOnlyKeys`, `ctlStr`, `ctlInt` — what the decoders are made of;
* `Hello`, `Welcome`, `Generation`, `Goaway`, `Services`, `AuthChallenge`, `AuthResponse` — the
  values, each with its encoder and its decoder.

The JSON library is a parameter; an encoder returns the bytes it has written, `none` stands for -1.
-/

def CW_CTL_ROUTER_ID_LEN : ℕ := 39
def CW_CTL_SESSION_ID_LEN : ℕ := 32
def CW_CTL_REASON_MAX : ℕ := 256
def CW_CTL_SIG_MAX : ℕ := 128
def CW_CTL_NONCE_LEN : ℕ := 32
def CW_CTL_PUBKEY_B64 : ℕ := 44
def CW_CTL_SIG_B64 : ℕ := 88
def CW_WIRE_VERSION : UInt32 := 1
def CW_WIRE_PING_TIMEOUT : UInt32 := 60
def CW_ERR_INTERNAL : ℤ := 10

/-- The bytes of a name or a word. -/
def word (s : String) : List UInt8 := Text.ascii s.toList

variable {D : Type}

/-! ### Fields -/

abbrev Members (D : Type) := List (List UInt8 × Value D)

/-- `ctl_parse_typed` for an object, and `web_parse_typed`. -/
def ctlParse (c : StrictJson D) (json : List UInt8) : Option (Members D) :=
  if json = [] ∨ frameMax < json.length then none
  else
    match c.parse json with
    | some (.obj members) => some members
    | _ => none

/-- `ctl_parse_typed` for an array. -/
def ctlParseArray (c : StrictJson D) (json : List UInt8) : Option (List (Value D)) :=
  if json = [] ∨ frameMax < json.length then none
  else
    match c.parse json with
    | some (.arr items) => some items
    | _ => none

/-- `ctl_only_keys`. -/
def ctlOnlyKeys (o : Members D) (allowed : List (List UInt8)) : Bool :=
  o.all fun m => allowed.contains m.1

/-- A byte that is no control character. -/
def printable (b : UInt8) : Bool := 32 ≤ b && b ≠ 127

/-- `ctl_str`. -/
def ctlStr (o : Members D) (key : List UInt8) (max : ℕ) : Option (List UInt8) :=
  match lookup o key with
  | some (.str s) =>
    if s = [] ∨ max < s.length ∨ 0 ∈ s then none
    else if s.all printable then some s
    else none
  | _ => none

/-- `ctl_int`; `json_object_get_int64` returns the greatest 64-bit value for what is above it. -/
def ctlInt (o : Members D) (key : List UInt8) (lo hi : ℤ) : Option ℤ :=
  match lookup o key with
  | some (.int n) =>
    let n := min n (2 ^ 63 - 1)
    if n < lo ∨ hi < n then none else some n
  | _ => none

def ctlIsLowerHex (s : List UInt8) : Bool :=
  s.all fun c => (0x30 ≤ c && c ≤ 0x39) || (0x61 ≤ c && c ≤ 0x66)

/-- `ctl_is_router_id`. -/
def ctlIsRouterId (s : List UInt8) : Bool :=
  s.length = CW_CTL_ROUTER_ID_LEN && s.take 7 = word "router-" && ctlIsLowerHex (s.drop 7)

/-- `ctl_is_base64`. -/
def ctlIsBase64 (s : List UInt8) : Bool :=
  s.all fun c => (0x41 ≤ c && c ≤ 0x5a) || (0x61 ≤ c && c ≤ 0x7a) || (0x30 ≤ c && c ≤ 0x39) ||
    c = 0x2b || c = 0x2f || c = 0x3d

/-- One of the conditions a decoder goes on with. -/
def check (ok : Bool) : Option Unit := if ok then some () else none

/-- `ctl_emit`, into `cap` bytes. -/
def ctlEmit (c : StrictJson D) (root : Members D) (cap : ℕ) : Option (List UInt8) :=
  if (c.print (.obj root)).length + 1 ≤ cap then some (c.print (.obj root)) else none

/-- An integer member of 32 bits. -/
def u32 (n : UInt32) : Value D := .int n.toNat

def toU32 (n : ℤ) : UInt32 := UInt32.ofNat n.toNat

/-! ### HELLO -/

structure Hello where
  proto : UInt32
  relayRouterId : List UInt8
  generation : UInt32

def helloJson (h : Hello) : Members D :=
  [(word "proto", u32 h.proto), (word "relay_router_id", .str h.relayRouterId),
    (word "generation", u32 h.generation)]

/-- `cw_ctl_hello_encode`. -/
def helloEncode (c : StrictJson D) (h : Hello) (cap : ℕ) : Option (List UInt8) :=
  if h.proto ≠ CW_WIRE_VERSION ∨ ctlIsRouterId h.relayRouterId = false ∨ h.generation = 0 then none
  else ctlEmit c (helloJson h) cap

/-- `cw_ctl_hello_decode`. -/
def helloDecode (c : StrictJson D) (json : List UInt8) : Option Hello := do
  let o ← ctlParse c json
  let rid ← ctlStr o (word "relay_router_id") CW_CTL_ROUTER_ID_LEN
  check (ctlOnlyKeys o [word "proto", word "relay_router_id", word "generation"])
  let proto ← ctlInt o (word "proto") CW_WIRE_VERSION.toNat CW_WIRE_VERSION.toNat
  check (ctlIsRouterId rid)
  let gen ← ctlInt o (word "generation") 1 0xffffffff
  some ⟨toU32 proto, rid, toU32 gen⟩

/-! ### WELCOME -/

structure Limits where
  (maxStreams streamWindow connWindow : UInt32)

structure Welcome where
  sessionId : List UInt8
  (generation heartbeat : UInt32)
  limits : Limits

def limitsJson (l : Limits) : Members D :=
  [(word "max_streams", u32 l.maxStreams), (word "stream_window", u32 l.streamWindow),
    (word "conn_window", u32 l.connWindow)]

def welcomeJson (w : Welcome) : Members D :=
  [(word "session_id", .str w.sessionId), (word "generation", u32 w.generation),
    (word "heartbeat", u32 w.heartbeat), (word "limits", .obj (limitsJson w.limits))]

/-- `cw_ctl_welcome_encode`. -/
def welcomeEncode (c : StrictJson D) (w : Welcome) (cap : ℕ) : Option (List UInt8) :=
  if w.sessionId.length ≠ CW_CTL_SESSION_ID_LEN ∨ ctlIsLowerHex w.sessionId = false ∨
      w.generation = 0 ∨ w.heartbeat = 0 ∨ CW_WIRE_PING_TIMEOUT < w.heartbeat ∨
      w.limits.maxStreams = 0 ∨ maxStreamsLimit < w.limits.maxStreams ∨
      w.limits.streamWindow = 0 ∨ windowMax < w.limits.streamWindow ∨
      w.limits.connWindow < w.limits.streamWindow ∨ windowMax < w.limits.connWindow then none
  else ctlEmit c (welcomeJson w) cap

/-- `cw_ctl_welcome_decode`. -/
def welcomeDecode (c : StrictJson D) (json : List UInt8) : Option Welcome := do
  let o ← ctlParse c json
  let sid ← ctlStr o (word "session_id") CW_CTL_SESSION_ID_LEN
  check (ctlOnlyKeys o [word "session_id", word "generation", word "heartbeat", word "limits"])
  check (sid.length = CW_CTL_SESSION_ID_LEN && ctlIsLowerHex sid)
  let gen ← ctlInt o (word "generation") 1 0xffffffff
  let hb ← ctlInt o (word "heartbeat") 1 CW_WIRE_PING_TIMEOUT.toNat
  let lim ← match lookup o (word "limits") with
    | some (.obj lim) => some lim
    | _ => none
  check (ctlOnlyKeys lim [word "max_streams", word "stream_window", word "conn_window"])
  let ms ← ctlInt lim (word "max_streams") 1 maxStreamsLimit.toNat
  let sw ← ctlInt lim (word "stream_window") 1 windowMax.toNat
  let cwnd ← ctlInt lim (word "conn_window") sw windowMax.toNat
  some ⟨sid, toU32 gen, toU32 hb, ⟨toU32 ms, toU32 sw, toU32 cwnd⟩⟩

/-! ### GENERATION -/

structure Generation where
  generation : UInt32
  action : ℤ

/-- `cw_ctl_action_str`. -/
def ctlActionStr (action : ℤ) : Option (List UInt8) :=
  if action = 1 then some (word "enable")
  else if action = 2 then some (word "revoke")
  else if action = 3 then some (word "supersede")
  else none

/-- `cw_ctl_action_from_str`. -/
def ctlActionFromStr (s : List UInt8) : Option ℤ :=
  if s = word "enable" then some 1
  else if s = word "revoke" then some 2
  else if s = word "supersede" then some 3
  else none

def generationJson (generation : UInt32) (action : List UInt8) : Members D :=
  [(word "generation", u32 generation), (word "action", .str action)]

/-- `cw_ctl_generation_encode`. -/
def generationEncode (c : StrictJson D) (g : Generation) (cap : ℕ) : Option (List UInt8) :=
  match ctlActionStr g.action with
  | none => none
  | some a => if g.generation = 0 then none else ctlEmit c (generationJson g.generation a) cap

/-- `cw_ctl_generation_decode`. -/
def generationDecode (c : StrictJson D) (json : List UInt8) : Option Generation := do
  let o ← ctlParse c json
  let a ← ctlStr o (word "action") 16
  check (ctlOnlyKeys o [word "generation", word "action"])
  let gen ← ctlInt o (word "generation") 1 0xffffffff
  let act ← ctlActionFromStr a
  some ⟨toU32 gen, act⟩

/-! ### GOAWAY -/

structure Goaway where
  code : ℤ
  lastStreamId : UInt32
  reason : List UInt8

def goawayJson (g : Goaway) : Members D :=
  [(word "code", .int g.code), (word "last_stream_id", u32 g.lastStreamId),
    (word "reason", .str g.reason)]

/-- `cw_ctl_goaway_encode`. -/
def goawayEncode (c : StrictJson D) (g : Goaway) (cap : ℕ) : Option (List UInt8) :=
  if g.code < 0 ∨ CW_ERR_INTERNAL < g.code then none
  else if CW_CTL_REASON_MAX < g.reason.length then none
  else if g.reason.all printable = false then none
  else ctlEmit c (goawayJson g) cap

/-- The optional reason. -/
def goawayReason (o : Members D) : Option (List UInt8) :=
  match lookup o (word "reason") with
  | none => some []
  | some (.str rs) =>
    if rs.length ≤ CW_CTL_REASON_MAX ∧ 0 ∉ rs ∧ rs.all printable = true then some rs else none
  | some _ => none

/-- `cw_ctl_goaway_decode`. -/
def goawayDecode (c : StrictJson D) (json : List UInt8) : Option Goaway := do
  let o ← ctlParse c json
  let reason ← goawayReason o
  check (ctlOnlyKeys o [word "code", word "last_stream_id", word "reason"])
  let code ← ctlInt o (word "code") 0 CW_ERR_INTERNAL
  let lsid ← ctlInt o (word "last_stream_id") 0 0xffffffff
  some ⟨code, toU32 lsid, reason⟩

/-! ### SERVICES -/

structure Services where
  revision : Int64
  nServices : ℕ
  sig : List UInt8

def servicesJson (revision : Int64) (services : List (Value D)) (sig : List UInt8) : Members D :=
  [(word "revision", .int revision.toInt), (word "services", .arr services), (word "sig", .str sig)]

/-- `cw_ctl_services_encode`; the services come as the text of an array. -/
def servicesEncode (c : StrictJson D) (revision : Int64) (servicesArrayJson sig : List UInt8)
    (cap : ℕ) : Option (List UInt8) :=
  if revision < 1 then none
  else if sig = [] ∨ CW_CTL_SIG_MAX < sig.length ∨ ctlIsBase64 sig = false then none
  else
    match ctlParseArray c servicesArrayJson with
    | none => none
    | some services => ctlEmit c (servicesJson revision services sig) cap

/-- `cw_ctl_services_decode`. -/
def servicesDecode (c : StrictJson D) (json : List UInt8) : Option Services := do
  let o ← ctlParse c json
  let sig ← ctlStr o (word "sig") CW_CTL_SIG_MAX
  check (ctlOnlyKeys o [word "revision", word "services", word "sig"])
  let rev ← ctlInt o (word "revision") 1 (2 ^ 63 - 1)
  let services ← match lookup o (word "services") with
    | some (.arr services) => some services
    | _ => none
  check (ctlIsBase64 sig)
  some ⟨Int64.ofInt rev, services.length, sig⟩

/-! ### AUTH -/

structure AuthChallenge where
  nonce : List UInt8

def authChallengeJson (a : AuthChallenge) : Members D := [(word "nonce", .str a.nonce)]

/-- `cw_ctl_auth_challenge_encode`. -/
def authChallengeEncode (c : StrictJson D) (a : AuthChallenge) (cap : ℕ) : Option (List UInt8) :=
  if a.nonce.length ≠ CW_CTL_NONCE_LEN ∨ ctlIsLowerHex a.nonce = false then none
  else ctlEmit c (authChallengeJson a) cap

/-- `cw_ctl_auth_challenge_decode`. -/
def authChallengeDecode (c : StrictJson D) (json : List UInt8) : Option AuthChallenge := do
  let o ← ctlParse c json
  let nonce ← ctlStr o (word "nonce") CW_CTL_NONCE_LEN
  check (ctlOnlyKeys o [word "nonce"])
  check (nonce.length = CW_CTL_NONCE_LEN && ctlIsLowerHex nonce)
  some ⟨nonce⟩

structure AuthResponse where
  (signPub kexPub signature : List UInt8)

/-- A Base64 text of a fixed length. -/
def base64Exact (s : List UInt8) (n : ℕ) : Bool := s.length = n && ctlIsBase64 s

def authResponseJson (r : AuthResponse) : Members D :=
  [(word "sign_pub", .str r.signPub), (word "kex_pub", .str r.kexPub),
    (word "signature", .str r.signature)]

/-- `cw_ctl_auth_response_encode`. -/
def authResponseEncode (c : StrictJson D) (r : AuthResponse) (cap : ℕ) : Option (List UInt8) :=
  if base64Exact r.signPub CW_CTL_PUBKEY_B64 = false ∨
      base64Exact r.kexPub CW_CTL_PUBKEY_B64 = false ∨
      base64Exact r.signature CW_CTL_SIG_B64 = false then none
  else ctlEmit c (authResponseJson r) cap

/-- `ctl_b64_exact`. -/
def ctlB64Exact (o : Members D) (key : List UInt8) (n : ℕ) : Option (List UInt8) := do
  let s ← ctlStr o key n
  check (base64Exact s n)
  some s

/-- `cw_ctl_auth_response_decode`. -/
def authResponseDecode (c : StrictJson D) (json : List UInt8) : Option AuthResponse := do
  let o ← ctlParse c json
  let sp ← ctlB64Exact o (word "sign_pub") CW_CTL_PUBKEY_B64
  let kp ← ctlB64Exact o (word "kex_pub") CW_CTL_PUBKEY_B64
  let sg ← ctlB64Exact o (word "signature") CW_CTL_SIG_B64
  check (ctlOnlyKeys o [word "sign_pub", word "kex_pub", word "signature"])
  some ⟨sp, kp, sg⟩

end DreamingOS.Cloud
