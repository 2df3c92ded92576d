import DreamingOS.Direction.Wire
import DreamingOS.Lib.Json

namespace DreamingOS.Direction

open List

/-!
# Flow direction — the snapshot the daemon builds

`jmx_direction_snapshot.c`: the control plane's LANs and WANs, read from JSON, as a snapshot.

* `Host` — what the builder asks the system for: interface indexes, addresses, and their texts;
* `addLanPrefix`, `addLocalAddress`, `addWan` — one more entry, `none` where it is refused;
* `parsePrefixValue`, `addLanAddress`, `addRuntimeLanAddresses`, `buildLanEntry`, `buildWanEntry` —
  the entries of the configuration;
* `buildJson` — `jmx_direction_snapshot_build_json`: whether it succeeds, the snapshot, the text of
  the error.
-/

variable {D : Type}

/-! ### Addresses -/

/-- A buffer of 16 zero bytes with an address copied to its front. -/
def addrBuffer (address : List UInt8) : List UInt8 := (address ++ List.replicate 16 0).take 16

theorem length_addrBuffer (address : List UInt8) : (addrBuffer address).length = 16 := by
  unfold addrBuffer
  rw [length_take, length_append, length_replicate]
  omega

/-- `canonicalize_prefix`: the bits behind the prefix are cleared. -/
def canonicalizePrefix (family : ℕ) (address : List UInt8) (prefixLen : ℕ) : List UInt8 :=
  let bytes := familyBytes family
  let full := prefixLen / 8
  if bytes = 0 ∨ prefixLen > bytes * 8 then address
  else if prefixLen % 8 = 0 then
    address.take full ++ (List.replicate (bytes - full) 0 ++ address.drop bytes)
  else
    address.take full ++ ((address.getD full 0 &&& remainderMask (prefixLen % 8)) ::
      (List.replicate (bytes - full - 1) 0 ++ address.drop bytes))

theorem familyBytes_le (family : ℕ) : familyBytes family ≤ 16 := by
  unfold familyBytes
  split
  · omega
  · split <;> omega

theorem length_canonicalizePrefix {family : ℕ} {address : List UInt8} (prefixLen : ℕ)
    (h : address.length = 16) : (canonicalizePrefix family address prefixLen).length = 16 := by
  have hbytes := familyBytes_le family
  unfold canonicalizePrefix
  dsimp only
  split
  · exact h
  next hok =>
  split
  · simp only [length_append, length_take, length_replicate, length_drop]
    omega
  · simp only [length_append, length_take, length_cons, length_replicate, length_drop]
    omega

/-- The entry of a LAN prefix. -/
def lanPrefixOf (ifindex family : ℕ) (address : List UInt8) (prefixLen : ℕ) : LanPrefix where
  ifindex := ifindex
  family := family
  prefixLen := prefixLen
  address := canonicalizePrefix family (addrBuffer (address.take (familyBytes family))) prefixLen
  length_address := length_canonicalizePrefix prefixLen (length_addrBuffer _)

/-- The entry of a local address. -/
def localAddressOf (family : ℕ) (address : List UInt8) : LocalAddress where
  family := family
  address := addrBuffer (address.take (familyBytes family))
  length_address := length_addrBuffer _

/-! ### One more entry -/

/-- The entries agree in what `jmx_direction_snapshot_add_lan_prefix` compares. -/
def samePrefix (a b : LanPrefix) : Bool :=
  a.ifindex = b.ifindex ∧ a.family = b.family ∧ a.prefixLen = b.prefixLen ∧
    a.address.take (familyBytes b.family) = b.address.take (familyBytes b.family)

/-- `jmx_direction_snapshot_add_lan_prefix`. -/
def addLanPrefix (s : Snapshot) (ifindex family : ℕ) (address : List UInt8) (prefixLen : ℕ) :
    Option Snapshot :=
  let entry := lanPrefixOf ifindex family address prefixLen
  if ifindex = 0 ∨ familyBytes family = 0 ∨ prefixLen > familyBytes family * 8 then none
  else if s.lanPrefixes.any fun e => samePrefix e entry then some s
  else if h : s.lanPrefixes.length < MAX_LAN_PREFIXES then
    some { s with
      lanPrefixes := s.lanPrefixes ++ [entry]
      lanPrefixes_le := by rw [length_append]; exact h }
  else none

/-- `jmx_direction_snapshot_add_local_address`; the capacity is checked first. -/
def addLocalAddress (s : Snapshot) (family : ℕ) (address : List UInt8) : Option Snapshot :=
  if h : familyBytes family = 0 ∨ s.localAddresses.length ≥ MAX_LOCAL_ADDRS then none
  else if s.localAddresses.any fun e => e.family = family ∧ addressEqual family e.address address
    then some s
  else
    some { s with
      localAddresses := s.localAddresses ++ [localAddressOf family address]
      localAddresses_le := by
        rw [length_append]
        exact Nat.lt_of_not_le fun hge => h (.inr hge) }

/-- The first WAN with the id, with the new values. -/
def replaceWan (w : Wan) : List Wan → List Wan
  | [] => []
  | v :: vs => if v.wanId = w.wanId then w :: vs else v :: replaceWan w vs

theorem length_replaceWan (w : Wan) (ws : List Wan) : (replaceWan w ws).length = ws.length := by
  induction ws with
  | nil => rfl
  | cons v vs ih =>
    unfold replaceWan
    split
    · rfl
    · rw [length_cons, length_cons, ih]

/-- `jmx_direction_snapshot_add_wan`; a WAN that is known gets its new values. -/
def addWan (s : Snapshot) (wanId familyMask ifindex routeIdentity tableId : ℕ) : Option Snapshot :=
  let entry : Wan := ⟨wanId, familyMask, 1, ifindex, routeIdentity, tableId⟩
  if wanId = 0 ∨ familyMask = 0 ∨ (ifindex = 0 ∧ routeIdentity = 0 ∧ tableId = 0) ∨
      familyMask &&& 0xfc ≠ 0 then none
  else if s.wans.any fun w => w.wanId = wanId then
    some { s with
      wans := replaceWan entry s.wans
      wans_le := by rw [length_replaceWan]; exact s.wans_le }
  else if h : s.wans.length < MAX_WANS then
    some { s with
      wans := s.wans ++ [entry]
      wans_le := by rw [length_append]; exact h }
  else none

/-- `jmx_direction_snapshot_validate`. -/
def validate (s : Snapshot) : Bool :=
  if s.version ≠ 1 ∨ s.ready = 0 ∨ s.generation = 0 then false
  else if s.gatewayMode = 0 then true
  else if s.lanPrefixes = [] ∨ s.wans = [] then false
  else s.lanPrefixes.all prefixValid &&
    s.wans.all fun w => w.wanId ≠ 0 ∧ w.registered ≠ 0 ∧
      (w.ifindex ≠ 0 ∨ w.routeIdentity ≠ 0 ∨ w.tableId ≠ 0) ∧ w.familyMask ≠ 0

/-- `jmx_direction_snapshot_init`. -/
def snapshotInit (generation : ℕ) (gatewayMode : Bool) : Snapshot where
  version := 1
  generation := generation
  ready := 1
  gatewayMode := if gatewayMode then 1 else 0

/-! ### The system -/

/-- A socket address. -/
inductive SockAddr where
  | v4 (bytes : List UInt8)
  | v6 (bytes : List UInt8)
  | other

/-- An entry of `getifaddrs`. -/
structure IfAddr where
  name : Option String
  (addr netmask : Option SockAddr)

/-- What the builder asks the system for. -/
structure Host where
  /-- `if_nametoindex`. -/
  ifIndex : String → ℕ
  /-- `inet_pton` of the two families. -/
  (ptonV4 ptonV6 : String → Option (List UInt8))
  /-- `getifaddrs`, `none` where it fails. -/
  ifAddrs : Option (List IfAddr)

/-! ### Reading JSON -/

/-- `isspace`. -/
def isSpace (ch : Char) : Bool := ch ∈ [' ', '\t', '\n', '\x0b', '\x0c', '\r']

def decimalDigits (cs : List Char) : ℤ := cs.foldl (fun n ch => n * 10 + (ch.toNat - 48)) 0

/-- `strtol` in base ten of a text that it reads to its end, without an overflow. -/
def strtolAll (cs : List Char) : Option ℤ :=
  let cs := cs.dropWhile isSpace
  let minus := cs.head? = some '-'
  let digits := if minus ∨ cs.head? = some '+' then cs.tail else cs
  let n := if minus then -decimalDigits digits else decimalDigits digits
  if digits = [] ∨ ¬ digits.all Char.isDigit ∨ n < -(2 ^ 63) ∨ n > 2 ^ 63 - 1 then none else some n

/-- `json_string`. -/
def jsonString (root : Json D) (key : String) : Option String :=
  match root.get key with
  | some (.str s) => some (cstr s)
  | _ => none

/-- `json_int`: an integer, or a text that is one. -/
def jsonInt (c : JsonC D) (root : Json D) (key : String) (dflt : ℤ) : ℤ :=
  match root.get key with
  | some (.int n) => c.getInt (.int n)
  | some (.str s) =>
    match strtolAll (cstr s).toList with
    | some n => if -(2 ^ 31) ≤ n ∧ n ≤ 2 ^ 31 - 1 then n else dflt
    | none => dflt
  | _ => dflt

/-- `json_array_value`. -/
def jsonArray (root : Json D) (key : String) : Option (List (Json D)) :=
  match root with
  | .arr items => some items
  | root => (root.get key).bind Json.items

/-- `parse_address`: the family and the buffer. -/
def parseAddress (host : Host) (value : String) : Option (ℕ × List UInt8) :=
  match host.ptonV4 value with
  | some bytes => some (FAMILY_IPV4, addrBuffer bytes)
  | none => (host.ptonV6 value).map fun bytes => (FAMILY_IPV6, addrBuffer bytes)

/-- The text in front of the first slash, and the prefix behind it. -/
def splitPrefix (ip : String) : Option (String × Option ℤ) :=
  let front := ip.toList.takeWhile (· ≠ '/')
  match ip.toList.dropWhile (· ≠ '/') with
  | [] => some (ip, none)
  | _ :: back =>
    if front = [] ∨ (String.ofList front).utf8ByteSize ≥ 128 then none
    else
      match strtolAll back with
      | some n => if n < 0 ∨ n > 128 then none else some (String.ofList front, some n)
      | none => none

/-- `parse_prefix_value`: the family, the address and the length of the prefix. -/
def parsePrefixValue (c : JsonC D) (host : Host) (entry : Json D) (ipKey : String)
    (defaultPrefix : ℤ) : Option (ℕ × List UInt8 × ℕ) := do
  let ip ← jsonString entry ipKey
  guard (ip ≠ "")
  let (text, slash) ← splitPrefix ip
  let (family, address) ← parseAddress host text
  let len := slash.getD (jsonInt c entry "prefix" (jsonInt c entry "cidr" defaultPrefix))
  guard (0 ≤ len ∧ len ≤ familyBytes family * 8)
  return (family, address, len.toNat)

/-- `parse_ifindex`, 0 where there is none. -/
def parseIfindex (c : JsonC D) (host : Host) (entry : Json D) (ifnameKey : String) : ℕ :=
  if jsonInt c entry "ifindex" 0 > 0 then (jsonInt c entry "ifindex" 0).toNat
  else
    match jsonString entry ifnameKey with
    | some ifname =>
      if ifname = "" ∨ ifname.utf8ByteSize ≥ 16 then 0 else host.ifIndex ifname % 2 ^ 32
    | none => 0

/-! ### The builder -/

/-- The snapshot that is built, and the text in the error buffer. -/
structure Build where
  snapshot : Snapshot
  error : String := ""

/-- A prefix and its local address; what was added stays where the second is refused. -/
def addBoth (b : Build) (ifindex family : ℕ) (address : List UInt8) (prefixLen : ℕ)
    (text : String) : Bool × Build :=
  match addLanPrefix b.snapshot ifindex family address prefixLen with
  | none => (false, { b with error := text })
  | some snapshot =>
    match addLocalAddress snapshot family address with
    | none => (false, ⟨snapshot, text⟩)
    | some snapshot => (true, { b with snapshot := snapshot })

/-- `add_lan_address`: -1, 0 or 1. -/
def addLanAddress (c : JsonC D) (host : Host) (b : Build) (ifindex : ℕ) (ip : String)
    (defaultPrefix prefixOverride : ℤ) : ℤ × Build :=
  let len := if prefixOverride ≥ 0 then prefixOverride else defaultPrefix
  if ip = "" then (0, b)
  else
    match parsePrefixValue c host (.obj [("ipaddr", .str ip), ("prefix", .int len)]) "ipaddr"
        defaultPrefix with
    | none => (0, b)
    | some (family, address, prefixLen) =>
      match addBoth b ifindex family address prefixLen "managed LAN snapshot capacity exceeded" with
      | (false, b) => (-1, b)
      | (true, b) => (1, b)

/-- The bits of a byte, the highest first. -/
def bits (b : UInt8) : List Bool := (List.range 8).map fun i => b.toNat.testBit (7 - i)

/-- `prefix_len_from_netmask`: the ones in front, where only zeros are behind them. -/
def prefixLenFromNetmask (family : ℕ) (netmask : Option SockAddr) : Option ℕ :=
  let count (bytes : List UInt8) : Option ℕ :=
    let all := bytes.flatMap bits
    let ones := all.takeWhile id
    if (all.drop ones.length).any id then none else some ones.length
  match netmask with
  | some (.v4 bytes) => if family = FAMILY_IPV4 then count bytes else none
  | some (.v6 bytes) => if family = FAMILY_IPV6 then count bytes else none
  | _ => none

/-- The address of an entry of `getifaddrs` on the interface, with its prefix. -/
def runtimeAddress (host : Host) (ifindex : ℕ) (ifa : IfAddr) : Option (ℕ × List UInt8 × ℕ) :=
  match ifa.name, ifa.addr, ifa.netmask with
  | some name, some addr, some netmask =>
    if host.ifIndex name ≠ ifindex then none
    else
      match addr with
      | .v4 bytes => (prefixLenFromNetmask FAMILY_IPV4 (some netmask)).map fun len =>
          (FAMILY_IPV4, addrBuffer bytes, len)
      | .v6 bytes => (prefixLenFromNetmask FAMILY_IPV6 (some netmask)).map fun len =>
          (FAMILY_IPV6, addrBuffer bytes, len)
      | .other => none
  | _, _, _ => none

/-- The loop of `add_runtime_lan_addresses`: how many were added, or -1. -/
def runtimeLoop (host : Host) (ifindex : ℕ) : List IfAddr → Build → ℤ → ℤ × Build
  | [], b, added => (added, b)
  | ifa :: ifas, b, added =>
    match runtimeAddress host ifindex ifa with
    | none => runtimeLoop host ifindex ifas b added
    | some (family, address, prefixLen) =>
      match addBoth b ifindex family address prefixLen
          "runtime LAN snapshot capacity exceeded" with
      | (false, b) => (-1, b)
      | (true, b) => runtimeLoop host ifindex ifas b (added + 1)

/-- `add_runtime_lan_addresses`. -/
def addRuntimeLanAddresses (host : Host) (b : Build) (ifindex : ℕ) : ℤ × Build :=
  if ifindex = 0 then (0, b)
  else
    match host.ifAddrs with
    | none => (0, b)
    | some ifas => runtimeLoop host ifindex ifas b 0

/-- The loop over `extra_ips`; its result is added to what was added before. -/
def extraLoop (c : JsonC D) (host : Host) (ifindex : ℕ) : List (Json D) → Build → ℤ → ℤ × Build
  | [], b, added => (added, b)
  | .str extra :: extras, b, added =>
    let result := addLanAddress c host b ifindex (cstr extra) 24 (-1)
    extraLoop c host ifindex extras result.2 (added + result.1)
  | _ :: extras, b, added => extraLoop c host ifindex extras b added

/-- The `ipaddr` of a LAN. -/
def addIpaddr (c : JsonC D) (host : Host) (lan : Json D) (ifindex : ℕ) (b : Build) : ℤ × Build :=
  match jsonString lan "ipaddr" with
  | none => (0, b)
  | some ipaddr =>
    addLanAddress c host b ifindex ipaddr (jsonInt c lan "cidr" (jsonInt c lan "prefix" 24)) (-1)

/-- The `extra_ips` of a LAN. -/
def addExtraIps (c : JsonC D) (host : Host) (lan : Json D) (ifindex : ℕ) (b : Build) : ℤ × Build :=
  match lan.get "extra_ips" with
  | some (.arr extras) => extraLoop c host ifindex extras b 0
  | _ => (0, b)

/-- The static address in `ipv6` of a LAN. -/
def addStaticV6 (c : JsonC D) (host : Host) (lan : Json D) (ifindex : ℕ) (b : Build) : ℤ × Build :=
  match lan.get "ipv6" with
  | some (.obj ms) =>
    match jsonString (.obj ms) "addr" with
    | some addr =>
      let len := jsonInt c (.obj ms) "prefix_len" 64
      if addr ≠ "" ∧ 0 ≤ len ∧ len ≤ 128 then addLanAddress c host b ifindex addr 64 len else (0, b)
    | none => (0, b)
  | _ => (0, b)

/-- `build_lan_entry`. -/
def buildLanEntry (c : JsonC D) (host : Host) (b : Build) (lan : Json D) : Bool × Build :=
  if !lan.isObject then (false, b)
  else
    let byName := parseIfindex c host lan "ifname"
    let ifindex := if byName = 0 then parseIfindex c host lan "device" else byName
    if ifindex = 0 then (false, { b with error := "managed LAN has no ifindex" })
    else
      let ipaddr := addIpaddr c host lan ifindex b
      let extra := addExtraIps c host lan ifindex ipaddr.2
      let static := addStaticV6 c host lan ifindex extra.2
      let runtime := addRuntimeLanAddresses host static.2 ifindex
      if runtime.1 < 0 then (false, runtime.2)
      else if ipaddr.1 + extra.1 + static.1 + runtime.1 = 0 then
        (false, { runtime.2 with error := "managed LAN has no valid IPv4/IPv6 prefix" })
      else (true, runtime.2)

/-- `build_wan_entry`; the casts wrap. -/
def buildWanEntry (c : JsonC D) (host : Host) (b : Build) (wan : Json D) : Bool × Build :=
  let id := jsonInt c wan "id" 0
  let ifindex := parseIfindex c host wan "ifname"
  let routeIdentity := (jsonInt c wan "route_identity" (jsonInt c wan "fwmark" 0) % 2 ^ 32).toNat
  let tableId := (jsonInt c wan "table" 0 % 2 ^ 32).toNat
  let familyMask := (jsonInt c wan "family_mask" 3 % 2 ^ 8).toNat
  let refused := (false, { b with error := "registered WAN has invalid identity" })
  if id ≤ 0 ∨ id > 255 ∨ (ifindex = 0 ∧ routeIdentity = 0 ∧ tableId = 0) then refused
  else
    match addWan b.snapshot id.toNat familyMask ifindex routeIdentity tableId with
    | none => refused
    | some snapshot => (true, { b with snapshot := snapshot })

/-- The entries of a list, until one is refused. -/
def buildAll (entry : Build → Json D → Bool × Build) : Build → List (Json D) → Bool × Build
  | b, [] => (true, b)
  | b, item :: items =>
    match entry b item with
    | (false, b) => (false, b)
    | (true, b) => buildAll entry b items

/-- The snapshot is marked as not ready. -/
def Build.unready (b : Build) : Build := { b with snapshot := { b.snapshot with ready := 0 } }

/-- The part of the builder for the gateway mode. -/
def buildGateway (c : JsonC D) (host : Host) (b : Build) (lans wans : List (Json D)) :
    Bool × Build :=
  match buildAll (buildLanEntry c host) b lans with
  | (false, b) => (false, b.unready)
  | (true, b) =>
    match buildAll (buildWanEntry c host) b wans with
    | (false, b) => (false, b.unready)
    | (true, b) =>
      if validate b.snapshot then (true, b)
      else (false, { b.unready with error := "direction snapshot validation failed" })

/-- `jmx_direction_snapshot_build_json`. -/
def buildJson (c : JsonC D) (host : Host) (lanData registeredWans : Json D) (gatewayMode : Bool)
    (generation : ℕ) : Bool × Build :=
  let b : Build := ⟨snapshotInit generation gatewayMode, ""⟩
  if generation = 0 then (false, b)
  else if !gatewayMode then (true, b)
  else
    match jsonArray lanData "lans", registeredWans with
    | some lans, .arr wans =>
      if lans = [] ∨ wans = [] then
        (false, { b.unready with error := "LAN/WAN identity set is empty" })
      else buildGateway c host b lans wans
    | _, _ => (false, { b.unready with error := "LAN/WAN identity set is empty" })

end DreamingOS.Direction
