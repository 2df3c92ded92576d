import DreamingOS.Lib.Bytes

namespace DreamingOS.Direction

open Bytes

/-!
# Flow direction — classification in the kernel

`jmx_direction_classify_skb` of `jmx_direction.c`.

* `Snapshot` — the LAN prefixes, local addresses and WANs the control plane published; an array
  with its count is a list within the capacity of the array;
* `lanIngress` / `lanEgress` / `wanIngress` / `wanEgress` / `addressIsLocal` — the tests;
* `SkBuff`, `headerPointer` — a socket buffer with a linear part, and `skb_header_pointer`;
* `packetFromSkb`, `classifySkb` — the classification.

The code reads the buffers and not the pointer it is given, so the residue is an argument.
-/

def FAMILY_IPV4 : ℕ := 4
def FAMILY_IPV6 : ℕ := 6
def FAMILY_MASK_IPV4 : ℕ := 1
def FAMILY_MASK_IPV6 : ℕ := 2
def MAX_LAN_PREFIXES : ℕ := 128
def MAX_LOCAL_ADDRS : ℕ := 128
def MAX_WANS : ℕ := 255
def ETH_P_IP : ℕ := 0x0800
def ETH_P_IPV6 : ℕ := 0x86DD

def sizeofIphdr : ℕ := 20
def sizeofIpv6hdr : ℕ := 40

/-- The error numbers of the classification (as `-errno`). -/
inductive Errno where
  | EINVAL | EPROTONOSUPPORT | ENODEV
  deriving DecidableEq

/-! ### The snapshot -/

/-- `struct jmx_direction_prefix_k`. -/
structure LanPrefix where
  (ifindex family prefixLen : ℕ)
  address : List UInt8
  length_address : address.length = 16

/-- `struct jmx_direction_local_address_k`. -/
structure LocalAddress where
  family : ℕ
  address : List UInt8
  length_address : address.length = 16

/-- `struct jmx_direction_wan_k`. -/
structure Wan where
  (wanId familyMask registered ifindex routeIdentity tableId : ℕ)

/-- `struct jmx_direction_snapshot_k`. -/
structure Snapshot where
  version : ℕ := 1
  generation : ℕ := 1
  ready : ℕ := 0
  gatewayMode : ℕ := 0
  lanPrefixes : List LanPrefix := []
  localAddresses : List LocalAddress := []
  wans : List Wan := []
  lanPrefixes_le : lanPrefixes.length ≤ MAX_LAN_PREFIXES := by first | exact Nat.zero_le _ | decide
  localAddresses_le : localAddresses.length ≤ MAX_LOCAL_ADDRS := by first | exact Nat.zero_le _ | decide
  wans_le : wans.length ≤ MAX_WANS := by first | exact Nat.zero_le _ | decide

/-- `struct jmx_direction_packet_k`. -/
structure Packet where
  family : ℕ
  isForward : Bool := true
  (ingressIfindex egressIfindex egressRouteIdentity : ℕ)
  (source destination : List UInt8)

/-! ### The tests -/

/-- `direction_family_bytes`. -/
def familyBytes (family : ℕ) : ℕ :=
  if family = FAMILY_IPV4 then 4 else if family = FAMILY_IPV6 then 16 else 0

/-- `direction_family_mask`. -/
def familyMask (family : ℕ) : ℕ :=
  if family = FAMILY_IPV4 then FAMILY_MASK_IPV4
  else if family = FAMILY_IPV6 then FAMILY_MASK_IPV6 else 0

/-- The bits of the last, partial byte of a prefix. -/
def remainderMask (remainder : ℕ) : UInt8 := UInt8.ofNat (0xff <<< (8 - remainder))

/-- `direction_prefix_matches`. -/
def prefixMatches (family : ℕ) (network : List UInt8) (prefixLen : ℕ) (address : List UInt8) :
    Bool :=
  if familyBytes family = 0 ∨ familyBytes family * 8 < prefixLen then false
  else
    let full := prefixLen / 8
    let mask := remainderMask (prefixLen % 8)
    network.take full = address.take full ∧
      (prefixLen % 8 = 0 ∨ network.getD full 0 &&& mask = address.getD full 0 &&& mask)

/-- `direction_address_equal`. -/
def addressEqual (family : ℕ) (left right : List UInt8) : Bool :=
  familyBytes family ≠ 0 ∧ left.take (familyBytes family) = right.take (familyBytes family)

/-- `direction_address_is_local`. -/
def addressIsLocal (s : Snapshot) (family : ℕ) (address : List UInt8) : Bool :=
  s.localAddresses.any fun entry =>
    entry.family = family ∧ addressEqual family entry.address address

/-- `direction_lan_ingress`. -/
def lanIngress (s : Snapshot) (packet : Packet) : Bool :=
  s.lanPrefixes.any fun entry =>
    entry.ifindex = packet.ingressIfindex ∧ entry.family = packet.family ∧
      prefixMatches packet.family entry.address entry.prefixLen packet.source

/-- `direction_lan_egress`. -/
def lanEgress (s : Snapshot) (packet : Packet) : Bool :=
  s.lanPrefixes.any fun entry =>
    entry.ifindex = packet.egressIfindex ∧ entry.family = packet.family ∧
      prefixMatches packet.family entry.address entry.prefixLen packet.destination

/-- `direction_wan_egress`. -/
def wanEgress (s : Snapshot) (packet : Packet) : Bool :=
  familyMask packet.family ≠ 0 ∧ s.wans.any fun entry =>
    entry.registered ≠ 0 ∧ entry.familyMask &&& familyMask packet.family ≠ 0 ∧
      ((entry.ifindex ≠ 0 ∧ entry.ifindex = packet.egressIfindex) ∨
        (packet.egressRouteIdentity ≠ 0 ∧ entry.routeIdentity ≠ 0 ∧
          entry.routeIdentity = packet.egressRouteIdentity))

/-- `direction_wan_ingress`. -/
def wanIngress (s : Snapshot) (packet : Packet) : Bool :=
  familyMask packet.family ≠ 0 ∧ s.wans.any fun entry =>
    entry.registered ≠ 0 ∧ entry.familyMask &&& familyMask packet.family ≠ 0 ∧
      entry.ifindex = packet.ingressIfindex

/-! ### The decision -/

/-- `enum jmx_direction_class`. -/
inductive Class where
  | unknown | lanWan | lanLan | routerLocal | wanLocal | bypass | nonGateway
  deriving DecidableEq

/-- `struct jmx_direction_decision`. -/
structure Decision where
  classification : Class := .unknown
  managedLanIngress : Bool := false
  registeredWanEgress : Bool := false
  ready : ℕ := 0
  gatewayMode : ℕ := 0
  generation : ℕ := 0
  deriving DecidableEq

/-- The snapshot cannot be used. -/
def Snapshot.Unusable (s : Snapshot) : Prop :=
  s.ready = 0 ∨ s.generation = 0 ∨ (s.gatewayMode ≠ 0 ∧ (s.lanPrefixes = [] ∨ s.wans = []))

instance (s : Snapshot) : Decidable s.Unusable := inferInstanceAs (Decidable (_ ∨ _))

/-- The class of a packet in gateway mode. -/
def gatewayClass (s : Snapshot) (packet : Packet) : Class :=
  if addressIsLocal s packet.family packet.destination ∨
      addressIsLocal s packet.family packet.source then
    if wanIngress s packet then .wanLocal else .routerLocal
  else if !packet.isForward then .nonGateway
  else if lanIngress s packet ∧ wanEgress s packet then .lanWan
  else if lanIngress s packet ∧ lanEgress s packet then .lanLan
  else .unknown

/-- The part of `jmx_direction_classify_skb` under the read lock. -/
def classify (s : Snapshot) (packet : Packet) : Decision :=
  let decision : Decision :=
    { ready := s.ready, gatewayMode := s.gatewayMode, generation := s.generation }
  if s.Unusable then decision
  else if s.gatewayMode = 0 then { decision with classification := .bypass }
  else
    { decision with
      managedLanIngress := lanIngress s packet
      registeredWanEgress := wanEgress s packet
      classification := gatewayClass s packet }

/-- `jmx_direction_is_gate_candidate`. -/
def isGateCandidate (decision : Decision) : Bool :=
  decision.ready ≠ 0 ∧ decision.gatewayMode ≠ 0 ∧ decision.managedLanIngress ∧
    decision.registeredWanEgress ∧ decision.classification = .lanWan

/-- `jmx_direction_runtime`: the two slots, the active one, and whether the module runs. -/
structure Runtime where
  slots : Fin 2 → Snapshot := fun _ => {}
  activeSlot : Fin 2 := 0
  initialized : Bool := true

/-! ### Socket buffers -/

/-- What a socket buffer carries: its bytes, the offset of the network header, the protocol and the
    mark. -/
structure Frame where
  data : List UInt8
  (networkOffset protocol mark : ℕ)

/-- A socket buffer: the first `headLen` bytes lie in the linear part, the others in pages. -/
structure SkBuff where
  frame : Frame
  headLen : ℕ
  headLen_le : headLen ≤ frame.data.length

/-- `skb_header_pointer`: the bytes pointed to, and the contents of the buffer afterwards. -/
def headerPointer (skb : SkBuff) (offset len : ℕ) (buffer : List UInt8) :
    Option (List UInt8) × List UInt8 :=
  let bytes := fieldBytes skb.frame.data offset len
  if offset + len ≤ skb.headLen then (some bytes, buffer)
  else if offset + len ≤ skb.frame.data.length then (some bytes, bytes)
  else (none, buffer)

/-- The bytes on the stack where `iph` and `ip6h` lie when the function is entered. -/
structure Residue where
  (iph ip6h : List UInt8)
  length_iph : iph.length = sizeofIphdr
  length_ip6h : ip6h.length = sizeofIpv6hdr

theorem length_zeros (n : ℕ) : (List.replicate n (0 : UInt8)).length = n := List.length_replicate

/-- A stack of zeros. -/
def Residue.zero : Residue :=
  ⟨List.replicate sizeofIphdr 0, List.replicate sizeofIpv6hdr 0, length_zeros _, length_zeros _⟩

/-- The field `ihl` of a header. -/
def ihl (header : List UInt8) : ℕ := fieldLE header 0 1 % 16

/-- The packet with the addresses of an IPv4 header. -/
def packetV4 (mark ingress egress : ℕ) (iph : List UInt8) : Packet where
  family := FAMILY_IPV4
  ingressIfindex := ingress
  egressIfindex := egress
  egressRouteIdentity := mark
  source := fieldBytes iph 12 4 ++ List.replicate 12 0
  destination := fieldBytes iph 16 4 ++ List.replicate 12 0

/-- The packet with these IPv6 addresses. -/
def packetV6 (mark ingress egress : ℕ) (source destination : List UInt8) : Packet where
  family := FAMILY_IPV6
  ingressIfindex := ingress
  egressIfindex := egress
  egressRouteIdentity := mark
  source := source
  destination := destination

/-- `direction_packet_from_skb`; the interface index is zero where there is no device. -/
def packetFromSkb (r : Residue) (ingress egress : ℕ) (skb : SkBuff) : Except Errno Packet :=
  if skb.frame.protocol = ETH_P_IP then
    match headerPointer skb skb.frame.networkOffset sizeofIphdr r.iph with
    | (none, _) => .error .EINVAL
    | (some _, iph) =>
      -- `iph` is the buffer, not the header that was found
      if ihl iph < 5 then .error .EINVAL
      else .ok (packetV4 skb.frame.mark ingress egress iph)
  else if skb.frame.protocol = ETH_P_IPV6 then
    match headerPointer skb skb.frame.networkOffset sizeofIpv6hdr r.ip6h with
    | (none, _) => .error .EINVAL
    | (some _, ip6h) =>
      .ok (packetV6 skb.frame.mark ingress egress (fieldBytes ip6h 8 16) (fieldBytes ip6h 24 16))
  else .error .EPROTONOSUPPORT

/-- `jmx_direction_classify_skb`: what it returns, and the decision it fills in. -/
def classifySkb (rt : Runtime) (r : Residue) (ingress egress : ℕ) (skb : SkBuff) :
    Option Errno × Decision :=
  match packetFromSkb r ingress egress skb with
  | .error e => (some e, {})
  | .ok packet =>
    if !rt.initialized then (some .ENODEV, {})
    else (none, classify (rt.slots rt.activeSlot) packet)

end DreamingOS.Direction
