import DreamingOS.Direction.Classify
import DreamingOS.Lib.Codec

namespace DreamingOS.Direction

open Bytes Codec List Option

/-!
# Flow direction — the snapshot message

The packed big-endian layout of `jmx_direction_nl.h`, and `direction_parse_wire`, the reader of the
kernel.

* `prefixWire`, `localWire`, `wanWire`, `wire` — the layout;
* `snapshotValid`, `Representable` — `direction_snapshot_valid`, and the ranges of the C types;
* `parseWire` — the parser, with its error numbers;
* `parseWire_wire`, `wire_of_parseWire` — **it accepts the encodings of valid snapshots and nothing
  else**.
-/

def NL_ACT_DIRECTION_SNAPSHOT : ℕ := 44
def NL_ABI_VERSION : ℕ := 1
def sizeofHeader : ℕ := 30
def sizeofPrefix : ℕ := 24
def sizeofLocal : ℕ := 20
def sizeofWan : ℕ := 24

/-! ### The entries -/

/-- `struct jmx_direction_nl_prefix`. -/
def prefixWire (p : LanPrefix) : List UInt8 :=
  toBE 4 p.ifindex ++ (toBE 1 p.family ++ (toBE 1 p.prefixLen ++ (toBE 2 0 ++ p.address)))

/-- `struct jmx_direction_nl_local_address`. -/
def localWire (a : LocalAddress) : List UInt8 := toBE 1 a.family ++ (toBE 3 0 ++ a.address)

/-- `struct jmx_direction_nl_wan`. -/
def wanWire (w : Wan) : List UInt8 :=
  toBE 1 w.wanId ++ (toBE 1 w.familyMask ++ (toBE 1 w.registered ++ (toBE 1 0 ++
    (toBE 4 w.ifindex ++ (toBE 4 w.routeIdentity ++ (toBE 4 w.tableId ++ (toBE 4 0 ++
      toBE 4 0)))))))

/-- The fields are values of their C types. -/
def LanPrefix.Representable (p : LanPrefix) : Prop :=
  p.ifindex < 256 ^ 4 ∧ p.family < 256 ^ 1 ∧ p.prefixLen < 256 ^ 1

def LocalAddress.Representable (a : LocalAddress) : Prop := a.family < 256 ^ 1

def Wan.Representable (w : Wan) : Prop :=
  w.wanId < 256 ^ 1 ∧ w.familyMask < 256 ^ 1 ∧ w.registered < 256 ^ 1 ∧ w.ifindex < 256 ^ 4 ∧
    w.routeIdentity < 256 ^ 4 ∧ w.tableId < 256 ^ 4

/-- One turn of the loop over the LAN prefixes. -/
def readPrefix : Reader LanPrefix := fun bs => do
  let (ifindex, bs) ← takeBE 4 bs
  let (family, bs) ← takeBE 1 bs
  let (prefixLen, bs) ← takeBE 1 bs
  let (reserved, bs) ← takeBE 2 bs
  let (address, bs) ← takeBytes 16 bs
  if h : reserved = 0 ∧ address.length = 16 then
    return (⟨ifindex, family, prefixLen, address, h.2⟩, bs)
  else none

/-- One turn of the loop over the local addresses. -/
def readLocal : Reader LocalAddress := fun bs => do
  let (family, bs) ← takeBE 1 bs
  let (reserved, bs) ← takeBE 3 bs
  let (address, bs) ← takeBytes 16 bs
  if h : reserved = 0 ∧ address.length = 16 then return (⟨family, address, h.2⟩, bs) else none

/-- One turn of the loop over the WANs. -/
def readWan : Reader Wan := fun bs => do
  let (wanId, bs) ← takeBE 1 bs
  let (familyMask, bs) ← takeBE 1 bs
  let (registered, bs) ← takeBE 1 bs
  let (reserved, bs) ← takeBE 1 bs
  let (ifindex, bs) ← takeBE 4 bs
  let (routeIdentity, bs) ← takeBE 4 bs
  let (tableId, bs) ← takeBE 4 bs
  let (reserved2, bs) ← takeBE 4 bs
  let (reserved3, bs) ← takeBE 4 bs
  if reserved = 0 ∧ reserved2 = 0 ∧ reserved3 = 0 then
    return (⟨wanId, familyMask, registered, ifindex, routeIdentity, tableId⟩, bs)
  else none

theorem exact_lanPrefix : Exact LanPrefix.Representable prefixWire readPrefix where
  read_write := by
    intro p rest hp
    obtain ⟨hifindex, hfamily, hlen⟩ := hp
    unfold readPrefix prefixWire
    simp only [append_assoc, takeBE_append_of_lt hifindex, takeBE_append_of_lt hfamily,
      takeBE_append_of_lt hlen, takeBE_append, takeBytes_append p.length_address,
      bind_eq_bind, bind_some]
    simp [p.length_address]
  write_read := by
    intro bs p rest h
    unfold readPrefix at h
    simp only [bind_eq_bind, bind_eq_some_iff, Prod.exists, takeBE_eq_some, takeBytes_eq_some] at h
    obtain ⟨ifindex, bs₁, ⟨rfl, hifindex⟩, family, bs₂, ⟨rfl, hfamily⟩, len, bs₃, ⟨rfl, hlen⟩,
      reserved, bs₄, ⟨rfl, -⟩, address, bs₅, ⟨rfl, -⟩, h⟩ := h
    split at h
    · next hok =>
      obtain ⟨rfl, rfl⟩ := Prod.mk.inj (some.inj h)
      refine ⟨?_, hifindex, hfamily, hlen⟩
      simp only [prefixWire, hok.1, append_assoc]
    · cases h

theorem exact_local : Exact LocalAddress.Representable localWire readLocal where
  read_write := by
    intro a rest ha
    unfold readLocal localWire
    simp only [append_assoc, takeBE_append_of_lt ha, takeBE_append,
      takeBytes_append a.length_address, bind_eq_bind, bind_some]
    simp [a.length_address]
  write_read := by
    intro bs a rest h
    unfold readLocal at h
    simp only [bind_eq_bind, bind_eq_some_iff, Prod.exists, takeBE_eq_some, takeBytes_eq_some] at h
    obtain ⟨family, bs₁, ⟨rfl, hfamily⟩, reserved, bs₂, ⟨rfl, -⟩, address, bs₃, ⟨rfl, -⟩, h⟩ := h
    split at h
    · next hok =>
      obtain ⟨rfl, rfl⟩ := Prod.mk.inj (some.inj h)
      refine ⟨?_, hfamily⟩
      simp only [localWire, hok.1, append_assoc]
    · cases h

theorem exact_wan : Exact Wan.Representable wanWire readWan where
  read_write := by
    intro w rest hw
    obtain ⟨hid, hmask, hregistered, hifindex, hroute, htable⟩ := hw
    unfold readWan wanWire
    simp only [append_assoc, takeBE_append_of_lt hid, takeBE_append_of_lt hmask,
      takeBE_append_of_lt hregistered, takeBE_append_of_lt hifindex, takeBE_append_of_lt hroute,
      takeBE_append_of_lt htable, takeBE_append, bind_eq_bind, bind_some]
    simp
  write_read := by
    intro bs w rest h
    unfold readWan at h
    simp only [bind_eq_bind, bind_eq_some_iff, Prod.exists, takeBE_eq_some] at h
    obtain ⟨id, bs₁, ⟨rfl, hid⟩, mask, bs₂, ⟨rfl, hmask⟩, registered, bs₃, ⟨rfl, hregistered⟩,
      reserved, bs₄, ⟨rfl, -⟩, ifindex, bs₅, ⟨rfl, hifindex⟩, route, bs₆, ⟨rfl, hroute⟩,
      table, bs₇, ⟨rfl, htable⟩, reserved2, bs₈, ⟨rfl, -⟩, reserved3, bs₉, ⟨rfl, -⟩, h⟩ := h
    split at h
    · next hok =>
      obtain ⟨rfl, rfl⟩ := Prod.mk.inj (some.inj h)
      refine ⟨?_, hid, hmask, hregistered, hifindex, hroute, htable⟩
      simp only [wanWire, hok.1, hok.2.1, hok.2.2, append_assoc]
    · cases h

/-! ### The header -/

/-- `struct jmx_direction_nl_header`. -/
@[ext] structure Header where
  action : ℕ
  abiVersion : ℕ
  headerSize : ℕ
  messageSize : ℕ
  generation : ℕ
  ready : ℕ
  gatewayMode : ℕ
  lanPrefixCount : ℕ
  localAddressCount : ℕ
  wanCount : ℕ
  reserved : ℕ

def headerWire (h : Header) : List UInt8 :=
  toBE 4 h.action ++ (toBE 2 h.abiVersion ++ (toBE 2 h.headerSize ++ (toBE 4 h.messageSize ++
    (toBE 8 h.generation ++ (toBE 1 h.ready ++ (toBE 1 h.gatewayMode ++
      (toBE 2 h.lanPrefixCount ++ (toBE 2 h.localAddressCount ++ (toBE 2 h.wanCount ++
        toBE 2 h.reserved)))))))))

/-- The copy of the header, from a message that is long enough. -/
def readHeader : Reader Header := fun bs => do
  let (action, bs) ← takeBE 4 bs
  let (abiVersion, bs) ← takeBE 2 bs
  let (headerSize, bs) ← takeBE 2 bs
  let (messageSize, bs) ← takeBE 4 bs
  let (generation, bs) ← takeBE 8 bs
  let (ready, bs) ← takeBE 1 bs
  let (gatewayMode, bs) ← takeBE 1 bs
  let (lanPrefixCount, bs) ← takeBE 2 bs
  let (localAddressCount, bs) ← takeBE 2 bs
  let (wanCount, bs) ← takeBE 2 bs
  let (reserved, bs) ← takeBE 2 bs
  return (⟨action, abiVersion, headerSize, messageSize, generation, ready, gatewayMode,
    lanPrefixCount, localAddressCount, wanCount, reserved⟩, bs)

/-- The fields are values of their C types. -/
structure Header.Representable (h : Header) : Prop where
  action : h.action < 256 ^ 4
  abiVersion : h.abiVersion < 256 ^ 2
  headerSize : h.headerSize < 256 ^ 2
  messageSize : h.messageSize < 256 ^ 4
  generation : h.generation < 256 ^ 8
  ready : h.ready < 256 ^ 1
  gatewayMode : h.gatewayMode < 256 ^ 1
  lanPrefixCount : h.lanPrefixCount < 256 ^ 2
  localAddressCount : h.localAddressCount < 256 ^ 2
  wanCount : h.wanCount < 256 ^ 2
  reserved : h.reserved < 256 ^ 2

theorem exact_header : Exact Header.Representable headerWire readHeader where
  read_write := by
    intro h rest hh
    unfold readHeader headerWire
    simp only [append_assoc, takeBE_append_of_lt hh.action,
      takeBE_append_of_lt hh.abiVersion, takeBE_append_of_lt hh.headerSize,
      takeBE_append_of_lt hh.messageSize, takeBE_append_of_lt hh.generation,
      takeBE_append_of_lt hh.ready, takeBE_append_of_lt hh.gatewayMode,
      takeBE_append_of_lt hh.lanPrefixCount, takeBE_append_of_lt hh.localAddressCount,
      takeBE_append_of_lt hh.wanCount, takeBE_append_of_lt hh.reserved, bind_eq_bind,
      bind_some]
    rfl
  write_read := by
    intro bs h rest hread
    unfold readHeader at hread
    simp only [bind_eq_bind, bind_eq_some_iff, Prod.exists, takeBE_eq_some] at hread
    obtain ⟨action, bs₁, ⟨rfl, h₁⟩, abi, bs₂, ⟨rfl, h₂⟩, size, bs₃, ⟨rfl, h₃⟩, message, bs₄,
      ⟨rfl, h₄⟩, generation, bs₅, ⟨rfl, h₅⟩, ready, bs₆, ⟨rfl, h₆⟩, gateway, bs₇, ⟨rfl, h₇⟩,
      lan, bs₈, ⟨rfl, h₈⟩, locals, bs₉, ⟨rfl, h₉⟩, wan, bs₁₀, ⟨rfl, h₁₀⟩, reserved, bs₁₁,
      ⟨rfl, h₁₁⟩, hread⟩ := hread
    obtain ⟨rfl, rfl⟩ := Prod.mk.inj (some.inj hread)
    exact ⟨by simp only [headerWire, append_assoc], h₁, h₂, h₃, h₄, h₅, h₆, h₇, h₈, h₉, h₁₀, h₁₁⟩

/-! ### The message -/

/-- The length of a message with these counts. -/
def wireLength (lans locals wans : ℕ) : ℕ :=
  sizeofHeader + lans * sizeofPrefix + locals * sizeofLocal + wans * sizeofWan

/-- The header of a snapshot. -/
def Snapshot.header (s : Snapshot) : Header where
  action := NL_ACT_DIRECTION_SNAPSHOT
  abiVersion := NL_ABI_VERSION
  headerSize := sizeofHeader
  messageSize := wireLength s.lanPrefixes.length s.localAddresses.length s.wans.length
  generation := s.generation
  ready := s.ready
  gatewayMode := s.gatewayMode
  lanPrefixCount := s.lanPrefixes.length
  localAddressCount := s.localAddresses.length
  wanCount := s.wans.length
  reserved := 0

/-- The packed encoding of a snapshot. -/
def wire (s : Snapshot) : List UInt8 :=
  headerWire s.header ++ (s.lanPrefixes.flatMap prefixWire ++
    (s.localAddresses.flatMap localWire ++ s.wans.flatMap wanWire))

/-! ### Valid snapshots -/

/-- The checks of a LAN prefix. -/
def prefixValid (p : LanPrefix) : Bool :=
  p.ifindex ≠ 0 ∧ familyBytes p.family ≠ 0 ∧ p.prefixLen ≤ familyBytes p.family * 8

/-- The check of a local address. -/
def localValid (a : LocalAddress) : Bool := familyBytes a.family ≠ 0

/-- The checks of a WAN; `0xfc` are the bits of no family. -/
def wanValid (w : Wan) : Bool :=
  w.wanId ≠ 0 ∧ w.registered ≠ 0 ∧ w.familyMask ≠ 0 ∧ w.familyMask &&& 0xfc = 0 ∧
    (w.ifindex ≠ 0 ∨ w.routeIdentity ≠ 0 ∨ w.tableId ≠ 0)

/-- The loop over the WANs, behind those with the ids `seen`. -/
def wansValid (seen : List ℕ) : List Wan → Bool
  | [] => true
  | w :: ws => wanValid w && w.wanId ∉ seen && wansValid (w.wanId :: seen) ws

/-- `direction_snapshot_valid`. -/
def snapshotValid (s : Snapshot) : Bool :=
  if s.version ≠ NL_ABI_VERSION ∨ s.generation = 0 ∨ s.ready > 1 ∨ s.gatewayMode > 1 ∨
      s.lanPrefixes.length > MAX_LAN_PREFIXES ∨ s.localAddresses.length > MAX_LOCAL_ADDRS ∨
      s.wans.length > MAX_WANS then false
  else if s.ready = 0 then s.lanPrefixes = [] ∧ s.localAddresses = [] ∧ s.wans = []
  else if s.gatewayMode ≠ 0 ∧ (s.lanPrefixes = [] ∨ s.wans = []) then false
  else s.lanPrefixes.all prefixValid && s.localAddresses.all localValid && wansValid [] s.wans

/-- What `direction_snapshot_valid` asks for. -/
structure Snapshot.Valid (s : Snapshot) : Prop where
  version : s.version = NL_ABI_VERSION
  generation : s.generation ≠ 0
  ready : s.ready ≤ 1
  gatewayMode : s.gatewayMode ≤ 1
  unready : s.ready = 0 → s.lanPrefixes = [] ∧ s.localAddresses = [] ∧ s.wans = []
  gateway : s.ready ≠ 0 → s.gatewayMode ≠ 0 → s.lanPrefixes ≠ [] ∧ s.wans ≠ []
  lanPrefixes : ∀ p ∈ s.lanPrefixes, prefixValid p = true
  localAddresses : ∀ a ∈ s.localAddresses, localValid a = true
  wans : ∀ w ∈ s.wans, wanValid w = true
  distinct : (s.wans.map Wan.wanId).Nodup

theorem wansValid_iff {seen : List ℕ} {ws : List Wan} : wansValid seen ws = true ↔
      (∀ w ∈ ws, wanValid w = true ∧ w.wanId ∉ seen) ∧ (ws.map Wan.wanId).Nodup := by
  induction ws generalizing seen with
  | nil => simp [wansValid]
  | cons w ws ih =>
    rw [wansValid, Bool.and_eq_true, Bool.and_eq_true, decide_eq_true_eq, ih, map_cons, nodup_cons]
    constructor
    · rintro ⟨⟨hw, hseen⟩, hall, hnodup⟩
      refine ⟨?_, ?_, hnodup⟩
      · intro v hv
        rcases mem_cons.mp hv with rfl | hv
        · exact ⟨hw, hseen⟩
        · exact ⟨(hall v hv).1, fun h => (hall v hv).2 (mem_cons_of_mem _ h)⟩
      · intro hmem
        obtain ⟨v, hv, hid⟩ := List.mem_map.mp hmem
        exact (hall v hv).2 (hid ▸ mem_cons_self)
    · rintro ⟨hall, hnew, hnodup⟩
      refine ⟨hall w mem_cons_self, ?_, hnodup⟩
      intro v hv
      refine ⟨(hall v (mem_cons_of_mem _ hv)).1, ?_⟩
      intro hmem
      rcases mem_cons.mp hmem with hid | hmem
      · exact hnew (hid ▸ List.mem_map_of_mem hv)
      · exact (hall v (mem_cons_of_mem _ hv)).2 hmem

variable {s : Snapshot}

theorem snapshotValid_iff : snapshotValid s = true ↔ s.Valid := by
  have hcaps := And.intro s.lanPrefixes_le (And.intro s.localAddresses_le s.wans_le)
  unfold snapshotValid
  split
  · next hbad =>
    constructor
    · intro h
      cases h
    · intro h
      have := h.version
      have := h.generation
      have := h.ready
      have := h.gatewayMode
      omega
  · next hgood =>
    push Not at hgood
    obtain ⟨hversion, hgeneration, hready, hgateway, -⟩ := hgood
    split
    · next hzero =>
      rw [decide_eq_true_eq]
      constructor
      · rintro ⟨hlan, hlocal, hwan⟩
        refine ⟨hversion, hgeneration, hready, hgateway, fun _ => ⟨hlan, hlocal, hwan⟩,
          fun h => absurd hzero h, ?_, ?_, ?_, ?_⟩ <;> simp [hlan, hlocal, hwan]
      · intro h
        exact h.unready hzero
    · next hone =>
      split
      · next hempty =>
        constructor
        · intro h
          cases h
        · intro h
          obtain ⟨hlan, hwan⟩ := h.gateway hone hempty.1
          rcases hempty.2 with he | he
          · exact absurd he hlan
          · exact absurd he hwan
      · next hfull =>
        rw [Bool.and_eq_true, Bool.and_eq_true, List.all_eq_true, List.all_eq_true, wansValid_iff]
        constructor
        · rintro ⟨⟨hlan, hlocal⟩, hwan, hnodup⟩
          refine ⟨hversion, hgeneration, hready, hgateway, fun h => absurd h hone, ?_, hlan, hlocal,
            fun w hw => (hwan w hw).1, hnodup⟩
          intro _ hmode
          constructor
          · intro he
            exact hfull ⟨hmode, .inl he⟩
          · intro he
            exact hfull ⟨hmode, .inr he⟩
        · intro h
          exact ⟨⟨h.lanPrefixes, h.localAddresses⟩,
            fun w hw => ⟨h.wans w hw, not_mem_nil⟩, h.distinct⟩

/-! ### The parser -/

/-- The errors of the parser (as `-errno`). -/
inductive ParseError where
  | EINVAL | EPROTONOSUPPORT | EMSGSIZE

/-- The three loops; the counts are within the arrays. -/
def readSections (header : Header) (bs : List UInt8) : Option Snapshot := do
  let (lans, bs) ← takeMany readPrefix header.lanPrefixCount bs
  let (locals, bs) ← takeMany readLocal header.localAddressCount bs
  let (wans, _) ← takeMany readWan header.wanCount bs
  if h : lans.length ≤ MAX_LAN_PREFIXES ∧ locals.length ≤ MAX_LOCAL_ADDRS ∧
      wans.length ≤ MAX_WANS then
    return ⟨NL_ABI_VERSION, header.generation, header.ready, header.gatewayMode, lans, locals, wans,
      h.1, h.2.1, h.2.2⟩
  else none

/-- The sizes and flags of a header do not fit a message of `len` bytes. -/
def Header.Malformed (header : Header) (len : ℕ) : Prop :=
  header.headerSize ≠ sizeofHeader ∨ header.messageSize ≠ len ∨ header.ready > 1 ∨
    header.gatewayMode > 1 ∨ header.lanPrefixCount > MAX_LAN_PREFIXES ∨
    header.localAddressCount > MAX_LOCAL_ADDRS ∨ header.wanCount > MAX_WANS

instance (header : Header) (len : ℕ) : Decidable (header.Malformed len) :=
  inferInstanceAs (Decidable (_ ∨ _))

/-- `direction_parse_wire`. -/
def parseWire (bs : List UInt8) : Except ParseError Snapshot :=
  match readHeader bs with
  | none => .error .EINVAL
  | some (header, rest) =>
    if header.action ≠ NL_ACT_DIRECTION_SNAPSHOT ∨ header.abiVersion ≠ NL_ABI_VERSION ∨
        header.reserved ≠ 0 then .error .EPROTONOSUPPORT
    else if header.Malformed bs.length then .error .EINVAL
    else if wireLength header.lanPrefixCount header.localAddressCount header.wanCount
        ≠ bs.length then .error .EMSGSIZE
    else if header.generation = 0 then .error .EINVAL
    else
      match readSections header rest with
      | none => .error .EINVAL
      | some s => if snapshotValid s then .ok s else .error .EINVAL

/-- The fields of a snapshot are values of their C types. -/
structure Snapshot.Representable (s : Snapshot) : Prop where
  generation : s.generation < 256 ^ 8
  lanPrefixes : ∀ p ∈ s.lanPrefixes, p.Representable
  localAddresses : ∀ a ∈ s.localAddresses, a.Representable
  wans : ∀ w ∈ s.wans, w.Representable

theorem length_prefixWire (p : LanPrefix) : (prefixWire p).length = sizeofPrefix := by
  simp [prefixWire, p.length_address, sizeofPrefix]

theorem length_localWire (a : LocalAddress) : (localWire a).length = sizeofLocal := by
  simp [localWire, a.length_address, sizeofLocal]

theorem length_wanWire (w : Wan) : (wanWire w).length = sizeofWan := by
  simp [wanWire, sizeofWan]

theorem length_headerWire (h : Header) : (headerWire h).length = sizeofHeader := by
  simp [headerWire, sizeofHeader]

theorem length_wire (s : Snapshot) : (wire s).length =
    wireLength s.lanPrefixes.length s.localAddresses.length s.wans.length := by
  simp only [wire, length_append, length_headerWire, length_flatMap length_prefixWire,
    length_flatMap length_localWire, length_flatMap length_wanWire, wireLength]
  omega

theorem header_representable (hv : s.Valid) (hr : s.Representable) : s.header.Representable := by
  have h₁ := s.lanPrefixes_le
  have h₂ := s.localAddresses_le
  have h₃ := s.wans_le
  have h₄ := hv.ready
  have h₅ := hv.gatewayMode
  simp only [MAX_LAN_PREFIXES, MAX_LOCAL_ADDRS, MAX_WANS] at h₁ h₂ h₃
  have hlen : s.header.messageSize < 256 ^ 4 := by
    show wireLength _ _ _ < _
    simp only [wireLength, sizeofHeader, sizeofPrefix, sizeofLocal, sizeofWan]
    omega
  have haction : NL_ACT_DIRECTION_SNAPSHOT < 256 ^ 4 := by decide
  have habi : NL_ABI_VERSION < 256 ^ 2 := by decide
  have hsize : sizeofHeader < 256 ^ 2 := by decide
  have hreserved : 0 < 256 ^ 2 := by decide
  refine ⟨haction, habi, hsize, hlen, hr.generation, ?_, ?_, ?_, ?_, ?_, hreserved⟩
  · show s.ready < _
    omega
  · show s.gatewayMode < _
    omega
  · show s.lanPrefixes.length < _
    omega
  · show s.localAddresses.length < _
    omega
  · show s.wans.length < _
    omega

theorem readSections_wire (hv : s.Valid) (hr : s.Representable) :
    readSections s.header (s.lanPrefixes.flatMap prefixWire ++
      (s.localAddresses.flatMap localWire ++ s.wans.flatMap wanWire)) = some s := by
  have hlan : takeMany readPrefix s.lanPrefixes.length (s.lanPrefixes.flatMap prefixWire ++
      (s.localAddresses.flatMap localWire ++ s.wans.flatMap wanWire)) = some (s.lanPrefixes, _) :=
    (exact_lanPrefix.many _).read_write ⟨rfl, hr.lanPrefixes⟩
  have hlocal : takeMany readLocal s.localAddresses.length
      (s.localAddresses.flatMap localWire ++ s.wans.flatMap wanWire) = some (s.localAddresses, _) :=
    (exact_local.many _).read_write ⟨rfl, hr.localAddresses⟩
  have hwan : takeMany readWan s.wans.length (s.wans.flatMap wanWire ++ []) = some (s.wans, []) :=
    (exact_wan.many _).read_write ⟨rfl, hr.wans⟩
  rw [append_nil] at hwan
  show (do
    let (lans, bs) ← takeMany readPrefix s.lanPrefixes.length _
    let (locals, bs) ← takeMany readLocal s.localAddresses.length bs
    let (wans, _) ← takeMany readWan s.wans.length bs
    if h : lans.length ≤ MAX_LAN_PREFIXES ∧ locals.length ≤ MAX_LOCAL_ADDRS ∧
        wans.length ≤ MAX_WANS then
      return (⟨NL_ABI_VERSION, s.generation, s.ready, s.gatewayMode, lans, locals, wans,
        h.1, h.2.1, h.2.2⟩ : Snapshot)
    else none) = some s
  simp only [hlan, hlocal, hwan, bind_eq_bind, bind_some]
  rw [dif_pos ⟨s.lanPrefixes_le, s.localAddresses_le, s.wans_le⟩]
  have hversion := hv.version
  cases s
  cases hversion
  rfl

/-- What the loops read, and what the snapshot is made of. -/
theorem readSections_some {header : Header} {bs : List UInt8}
    (h : readSections header bs = some s) :
    (∃ rest, bs = s.lanPrefixes.flatMap prefixWire ++ (s.localAddresses.flatMap localWire ++
      (s.wans.flatMap wanWire ++ rest))) ∧
      s.version = NL_ABI_VERSION ∧ s.generation = header.generation ∧ s.ready = header.ready ∧
      s.gatewayMode = header.gatewayMode ∧ s.lanPrefixes.length = header.lanPrefixCount ∧
      s.localAddresses.length = header.localAddressCount ∧ s.wans.length = header.wanCount ∧
      (∀ p ∈ s.lanPrefixes, p.Representable) ∧ (∀ a ∈ s.localAddresses, a.Representable) ∧
      ∀ w ∈ s.wans, w.Representable := by
  unfold readSections at h
  obtain ⟨⟨lans, bs₁⟩, hlan, hrest⟩ := bind_eq_some_iff.mp h
  obtain ⟨⟨locals, bs₂⟩, hlocal, hrest'⟩ := bind_eq_some_iff.mp hrest
  obtain ⟨⟨wans, bs₃⟩, hwan, hbuilt⟩ := bind_eq_some_iff.mp hrest'
  clear h hrest hrest'
  obtain ⟨rfl, hlans, hlanRep⟩ := (exact_lanPrefix.many _).write_read hlan
  obtain ⟨rfl, hlocals, hlocalRep⟩ := (exact_local.many _).write_read hlocal
  obtain ⟨rfl, hwans, hwanRep⟩ := (exact_wan.many _).write_read hwan
  dsimp only at hbuilt
  split at hbuilt
  · obtain rfl := some.inj hbuilt
    exact ⟨⟨bs₃, rfl⟩, rfl, rfl, rfl, rfl, hlans, hlocals, hwans, hlanRep, hlocalRep, hwanRep⟩
  · cases hbuilt

/-- **The encoding of a valid snapshot is accepted**, and read back as it is. -/
theorem parseWire_wire (hv : s.Valid) (hr : s.Representable) : parseWire (wire s) = .ok s := by
  have hread : readHeader (wire s) = some (s.header, _) :=
    exact_header.read_write (header_representable hv hr)
  have hmalformed : ¬ s.header.Malformed (wire s).length := by
    rw [length_wire]
    rintro (h | h | h | h | h | h | h)
    · exact h rfl
    · exact h rfl
    · exact absurd hv.ready (Nat.not_le.mpr h)
    · exact absurd hv.gatewayMode (Nat.not_le.mpr h)
    · exact absurd s.lanPrefixes_le (Nat.not_le.mpr h)
    · exact absurd s.localAddresses_le (Nat.not_le.mpr h)
    · exact absurd s.wans_le (Nat.not_le.mpr h)
  have hlength : ¬ wireLength s.header.lanPrefixCount s.header.localAddressCount
      s.header.wanCount ≠ (wire s).length := by
    rw [length_wire]
    exact not_not.mpr rfl
  have haction : ¬ (s.header.action ≠ NL_ACT_DIRECTION_SNAPSHOT ∨
      s.header.abiVersion ≠ NL_ABI_VERSION ∨ s.header.reserved ≠ 0) := by
    rintro (h | h | h) <;> exact h rfl
  unfold parseWire
  rw [hread]
  dsimp only
  have hgeneration : ¬ s.header.generation = 0 := hv.generation
  rw [if_neg haction, if_neg hmalformed, if_neg hlength, if_neg hgeneration,
    readSections_wire hv hr]
  dsimp only
  rw [if_pos (snapshotValid_iff.mpr hv)]

/-- **What is accepted is the encoding of a valid snapshot**, the one it is read as. -/
theorem wire_of_parseWire {bs : List UInt8} (h : parseWire bs = .ok s) :
    bs = wire s ∧ s.Valid ∧ s.Representable := by
  unfold parseWire at h
  cases hread : readHeader bs with
  | none =>
    rw [hread] at h
    cases h
  | some result =>
    obtain ⟨header, rest⟩ := result
    rw [hread] at h
    dsimp only at h
    split at h
    · cases h
    next haction =>
    split at h
    · cases h
    next hmalformed =>
    split at h
    · cases h
    next hlength =>
    split at h
    · cases h
    next hgeneration =>
    cases hsections : readSections header rest with
    | none =>
      rw [hsections] at h
      cases h
    | some s' =>
      rw [hsections] at h
      dsimp only at h
      split at h
      · next hvalid =>
        obtain rfl := Except.ok.inj h
        obtain ⟨⟨tail, hrest⟩, hversion, hgen, hready, hgateway, hlans, hlocals, hwans, hlanRep,
          hlocalRep, hwanRep⟩ := readSections_some hsections
        obtain ⟨hbs, hrep⟩ := exact_header.write_read hread
        have hv := snapshotValid_iff.mp hvalid
        push Not at haction hlength
        simp only [Header.Malformed, not_or, not_not] at hmalformed
        -- the header is the one of the snapshot
        have hheader : header = s'.header := by
          obtain ⟨h₁, h₂, h₃⟩ := haction
          obtain ⟨h₄, h₅, -⟩ := hmalformed
          rw [← hlength] at h₅
          have hsize : header.messageSize = s'.header.messageSize := by
            rw [h₅, ← hlans, ← hlocals, ← hwans]
            rfl
          exact Header.ext h₁ h₂ h₄ hsize hgen.symm hready.symm hgateway.symm hlans.symm
            hlocals.symm hwans.symm h₃
        -- and nothing is behind the entries
        have htail : tail = [] := by
          have htotal := congrArg List.length hbs
          rw [hrest, ← hlength, hheader] at htotal
          simp only [length_append, length_headerWire, length_flatMap length_prefixWire,
            length_flatMap length_localWire, length_flatMap length_wanWire, wireLength,
            Snapshot.header] at htotal
          exact length_eq_zero_iff.mp (by omega)
        refine ⟨?_, hv, ⟨?_, hlanRep, hlocalRep, hwanRep⟩⟩
        · rw [hbs, hrest, htail, append_nil, hheader]
          rfl
        · rw [hgen]
          exact hrep.generation
      · cases h

end DreamingOS.Direction
