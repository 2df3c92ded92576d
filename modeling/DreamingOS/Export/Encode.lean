import DreamingOS.Lib.BigEndian
import Mathlib.Data.Vector.Basic

namespace DreamingOS.Export

open Bytes

/-!
# Flow export — the NetFlow v9 and IPFIX encoders

* `fieldsV4`, `fieldsV6`, `timeFieldLength` — the layout tables, and `recordLength` over them;
* `Writer` — the output buffer; a write that does not fit sets `overflow`, for good;
* `encodeTemplateSet`, `encodeOneRecord`, `encodeDatagram` — the encoders, with the lengths patched
  in behind what they are the lengths of;
* `flowsPerDatagram`, `emit` — the batches of a list of flows, each encoded and sent.
-/

/-! ### Layout -/

def protocolIpfix : ℤ := 10

def protocolNetflow9 : ℤ := 9

def templateIdV4 : ℕ := 256

def templateIdV6 : ℕ := 257

def ipfixSetTemplate : ℕ := 2

def netflow9FlowsetTemplate : ℕ := 0

def maxDatagram : ℕ := 1400

def ieOctetDeltaCount : ℕ := 1
def iePacketDeltaCount : ℕ := 2
def ieProtocolIdentifier : ℕ := 4
def ieIpClassOfService : ℕ := 5
def ieTcpControlBits : ℕ := 6
def ieSourceTransportPort : ℕ := 7
def ieSourceIpv4Address : ℕ := 8
def ieIngressInterface : ℕ := 10
def ieDestinationTransportPort : ℕ := 11
def ieDestinationIpv4Address : ℕ := 12
def ieEgressInterface : ℕ := 14
def ieFlowEndSysUpTime : ℕ := 21
def ieFlowStartSysUpTime : ℕ := 22
def ieSourceIpv6Address : ℕ := 27
def ieDestinationIpv6Address : ℕ := 28
def ieFlowStartMilliseconds : ℕ := 152
def ieFlowEndMilliseconds : ℕ := 153

/-- `struct flowd_export_field`. -/
structure Field where
  (id length : ℕ)

/-- `FIELDS_V4`. -/
def fieldsV4 : List Field :=
  [⟨ieSourceIpv4Address, 4⟩, ⟨ieDestinationIpv4Address, 4⟩, ⟨ieSourceTransportPort, 2⟩,
    ⟨ieDestinationTransportPort, 2⟩, ⟨ieProtocolIdentifier, 1⟩, ⟨ieIpClassOfService, 1⟩,
    ⟨ieTcpControlBits, 1⟩, ⟨ieIngressInterface, 4⟩, ⟨ieEgressInterface, 4⟩,
    ⟨ieOctetDeltaCount, 8⟩, ⟨iePacketDeltaCount, 8⟩]

/-- `FIELDS_V6`. -/
def fieldsV6 : List Field :=
  [⟨ieSourceIpv6Address, 16⟩, ⟨ieDestinationIpv6Address, 16⟩, ⟨ieSourceTransportPort, 2⟩,
    ⟨ieDestinationTransportPort, 2⟩, ⟨ieProtocolIdentifier, 1⟩, ⟨ieIpClassOfService, 1⟩,
    ⟨ieTcpControlBits, 1⟩, ⟨ieIngressInterface, 4⟩, ⟨ieEgressInterface, 4⟩,
    ⟨ieOctetDeltaCount, 8⟩, ⟨iePacketDeltaCount, 8⟩]

/-- `AF_INET` and `AF_INET6`. -/
inductive Family where
  | inet
  | inet6
  deriving DecidableEq

def timeStartId (protocol : ℤ) : ℕ :=
  if protocol = protocolIpfix then ieFlowStartMilliseconds else ieFlowStartSysUpTime

def timeEndId (protocol : ℤ) : ℕ :=
  if protocol = protocolIpfix then ieFlowEndMilliseconds else ieFlowEndSysUpTime

def timeFieldLength (protocol : ℤ) : ℕ := if protocol = protocolIpfix then 8 else 4

def fieldsFor : Family → List Field
  | .inet6 => fieldsV6
  | .inet => fieldsV4

def templateIdFor : Family → ℕ
  | .inet6 => templateIdV6
  | .inet => templateIdV4

/-- `record_length`. -/
def recordLength (protocol : ℤ) (family : Family) : ℕ :=
  ((fieldsFor family).map Field.length).sum + 2 * timeFieldLength protocol

/-! ### Flows, configuration and state -/

/-- `struct flowd_export_flow`. -/
structure Flow where
  family : Family
  (srcAddr dstAddr : List.Vector UInt8 16)
  (srcPort dstPort : UInt16)
  (protocol tos tcpFlags : UInt8)
  (inputIf outputIf : UInt32)
  (bytes packets firstSwitchedMs lastSwitchedMs : UInt64)

/-- `struct flowd_export_config`, the fields the encoder and `emit` read. -/
structure Config where
  enabled : Bool
  protocol : ℤ
  (templateRefreshS observationDomain : UInt32)

/-- `struct flowd_export_state`. -/
structure ExportState where
  (sequence recordsSent : UInt32)
  (bootTimeMs lastTemplateMs : UInt64)

/-! ### The writer -/

/-- `struct writer`: the bytes before its offset, and the size of its buffer. -/
structure Writer where
  bytes : List UInt8
  len : ℕ
  overflow : Bool

/-- `put_bytes`. -/
def Writer.put (w : Writer) (bs : List UInt8) : Writer :=
  if w.overflow || decide (w.bytes.length + bs.length > w.len) then { w with overflow := true }
  else { w with bytes := w.bytes ++ bs }

def Writer.putU8 (w : Writer) (v : UInt8) : Writer := w.put [v]

def Writer.putU16 (w : Writer) (v : ℕ) : Writer := w.put (toBE 2 v)

def Writer.putU32 (w : Writer) (v : UInt32) : Writer := w.put (toBE 4 v.toNat)

def Writer.putU64 (w : Writer) (v : UInt64) : Writer := w.put (toBE 8 v.toNat)

/-- Patching the two bytes at an offset with the low 16 bits of a length. -/
def Writer.patchU16 (w : Writer) (at' v : ℕ) : Writer :=
  { w with bytes := (w.bytes.set at' (UInt8.ofNat (v / 256))).set (at' + 1) (UInt8.ofNat v) }

/-! ### The encoders -/

/-- `encode_template_set`; `none` is its `-1`. -/
def encodeTemplateSet (protocol : ℤ) (family : Family) (w : Writer) : Option Writer :=
  let setStart := w.bytes.length
  let setId := if protocol = protocolIpfix then ipfixSetTemplate else netflow9FlowsetTemplate
  let fields := fieldsFor family
  let w := (((w.putU16 setId).putU16 0).putU16 (templateIdFor family)).putU16 (fields.length + 2)
  let w := fields.foldl (fun w f => (w.putU16 f.id).putU16 f.length) w
  let w := (((w.putU16 (timeStartId protocol)).putU16 (timeFieldLength protocol)).putU16
    (timeEndId protocol)).putU16 (timeFieldLength protocol)
  if w.overflow then none
  else some (w.patchU16 (setStart + 2) (w.bytes.length - setStart))

/-- `flowd_export_encode_template`: the bytes written, whose number the source returns. -/
def encodeTemplate (protocol : ℤ) (family : Family) (outLen : ℕ) : Option (List UInt8) :=
  if protocol ≠ protocolIpfix ∧ protocol ≠ protocolNetflow9 then none
  else (encodeTemplateSet protocol family ⟨[], outLen, false⟩).map Writer.bytes

/-- The bytes of an address field: all 16 of a v6 address, 4 of a v4 one. -/
def addrBytes (family : Family) (addr : List.Vector UInt8 16) : List UInt8 :=
  addr.toList.take (if family = .inet6 then 16 else 4)

/-- The offset of a v9 time: clamped, not wrapped. -/
def sinceBoot (bootTimeMs ms : UInt64) : UInt64 := if ms > bootTimeMs then ms - bootTimeMs else 0

/-- `encode_one_record`. -/
def encodeOneRecord (protocol : ℤ) (flow : Flow) (bootTimeMs : UInt64) (w : Writer) : Writer :=
  let w := (w.put (addrBytes flow.family flow.srcAddr)).put (addrBytes flow.family flow.dstAddr)
  let w := (w.putU16 flow.srcPort.toNat).putU16 flow.dstPort.toNat
  let w := ((w.putU8 flow.protocol).putU8 flow.tos).putU8 flow.tcpFlags
  let w := (w.putU32 flow.inputIf).putU32 flow.outputIf
  let w := (w.putU64 flow.bytes).putU64 flow.packets
  if protocol = protocolIpfix then
    (w.putU64 flow.firstSwitchedMs).putU64 flow.lastSwitchedMs
  else
    (w.putU32 (sinceBoot bootTimeMs flow.firstSwitchedMs).toUInt32).putU32
      (sinceBoot bootTimeMs flow.lastSwitchedMs).toUInt32

/-- `flowd_export_flows_per_datagram`. -/
def flowsPerDatagram (protocol : ℤ) (family : Family) (includeTemplate : Bool) : ℕ :=
  let header := if protocol = protocolIpfix then 16 else 20
  let perRecord := recordLength protocol family
  let setHeader := 4
  if maxDatagram ≤ header + setHeader then 0
  else
    let budget := maxDatagram - (header + setHeader)
    if includeTemplate then
      match encodeTemplate protocol family 512 with
      | none => 0
      | some template =>
        if budget ≤ template.length then 0
        else if perRecord = 0 then 0 else (budget - template.length) / perRecord
    else if perRecord = 0 then 0 else budget / perRecord

/-- The header, the length of an IPFIX message still zero. -/
def encodeHeader (config : Config) (state : ExportState) (count : ℕ) (includeTemplate : Bool)
    (nowMs : UInt64) (w : Writer) : Writer :=
  let w := w.putU16 config.protocol.toNat
  if config.protocol = protocolIpfix then
    (((w.putU16 0).putU32 (nowMs / 1000).toUInt32).putU32 state.sequence).putU32
      config.observationDomain
  else
    ((((w.putU16 (count + if includeTemplate then 1 else 0)).putU32
      (nowMs - state.bootTimeMs).toUInt32).putU32 (nowMs / 1000).toUInt32).putU32
      state.sequence).putU32 config.observationDomain

/-- The state behind a datagram of `count` records. -/
def ExportState.encoded (state : ExportState) (protocol : ℤ) (count : ℕ) (includeTemplate : Bool)
    (nowMs : UInt64) : ExportState where
  sequence := state.sequence + if protocol = protocolIpfix then UInt32.ofNat count else 1
  recordsSent := state.recordsSent + UInt32.ofNat count
  bootTimeMs := state.bootTimeMs
  lastTemplateMs := if includeTemplate then nowMs else state.lastTemplateMs

/-- `flowd_export_encode_datagram`: the bytes of the datagram, or `none` for `-1`, and the state. -/
def encodeDatagram (config : Config) (state : ExportState) (flows : List Flow)
    (includeTemplate : Bool) (nowMs : UInt64) (outLen : ℕ) : Option (List UInt8) × ExportState :=
  match flows with
  | [] => (none, state)
  | first :: rest =>
    if config.protocol ≠ protocolIpfix ∧ config.protocol ≠ protocolNetflow9 then (none, state)
    -- one template per datagram
    else if rest.any fun flow => flow.family ≠ first.family then (none, state)
    else
      let w := encodeHeader config state flows.length includeTemplate nowMs ⟨[], outLen, false⟩
      match if includeTemplate then encodeTemplateSet config.protocol first.family w else some w with
      | none => (none, state)
      | some w =>
        let dataStart := w.bytes.length
        let w := (w.putU16 (templateIdFor first.family)).putU16 0
        let w := flows.foldl
          (fun w flow => encodeOneRecord config.protocol flow state.bootTimeMs w) w
        if w.overflow then (none, state)
        else
          let w := w.patchU16 (dataStart + 2) (w.bytes.length - dataStart)
          let w := if config.protocol = protocolIpfix then w.patchU16 2 w.bytes.length else w
          (some w.bytes, state.encoded config.protocol flows.length includeTemplate nowMs)

/-! ### Sending -/

/-- Whether a template is due: never sent, or last sent `template_refresh_s` ago. -/
def templateDue (config : Config) (state : ExportState) (nowMs : UInt64) : Bool :=
  state.lastTemplateMs = 0 || (config.templateRefreshS ≠ 0 &&
    nowMs - state.lastTemplateMs ≥ config.templateRefreshS.toUInt64 * 1000)

/-- The next batch: as many flows as fit, up to the first one of another family. -/
def nextBatch (capacity : ℕ) (flows : List Flow) : List Flow :=
  match flows with
  | [] => []
  | first :: _ => (flows.take capacity).takeWhile fun flow => flow.family = first.family

/-- A datagram handed to the sink: the state it was encoded in, its flows and its bytes, and
    whether the sink took it. -/
structure Attempt where
  before : ExportState
  nowMs : UInt64
  batch : List Flow
  bytes : List UInt8
  sent : Bool

/-- What a call of `emit` did.  `result` is `none` for `-1`. -/
structure Emission where
  result : Option ℕ
  attempts : List Attempt
  state : ExportState

/-- The loop of `flowd_export_emit`.  `sends` are the answers of the sink, by datagram. -/
def emitLoop (config : Config) (sends : ℕ → Bool) (nowMs : UInt64) :
    ℕ → ℕ → ExportState → List Flow → Emission
  | _, datagrams, state, [] => ⟨some datagrams, [], state⟩
  | 0, _, state, _ :: _ => ⟨none, [], state⟩
  | turns + 1, datagrams, state, first :: rest =>
    let flows := first :: rest
    let includeTemplate := templateDue config state nowMs
    let capacity := flowsPerDatagram config.protocol first.family includeTemplate
    if capacity = 0 then ⟨none, [], state⟩
    else
      let batch := nextBatch capacity flows
      match encodeDatagram config state batch includeTemplate nowMs maxDatagram with
      | (none, state') => ⟨none, [], state'⟩
      | (some bytes, state') =>
        let attempt : Attempt := ⟨state, nowMs, batch, bytes, sends datagrams⟩
        if sends datagrams then
          let later := emitLoop config sends nowMs turns (datagrams + 1) state'
            (flows.drop batch.length)
          { later with attempts := attempt :: later.attempts }
        else ⟨none, [attempt], state'⟩

/-- `flowd_export_emit`.  Every datagram takes a flow at least, so the turns suffice. -/
def emit (config : Config) (sends : ℕ → Bool) (state : ExportState) (flows : List Flow)
    (nowMs : UInt64) : Emission :=
  if flows = [] then ⟨none, [], state⟩
  else if !config.enabled then ⟨some 0, [], state⟩
  else emitLoop config sends nowMs flows.length 0 state flows

end DreamingOS.Export
