import DreamingOS.Export.Datagram
import DreamingOS.Lib.FieldList

namespace DreamingOS.Export

open Bytes FieldList
open Option (bind_eq_bind bind_some)

/-!
# Flow export — the collector

The other end, which knows of a datagram only what its length fields and its templates say.

* `readMessage` — the header of either protocol, and the sets behind it;
* `collect` — the template sets of a message are learned, the data sets read by what was learned;
* `Exported`, `exported` — what is recovered of a flow, and what the flow says it should be;
* `readMessage_datagram` — the header of a datagram says what is in it;
* `collect_datagram` — **a datagram is read back into its flows**, by a collector that holds the
  template of their family or finds it in the datagram.
-/

/-! ### Messages -/

/-- A set of a message: its id and what is behind its length. -/
structure RawSet where
  id : ℕ
  body : List UInt8

/-- A message.  `size` is the length of an IPFIX message, and the number of records of a v9 one. -/
structure Message where
  (version size : ℕ)
  sysUpTime : Option ℕ
  (exportTime sequence domain : ℕ)
  sets : List RawSet

/-- The sets up to the end of the message. -/
def readSets : ℕ → List UInt8 → Option (List RawSet)
  | _, [] => some []
  | 0, _ :: _ => none
  | turns + 1, bs => do
    let (id, bs) ← takeBE 2 bs
    let (length, bs) ← takeBE 2 bs
    if length < 4 then none
    else
      let (body, bs) ← takeBytes (length - 4) bs
      let sets ← readSets turns bs
      return ⟨id, body⟩ :: sets

/-- A message of either version. -/
def readMessage (bytes : List UInt8) : Option Message := do
  let (version, bs) ← takeBE 2 bytes
  let (size, bs) ← takeBE 2 bs
  if version = 10 then
    let (exportTime, bs) ← takeBE 4 bs
    let (sequence, bs) ← takeBE 4 bs
    let (domain, bs) ← takeBE 4 bs
    let sets ← readSets bs.length bs
    return ⟨version, size, none, exportTime, sequence, domain, sets⟩
  else if version = 9 then
    let (sysUpTime, bs) ← takeBE 4 bs
    let (exportTime, bs) ← takeBE 4 bs
    let (sequence, bs) ← takeBE 4 bs
    let (domain, bs) ← takeBE 4 bs
    let sets ← readSets bs.length bs
    return ⟨version, size, some sysUpTime, exportTime, sequence, domain, sets⟩
  else none

/-! ### Templates -/

/-- The layouts a collector has learned, by template id. -/
abbrev Templates := ℕ → Option (List (ℕ × ℕ))

/-- The fields of a template: an id and a length each. -/
def readFields : ℕ → List UInt8 → Option (List (ℕ × ℕ) × List UInt8)
  | 0, bs => some ([], bs)
  | n + 1, bs => do
    let (id, bs) ← takeBE 2 bs
    let (length, bs) ← takeBE 2 bs
    let (fields, bs) ← readFields n bs
    return ((id, length) :: fields, bs)

/-- The templates of a template set: an id, a number of fields, the fields. -/
def readTemplates : ℕ → List UInt8 → Option (List (ℕ × List (ℕ × ℕ)))
  | _, [] => some []
  | 0, _ :: _ => none
  | turns + 1, bs => do
    let (id, bs) ← takeBE 2 bs
    let (count, bs) ← takeBE 2 bs
    let (fields, bs) ← readFields count bs
    let templates ← readTemplates turns bs
    return (id, fields) :: templates

def learn (known : Templates) (templates : List (ℕ × List (ℕ × ℕ))) : Templates :=
  templates.foldl (fun known t => Function.update known t.1 (some t.2)) known

/-! ### Flows -/

/-- What a record says of its flow.  The times are those of the protocol. -/
structure Exported where
  family : Family
  (srcAddr dstAddr : List UInt8)
  (srcPort dstPort protocol tos tcpFlags inputIf outputIf bytes packets start stop : ℕ)

/-- The value of an information element. -/
def valueOf (values : List (ℕ × List UInt8)) (id : ℕ) : Option (List UInt8) :=
  (values.find? fun v => v.1 = id).map Prod.snd

/-- The family of a record is that of the addresses it has. -/
def decodeAddrs (values : List (ℕ × List UInt8)) : Option (Family × List UInt8 × List UInt8) :=
  match valueOf values ieSourceIpv6Address with
  | some src => do
    let dst ← valueOf values ieDestinationIpv6Address
    return (.inet6, src, dst)
  | none => do
    let src ← valueOf values ieSourceIpv4Address
    let dst ← valueOf values ieDestinationIpv4Address
    return (.inet, src, dst)

/-- The value of the first element if the record has it, or else of the second. -/
def valueOfEither (values : List (ℕ × List UInt8)) (id id' : ℕ) : Option ℕ :=
  ((valueOf values id).or (valueOf values id')).map ofBE

/-- The flow of a record, its elements found by their ids. -/
def decodeFlow (values : List (ℕ × List UInt8)) : Option Exported := do
  let (family, srcAddr, dstAddr) ← decodeAddrs values
  let srcPort ← valueOf values ieSourceTransportPort
  let dstPort ← valueOf values ieDestinationTransportPort
  let protocol ← valueOf values ieProtocolIdentifier
  let tos ← valueOf values ieIpClassOfService
  let tcpFlags ← valueOf values ieTcpControlBits
  let inputIf ← valueOf values ieIngressInterface
  let outputIf ← valueOf values ieEgressInterface
  let bytes ← valueOf values ieOctetDeltaCount
  let packets ← valueOf values iePacketDeltaCount
  let start ← valueOfEither values ieFlowStartMilliseconds ieFlowStartSysUpTime
  let stop ← valueOfEither values ieFlowEndMilliseconds ieFlowEndSysUpTime
  return ⟨family, srcAddr, dstAddr, ofBE srcPort, ofBE dstPort, ofBE protocol, ofBE tos,
    ofBE tcpFlags, ofBE inputIf, ofBE outputIf, ofBE bytes, ofBE packets, start, stop⟩

/-- The sets of a message in their order: templates are learned, and data sets read by what was
    learned.  A data set of no known template cannot be read, and other sets are skipped. -/
def collectSets (version : ℕ) : Templates → List RawSet → Option (List Exported × Templates)
  | known, [] => some ([], known)
  | known, set :: sets =>
    if set.id = (if version = 10 then ipfixSetTemplate else netflow9FlowsetTemplate) then do
      let templates ← readTemplates set.body.length set.body
      collectSets version (learn known templates) sets
    else if 256 ≤ set.id then do
      let fields ← known set.id
      let flows ← (readRecords fields set.body.length set.body).mapM decodeFlow
      let (more, known) ← collectSets version known sets
      return (flows ++ more, known)
    else collectSets version known sets

/-- A datagram arrives. -/
def collect (known : Templates) (bytes : List UInt8) : Option (List Exported × Templates) := do
  let message ← readMessage bytes
  collectSets message.version known message.sets

/-- Datagrams arrive one after the other. -/
def collectAll : Templates → List (List UInt8) → Option (List Exported × Templates)
  | known, [] => some ([], known)
  | known, bytes :: more => do
    let (flows, known) ← collect known bytes
    let (later, known) ← collectAll known more
    return (flows ++ later, known)

/-- What is to be recovered of a flow. -/
def exported (protocol : ℤ) (bootTimeMs : UInt64) (flow : Flow) : Exported where
  family := flow.family
  srcAddr := addrBytes flow.family flow.srcAddr
  dstAddr := addrBytes flow.family flow.dstAddr
  srcPort := flow.srcPort.toNat
  dstPort := flow.dstPort.toNat
  protocol := flow.protocol.toNat
  tos := flow.tos.toNat
  tcpFlags := flow.tcpFlags.toNat
  inputIf := flow.inputIf.toNat
  outputIf := flow.outputIf.toNat
  bytes := flow.bytes.toNat
  packets := flow.packets.toNat
  start := if protocol = protocolIpfix then flow.firstSwitchedMs.toNat
    else (flow.firstSwitchedMs.toNat - bootTimeMs.toNat) % 2 ^ 32
  stop := if protocol = protocolIpfix then flow.lastSwitchedMs.toNat
    else (flow.lastSwitchedMs.toNat - bootTimeMs.toNat) % 2 ^ 32

/-! ### Sets are read back -/

theorem readSets_setBytes {id : ℕ} {body : List UInt8} (hid : id < 65536)
    (hbody : 4 + body.length < 65536) (turns : ℕ) (rest : List UInt8) :
    readSets (turns + 1) (setBytes id body ++ rest) =
      (readSets turns rest).map fun sets => ⟨id, body⟩ :: sets := by
  have hbytes : setBytes id body ++ rest =
      toBE 2 id ++ (toBE 2 (4 + body.length) ++ (body ++ rest)) := by
    simp only [setBytes, List.append_assoc]
  have hne : setBytes id body ++ rest ≠ [] := by
    intro hnil
    have := congrArg List.length hnil
    rw [List.length_append, setBytes_length] at this
    simp at this
  obtain ⟨b, bs, hcons⟩ := List.exists_cons_of_ne_nil hne
  rw [hcons, readSets, ← hcons, hbytes, takeBE_append_of_lt (by norm_num; omega)]
  dsimp only [bind_eq_bind, bind_some]
  rw [takeBE_append_of_lt (by norm_num; omega)]
  dsimp only [bind_some]
  have hsub : 4 + body.length - 4 = body.length := by omega
  rw [if_neg (by omega), hsub, takeBytes_append rfl]
  dsimp only [bind_some]
  · cases readSets turns rest <;> rfl
  · exact List.cons_ne_nil b bs

theorem readFields_flatMap {fields : List Field} (rest : List UInt8)
    (hsmall : ∀ f ∈ fields, f.id < 65536 ∧ f.length < 65536) :
    readFields fields.length (fields.flatMap fieldBE ++ rest) =
      some (fields.map fun f => (f.id, f.length), rest) := by
  induction fields with
  | nil => rfl
  | cons f fields ih =>
    obtain ⟨hid, hlength⟩ := hsmall f List.mem_cons_self
    have hbytes : (f :: fields).flatMap fieldBE ++ rest =
        toBE 2 f.id ++ (toBE 2 f.length ++ (fields.flatMap fieldBE ++ rest)) := by
      simp only [List.flatMap_cons, fieldBE, List.append_assoc]
    rw [hbytes, List.length_cons, readFields, takeBE_append_of_lt hid]
    dsimp only [bind_eq_bind, bind_some]
    rw [takeBE_append_of_lt hlength]
    dsimp only [bind_some]
    rw [ih fun g hg => hsmall g (List.mem_cons_of_mem _ hg)]
    rfl

/-- The layout a template announces. -/
def announced (protocol : ℤ) (family : Family) : List (ℕ × ℕ) :=
  (templateFields protocol family).map fun f => (f.id, f.length)

theorem templateFields_small (protocol : ℤ) (family : Family) :
    ∀ f ∈ templateFields protocol family, f.id < 65536 ∧ f.length < 65536 := by
  unfold templateFields timeStartId timeEndId timeFieldLength
  by_cases hprotocol : protocol = protocolIpfix <;> cases family <;> simp only [hprotocol] <;> decide

theorem templateIdFor_lt (family : Family) : templateIdFor family < 65536 := by
  cases family <;> decide

/-- The template set announces the fields of the table and the times. -/
theorem readTemplates_templateBody (protocol : ℤ) (family : Family) :
    readTemplates (templateBody protocol family).length (templateBody protocol family) =
      some [(templateIdFor family, announced protocol family)] := by
  have hcount : (templateFields protocol family).length = 13 := by cases family <;> rfl
  have hlength : (templateBody protocol family).length = 56 := by
    have := templateSet_length protocol family
    rw [templateSet, setBytes_length] at this
    omega
  have hfields := readFields_flatMap [] (templateFields_small protocol family)
  rw [List.append_nil] at hfields
  obtain ⟨b, bs, hcons⟩ := List.exists_cons_of_ne_nil
    (List.ne_nil_of_length_pos (by rw [hlength]; decide) : templateBody protocol family ≠ [])
  rw [hlength, hcons, readTemplates, ← hcons, templateBody,
    takeBE_append_of_lt (by have := templateIdFor_lt family; norm_num; omega)]
  dsimp only [bind_eq_bind, bind_some]
  rw [takeBE_append_of_lt (by rw [hcount]; decide)]
  dsimp only [bind_some]
  rw [hfields]
  · rfl
  · exact List.cons_ne_nil b bs

/-! ### Records are read back -/

/-- The values of a record by their ids. -/
def recordValues (protocol : ℤ) (bootTimeMs : UInt64) (flow : Flow) : List (ℕ × List UInt8) :=
  (match flow.family with
    | .inet6 => [(ieSourceIpv6Address, addrBytes .inet6 flow.srcAddr),
        (ieDestinationIpv6Address, addrBytes .inet6 flow.dstAddr)]
    | .inet => [(ieSourceIpv4Address, addrBytes .inet flow.srcAddr),
        (ieDestinationIpv4Address, addrBytes .inet flow.dstAddr)]) ++
  [(ieSourceTransportPort, toBE 2 flow.srcPort.toNat),
    (ieDestinationTransportPort, toBE 2 flow.dstPort.toNat),
    (ieProtocolIdentifier, [flow.protocol]), (ieIpClassOfService, [flow.tos]),
    (ieTcpControlBits, [flow.tcpFlags]), (ieIngressInterface, toBE 4 flow.inputIf.toNat),
    (ieEgressInterface, toBE 4 flow.outputIf.toNat), (ieOctetDeltaCount, toBE 8 flow.bytes.toNat),
    (iePacketDeltaCount, toBE 8 flow.packets.toNat)] ++
  if protocol = protocolIpfix then
    [(ieFlowStartMilliseconds, toBE 8 flow.firstSwitchedMs.toNat),
      (ieFlowEndMilliseconds, toBE 8 flow.lastSwitchedMs.toNat)]
  else
    [(ieFlowStartSysUpTime, toBE 4 (sinceBoot bootTimeMs flow.firstSwitchedMs).toUInt32.toNat),
      (ieFlowEndSysUpTime, toBE 4 (sinceBoot bootTimeMs flow.lastSwitchedMs).toUInt32.toNat)]

/-- The record encoder writes the values in their order. -/
theorem flat_recordValues (protocol : ℤ) (bootTimeMs : UInt64) (flow : Flow) :
    flat (recordValues protocol bootTimeMs flow) = record protocol bootTimeMs flow := by
  unfold recordValues record timeBytes
  cases hfamily : flow.family <;> by_cases hprotocol : protocol = protocolIpfix <;>
    simp [hprotocol, flat]

/-- The values have the ids and lengths the template announces. -/
theorem layout_recordValues (protocol : ℤ) (bootTimeMs : UInt64) (flow : Flow) :
    layout (recordValues protocol bootTimeMs flow) = announced protocol flow.family := by
  unfold recordValues announced templateFields timeStartId timeEndId timeFieldLength
  cases hfamily : flow.family <;> by_cases hprotocol : protocol = protocolIpfix <;>
    simp [hprotocol, layout, fieldsFor, fieldsV4, fieldsV6, addrBytes_length]

theorem sinceBoot_toNat (bootTimeMs ms : UInt64) :
    (sinceBoot bootTimeMs ms).toUInt32.toNat = (ms.toNat - bootTimeMs.toNat) % 2 ^ 32 := by
  unfold sinceBoot
  split
  · rename_i h
    have hlt : bootTimeMs.toNat < ms.toNat := UInt64.lt_iff_toNat_lt.mp h
    rw [UInt64.toNat_toUInt32, UInt64.toNat_sub_of_le _ _ (UInt64.le_iff_toNat_le.mpr hlt.le)]
  · rename_i h
    have hle : ms.toNat ≤ bootTimeMs.toNat := by
      by_contra hlt
      exact h (UInt64.lt_iff_toNat_lt.mpr (by omega))
    rw [Nat.sub_eq_zero_of_le hle]
    rfl

/-- **A record is read back into its flow.** -/
theorem decodeFlow_recordValues (protocol : ℤ) (bootTimeMs : UInt64) (flow : Flow) :
    decodeFlow (recordValues protocol bootTimeMs flow) =
      some (exported protocol bootTimeMs flow) := by
  have hbyte : ∀ b : UInt8, ofBE [b] = b.toNat := fun b => by simp [ofBE, ofLE]
  have h16 : ∀ v : UInt16, ofBE (toBE 2 v.toNat) = v.toNat := fun v =>
    ofBE_toBE_of_lt (by have := v.toNat_lt; norm_num; omega)
  have h32 : ∀ v : UInt32, ofBE (toBE 4 v.toNat) = v.toNat := fun v =>
    ofBE_toBE_of_lt (by have := v.toNat_lt; norm_num; omega)
  have h64 : ∀ v : UInt64, ofBE (toBE 8 v.toNat) = v.toNat := fun v =>
    ofBE_toBE_of_lt (by have := v.toNat_lt; norm_num; omega)
  have htime : ∀ ms, ofBE (toBE 4 ((sinceBoot bootTimeMs ms).toNat % 4294967296)) =
      (ms.toNat - bootTimeMs.toNat) % 4294967296 := fun ms => by
    have hvalue := (h32 (sinceBoot bootTimeMs ms).toUInt32).trans (sinceBoot_toNat bootTimeMs ms)
    simpa using hvalue
  -- the elements are found by their ids; what is left are the values in them
  have hfind : ∀ id value values id', valueOf ((id, value) :: values) id' =
      if id = id' then some value else valueOf values id' := by
    intro id value values id'
    unfold valueOf
    rw [List.find?_cons]
    by_cases heq : id = id' <;> simp [heq]
  have hnone : ∀ id, valueOf [] id = none := fun _ => rfl
  unfold recordValues exported decodeFlow decodeAddrs valueOfEither
  cases hfamily : flow.family <;> by_cases hprotocol : protocol = protocolIpfix <;>
    simp [hprotocol, hfind, hnone, hbyte, h16, h32, h64, htime, ieSourceIpv6Address,
      ieDestinationIpv6Address, ieSourceIpv4Address, ieDestinationIpv4Address,
      ieSourceTransportPort, ieDestinationTransportPort, ieProtocolIdentifier, ieIpClassOfService,
      ieTcpControlBits, ieIngressInterface, ieEgressInterface, ieOctetDeltaCount,
      iePacketDeltaCount, ieFlowStartMilliseconds, ieFlowStartSysUpTime, ieFlowEndMilliseconds,
      ieFlowEndSysUpTime]

variable {flows : List Flow} {family : Family}

theorem readRecords_record {protocol : ℤ} {bootTimeMs : UInt64}
    (hfamily : ∀ flow ∈ flows, flow.family = family) :
    readRecords (announced protocol family) (flows.flatMap (record protocol bootTimeMs)).length
      (flows.flatMap (record protocol bootTimeMs)) =
        flows.map (recordValues protocol bootTimeMs) := by
  have hpos : ∃ f ∈ announced protocol family, 0 < f.2 := by
    unfold announced templateFields
    cases family
    · exact ⟨(8, 4), by simp [fieldsFor, fieldsV4, ieSourceIpv4Address], by decide⟩
    · exact ⟨(27, 16), by simp [fieldsFor, fieldsV6, ieSourceIpv6Address], by decide⟩
  have hflat : flows.flatMap (record protocol bootTimeMs) =
      (flows.map (recordValues protocol bootTimeMs)).flatMap flat := by
    rw [List.flatMap_map]
    exact congrArg (flows.flatMap ·) (funext fun flow => (flat_recordValues ..).symm)
  have hone : 1 ≤ recordLength protocol family := by
    unfold recordLength
    cases family <;> simp [fieldsFor, fieldsV4, fieldsV6] <;> omega
  have hcount : (flows.map (recordValues protocol bootTimeMs)).length ≤
      (flows.flatMap (record protocol bootTimeMs)).length := by
    rw [List.length_map, records_length hfamily]
    exact Nat.le_mul_of_pos_right _ hone
  have hlayout : ∀ values ∈ flows.map (recordValues protocol bootTimeMs),
      layout values = announced protocol family := by
    intro values hvalues
    obtain ⟨flow, hflow, rfl⟩ := List.mem_map.mp hvalues
    rw [layout_recordValues, hfamily flow hflow]
  have hread := readRecords_flat hpos hlayout hcount
  rw [← hflat] at hread
  exact hread

theorem mapM_decodeFlow (protocol : ℤ) (bootTimeMs : UInt64) (flows : List Flow) :
    (flows.map (recordValues protocol bootTimeMs)).mapM decodeFlow =
      some (flows.map (exported protocol bootTimeMs)) := by
  induction flows with
  | nil => rfl
  | cons flow flows ih =>
    rw [List.map_cons, List.mapM_cons, decodeFlow_recordValues, ih]
    rfl

/-! ### Datagrams are read back -/

/-- The sets of a datagram. -/
def rawSets (config : Config) (state : ExportState) (family : Family) (flows : List Flow)
    (includeTemplate : Bool) : List RawSet :=
  (if includeTemplate then [⟨setIdTemplate config.protocol, templateBody config.protocol family⟩]
    else []) ++
  [⟨templateIdFor family, flows.flatMap (record config.protocol state.bootTimeMs)⟩]

theorem setIdTemplate_lt (protocol : ℤ) : setIdTemplate protocol < 256 := by
  unfold setIdTemplate
  split <;> decide

theorem readSets_sets {config : Config} {state : ExportState} {family : Family}
    {flows : List Flow} {includeTemplate : Bool}
    (hsize : (sets config state family flows includeTemplate).length < 65536) :
    readSets (sets config state family flows includeTemplate).length
      (sets config state family flows includeTemplate) =
        some (rawSets config state family flows includeTemplate) := by
  have hdata : (dataSet config.protocol family state.bootTimeMs flows).length =
      4 + (flows.flatMap (record config.protocol state.bootTimeMs)).length := setBytes_length _ _
  have htemplate : (templateSet config.protocol family).length =
      4 + (templateBody config.protocol family).length := setBytes_length _ _
  unfold sets rawSets at *
  -- the data set is the last one
  have hlast : ∀ turns, (flows.flatMap (record config.protocol state.bootTimeMs)).length + 4 < 65536 →
      readSets (turns + 1) (dataSet config.protocol family state.bootTimeMs flows) = some
        [⟨templateIdFor family, flows.flatMap (record config.protocol state.bootTimeMs)⟩] := by
    intro turns hlt
    have hread := @readSets_setBytes (templateIdFor family)
      (flows.flatMap (record config.protocol state.bootTimeMs)) (templateIdFor_lt family)
      (by omega) turns []
    rw [List.append_nil] at hread
    rw [dataSet, hread]
    cases turns <;> rfl
  cases includeTemplate with
  | false =>
    simp only [Bool.false_eq_true, if_false, List.nil_append] at hsize ⊢
    rw [hdata, Nat.add_comm]
    exact hlast _ (by omega)
  | true =>
    simp only [if_true, List.length_append] at hsize ⊢
    obtain ⟨turns, hturns⟩ : ∃ t, (templateSet config.protocol family).length +
        (dataSet config.protocol family state.bootTimeMs flows).length = (t + 1) + 1 :=
      ⟨6 + (templateBody config.protocol family).length +
        (flows.flatMap (record config.protocol state.bootTimeMs)).length, by omega⟩
    rw [hturns, templateSet,
      readSets_setBytes (by have := setIdTemplate_lt config.protocol; omega) (by omega),
      hlast _ (by omega)]
    rfl

variable {includeTemplate : Bool} {state : ExportState} {config : Config} {nowMs : UInt64}

/-- **The header of a datagram** says its version, its size and its sequence number, and the sets
    behind it are found by their lengths. -/
theorem readMessage_datagram
    (hprotocol : config.protocol = protocolIpfix ∨ config.protocol = protocolNetflow9)
    (hsize : (datagram config state family flows includeTemplate nowMs).length ≤ maxDatagram)
    (hcount : flows.length < 65535) :
    ∃ message, readMessage (datagram config state family flows includeTemplate nowMs) =
        some message ∧
      message.version = config.protocol.toNat ∧
      message.size = (if config.protocol = protocolIpfix
        then (datagram config state family flows includeTemplate nowMs).length
        else flows.length + if includeTemplate then 1 else 0) ∧
      message.sequence = state.sequence.toNat ∧
      message.sets = rawSets config state family flows includeTemplate := by
  have hle : (datagram config state family flows includeTemplate nowMs).length =
      headerLength config.protocol + (sets config state family flows includeTemplate).length := by
    rw [datagram, List.length_append, header_length]
  have hsets := @readSets_sets config state family flows includeTemplate (by
    unfold maxDatagram at hsize
    omega)
  have h32 : ∀ (v : UInt32) (rest : List UInt8) (f : ℕ × List UInt8 → Option Message),
      (takeBE 4 (toBE 4 v.toNat ++ rest)).bind f = f (v.toNat, rest) := by
    intro v rest f
    have hlt := v.toNat_lt
    rw [takeBE_append_of_lt (by norm_num; omega), bind_some]
  rw [datagram, header, headerRest, headerSize]
  rcases hprotocol with hprotocol | hprotocol
  · have hsmall : 16 + (sets config state family flows includeTemplate).length < 256 ^ 2 := by
      rw [hle, headerLength, if_pos hprotocol] at hsize
      unfold maxDatagram at hsize
      norm_num
      omega
    have hversion : config.protocol.toNat = 10 := by rw [hprotocol]; rfl
    simp only [if_pos hprotocol, hversion, List.append_assoc]
    rw [readMessage, takeBE_append_of_lt (by norm_num)]
    dsimp only [bind_eq_bind, bind_some]
    rw [takeBE_append_of_lt hsmall]
    dsimp only [bind_some]
    rw [if_pos rfl, h32, h32, h32, hsets]
    refine ⟨_, rfl, rfl, ?_, rfl, rfl⟩
    simp only [List.length_append, length_toBE]
    omega
  · have hne : config.protocol ≠ protocolIpfix := by rw [hprotocol]; decide
    have hsmall : flows.length + (if includeTemplate then 1 else 0) < 256 ^ 2 := by
      norm_num
      split <;> omega
    have hversion : config.protocol.toNat = 9 := by rw [hprotocol]; rfl
    simp only [if_neg hne, hversion, List.append_assoc]
    rw [readMessage, takeBE_append_of_lt (by norm_num)]
    dsimp only [bind_eq_bind, bind_some]
    rw [takeBE_append_of_lt hsmall]
    dsimp only [bind_some]
    rw [if_neg (by decide), if_pos rfl, h32, h32, h32, h32, hsets]
    exact ⟨_, rfl, rfl, rfl, rfl, rfl⟩

/-- The table of a collector behind a datagram. -/
def learned (protocol : ℤ) (family : Family) (includeTemplate : Bool) (known : Templates) :
    Templates :=
  if includeTemplate then
    Function.update known (templateIdFor family) (some (announced protocol family))
  else known

/-- **A datagram is read back into its flows**, by a collector that holds the template of their
    family or finds it in the datagram. -/
theorem collect_datagram
    (hprotocol : config.protocol = protocolIpfix ∨ config.protocol = protocolNetflow9)
    (hsize : (datagram config state family flows includeTemplate nowMs).length ≤ maxDatagram)
    (hcount : flows.length < 65535) (hfamily : ∀ flow ∈ flows, flow.family = family)
    {known : Templates} (hknown : includeTemplate = true ∨
      known (templateIdFor family) = some (announced config.protocol family)) :
    collect known (datagram config state family flows includeTemplate nowMs) =
      some (flows.map (exported config.protocol state.bootTimeMs),
        learned config.protocol family includeTemplate known) := by
  obtain ⟨message, hread, hversion, -, -, hsets⟩ := readMessage_datagram hprotocol hsize hcount
  -- the data set is read by the template of the family
  have hdata : ∀ known : Templates,
      known (templateIdFor family) = some (announced config.protocol family) →
      collectSets message.version known
        [⟨templateIdFor family, flows.flatMap (record config.protocol state.bootTimeMs)⟩] =
          some (flows.map (exported config.protocol state.bootTimeMs), known) := by
    intro known hknown
    have hid : 256 ≤ templateIdFor family := by cases family <;> decide
    have hother : templateIdFor family ≠
        (if message.version = 10 then ipfixSetTemplate else netflow9FlowsetTemplate) := by
      unfold ipfixSetTemplate netflow9FlowsetTemplate
      split <;> omega
    rw [collectSets, if_neg hother, if_pos hid, hknown]
    dsimp only [bind_eq_bind, bind_some]
    rw [readRecords_record hfamily, mapM_decodeFlow]
    dsimp only [bind_some, collectSets]
    rw [List.append_nil]
    rfl
  rw [collect, hread]
  dsimp only [bind_eq_bind, bind_some]
  rw [hsets, rawSets]
  cases includeTemplate with
  | false =>
    rcases hknown with hinclude | hknown
    · cases hinclude
    · exact hdata known hknown
  | true =>
    have hset : setIdTemplate config.protocol =
        (if message.version = 10 then ipfixSetTemplate else netflow9FlowsetTemplate) := by
      rw [hversion, setIdTemplate]
      rcases hprotocol with hprotocol | hprotocol <;> rw [hprotocol] <;> rfl
    show collectSets message.version known (_ :: [_]) = _
    rw [collectSets, if_pos hset]
    dsimp only
    rw [readTemplates_templateBody]
    dsimp only [bind_eq_bind, bind_some]
    exact hdata _ (Function.update_self ..)

end DreamingOS.Export
