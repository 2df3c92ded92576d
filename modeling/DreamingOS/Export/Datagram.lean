import DreamingOS.Export.Encode

namespace DreamingOS.Export

open Bytes List

/-!
# Flow export — the bytes of a datagram

What the encoders write, as one expression, with every length in its place.

* `Wrote` — what a series of writes comes to: the bytes are appended, if they all fit;
* `templateSet`, `record`, `dataSet`, `header`, `datagram` — the parts of a datagram;
* `encodeDatagram_eq` — **the encoder writes `datagram`**, or nothing where it does not fit;
* `datagram_le` — a batch of at most `flowsPerDatagram` flows does fit.
-/

/-! ### Writes -/

/-- `w'` is `w` behind the writes of `bs`. -/
structure Wrote (w w' : Writer) (bs : List UInt8) : Prop where
  len : w'.len = w.len
  fits : w'.overflow = false ↔ w.overflow = false ∧ w.bytes.length + bs.length ≤ w.len
  bytes : w'.overflow = false → w'.bytes = w.bytes ++ bs

theorem Wrote.put (w : Writer) (bs : List UInt8) : Wrote w (w.put bs) bs := by
  unfold Writer.put
  split
  · rename_i h
    refine ⟨rfl, ?_, fun hov => by cases hov⟩
    simp only [Bool.or_eq_true, decide_eq_true_eq] at h
    constructor
    · intro hov
      cases hov
    · rintro ⟨hov, hle⟩
      rcases h with h | h
      · rw [hov] at h
        cases h
      · omega
  · rename_i h
    simp only [Bool.or_eq_true, decide_eq_true_eq, not_or, Bool.not_eq_true, not_lt] at h
    exact ⟨rfl, ⟨fun _ => h, fun _ => h.1⟩, fun _ => rfl⟩

theorem Wrote.refl (w : Writer) (h : w.overflow = true ∨ w.bytes.length ≤ w.len) :
    Wrote w w [] := by
  refine ⟨rfl, ?_, fun _ => (append_nil _).symm⟩
  constructor
  · intro hov
    rcases h with h | h
    · rw [hov] at h
      cases h
    · exact ⟨hov, by simpa using h⟩
  · exact fun hov => hov.1

variable {as bs : List UInt8} {w' : Writer}

theorem Wrote.trans {w w'' : Writer} (h : Wrote w w' as)
    (h' : Wrote w' w'' bs) : Wrote w w'' (as ++ bs) := by
  have hfits : w''.overflow = false ↔
      w.overflow = false ∧ w.bytes.length + (as ++ bs).length ≤ w.len := by
    rw [h'.fits, length_append, h'.len.symm.trans h'.len, h.len]
    constructor
    · rintro ⟨hov, hle⟩
      rw [h.bytes hov, length_append] at hle
      exact ⟨(h.fits.mp hov).1, by omega⟩
    · rintro ⟨hov, hle⟩
      have hov' := h.fits.mpr ⟨hov, by omega⟩
      rw [h.bytes hov', length_append]
      exact ⟨hov', by omega⟩
  refine ⟨h'.len.trans h.len, hfits, fun hov => ?_⟩
  rw [h'.bytes hov, h.bytes (h'.fits.mp hov).1, append_assoc]

/-- A loop of writes. -/
theorem Wrote.foldl {α : Type} {write : Writer → α → Writer} {enc : α → List UInt8}
    (hwrite : ∀ w a, Wrote w (write w a) (enc a)) (items : List α) (w : Writer)
    (h : w.overflow = true ∨ w.bytes.length ≤ w.len) :
    Wrote w (items.foldl write w) (items.flatMap enc) := by
  induction items generalizing w with
  | nil => exact Wrote.refl w h
  | cons a items ih =>
    have hfirst := hwrite w a
    have hstart : (write w a).overflow = true ∨ (write w a).bytes.length ≤ (write w a).len := by
      cases hov : (write w a).overflow with
      | true => exact .inl rfl
      | false =>
        rw [hfirst.bytes hov, hfirst.len, length_append]
        exact .inr (hfirst.fits.mp hov).2
    exact hfirst.trans (ih (write w a) hstart)

theorem ofNat_mod_256 (v : ℕ) : UInt8.ofNat (v % 256) = UInt8.ofNat v := by
  apply UInt8.toNat_inj.mp
  rw [UInt8.toNat_ofNat', UInt8.toNat_ofNat']
  omega

theorem toBE_two (v : ℕ) : toBE 2 v = [UInt8.ofNat (v / 256), UInt8.ofNat v] := by
  show [UInt8.ofNat (v / 256 % 256), UInt8.ofNat (v % 256)] = _
  rw [ofNat_mod_256, ofNat_mod_256]

variable {w : Writer}

/-- A patch of two bytes behind `pre`. -/
theorem patchU16_append {pre post : List UInt8} {at' v v' : ℕ}
    (hbytes : w.bytes = pre ++ (toBE 2 v' ++ post)) (hat : pre.length = at') :
    w.patchU16 at' v = { w with bytes := pre ++ (toBE 2 v ++ post) } := by
  subst hat
  rw [Writer.patchU16, hbytes, toBE_two, toBE_two]
  congr 1
  simp

/-! ### The parts -/

def setIdTemplate (protocol : ℤ) : ℕ :=
  if protocol = protocolIpfix then ipfixSetTemplate else netflow9FlowsetTemplate

/-- The fields a template announces: the table, then the two times. -/
def templateFields (protocol : ℤ) (family : Family) : List Field :=
  fieldsFor family ++
    [⟨timeStartId protocol, timeFieldLength protocol⟩, ⟨timeEndId protocol, timeFieldLength protocol⟩]

def fieldBE (f : Field) : List UInt8 := toBE 2 f.id ++ toBE 2 f.length

/-- A template set behind its length. -/
def templateBody (protocol : ℤ) (family : Family) : List UInt8 :=
  toBE 2 (templateIdFor family) ++ (toBE 2 (templateFields protocol family).length ++
    (templateFields protocol family).flatMap fieldBE)

/-- A set: its id, its length, its content. -/
def setBytes (id : ℕ) (body : List UInt8) : List UInt8 :=
  toBE 2 id ++ (toBE 2 (4 + body.length) ++ body)

def templateSet (protocol : ℤ) (family : Family) : List UInt8 :=
  setBytes (setIdTemplate protocol) (templateBody protocol family)

/-- The two times of a record. -/
def timeBytes (protocol : ℤ) (bootTimeMs : UInt64) (flow : Flow) : List UInt8 :=
  if protocol = protocolIpfix then
    toBE 8 flow.firstSwitchedMs.toNat ++ toBE 8 flow.lastSwitchedMs.toNat
  else
    toBE 4 (sinceBoot bootTimeMs flow.firstSwitchedMs).toUInt32.toNat ++
      toBE 4 (sinceBoot bootTimeMs flow.lastSwitchedMs).toUInt32.toNat

def record (protocol : ℤ) (bootTimeMs : UInt64) (flow : Flow) : List UInt8 :=
  addrBytes flow.family flow.srcAddr ++ (addrBytes flow.family flow.dstAddr ++
    (toBE 2 flow.srcPort.toNat ++ (toBE 2 flow.dstPort.toNat ++
    ([flow.protocol] ++ ([flow.tos] ++ ([flow.tcpFlags] ++ (toBE 4 flow.inputIf.toNat ++
    (toBE 4 flow.outputIf.toNat ++ (toBE 8 flow.bytes.toNat ++ (toBE 8 flow.packets.toNat ++
    timeBytes protocol bootTimeMs flow))))))))))

def dataSet (protocol : ℤ) (family : Family) (bootTimeMs : UInt64) (flows : List Flow) :
    List UInt8 :=
  setBytes (templateIdFor family) (flows.flatMap (record protocol bootTimeMs))

/-- A header behind the version and, for IPFIX, the length. -/
def headerRest (config : Config) (state : ExportState) (nowMs : UInt64) : List UInt8 :=
  if config.protocol = protocolIpfix then
    toBE 4 (nowMs / 1000).toUInt32.toNat ++ (toBE 4 state.sequence.toNat ++
      toBE 4 config.observationDomain.toNat)
  else
    toBE 4 (nowMs - state.bootTimeMs).toUInt32.toNat ++ (toBE 4 (nowMs / 1000).toUInt32.toNat ++
      (toBE 4 state.sequence.toNat ++ toBE 4 config.observationDomain.toNat))

/-- A header with `size` in its second field: the length of an IPFIX message, the number of records
    of a v9 one. -/
def header (config : Config) (state : ExportState) (nowMs : UInt64) (size : ℕ) : List UInt8 :=
  toBE 2 config.protocol.toNat ++ (toBE 2 size ++ headerRest config state nowMs)

/-- The sets of a datagram. -/
def sets (config : Config) (state : ExportState) (family : Family) (flows : List Flow)
    (includeTemplate : Bool) : List UInt8 :=
  (if includeTemplate then templateSet config.protocol family else []) ++
    dataSet config.protocol family state.bootTimeMs flows

def headerLength (protocol : ℤ) : ℕ := if protocol = protocolIpfix then 16 else 20

/-- What the second field of a header says. -/
def headerSize (config : Config) (body : List UInt8) (count : ℕ) (includeTemplate : Bool) : ℕ :=
  if config.protocol = protocolIpfix then 16 + body.length
  else count + if includeTemplate then 1 else 0

def datagram (config : Config) (state : ExportState) (family : Family) (flows : List Flow)
    (includeTemplate : Bool) (nowMs : UInt64) : List UInt8 :=
  let body := sets config state family flows includeTemplate
  header config state nowMs (headerSize config body flows.length includeTemplate) ++ body

theorem header_length (config : Config) (state : ExportState) (nowMs : UInt64) (size : ℕ) :
    (header config state nowMs size).length = headerLength config.protocol := by
  unfold header headerRest headerLength
  split <;> simp

/-! ### Lengths -/

theorem addrBytes_length (family : Family) (addr : List.Vector UInt8 16) :
    (addrBytes family addr).length = if family = .inet6 then 16 else 4 := by
  rw [addrBytes, length_take, Vector.toList_length]
  split <;> rfl

theorem record_length (protocol : ℤ) (bootTimeMs : UInt64) (flow : Flow) :
    (record protocol bootTimeMs flow).length = recordLength protocol flow.family := by
  unfold record timeBytes recordLength timeFieldLength
  simp only [length_append, addrBytes_length, length_toBE, length_singleton]
  by_cases hprotocol : protocol = protocolIpfix <;> cases flow.family <;>
    simp [hprotocol, fieldsFor, fieldsV4, fieldsV6]

variable {flows : List Flow} {family : Family} {protocol : ℤ}

theorem records_length {bootTimeMs : UInt64} (h : ∀ flow ∈ flows, flow.family = family) :
    (flows.flatMap (record protocol bootTimeMs)).length =
      flows.length * recordLength protocol family := by
  induction flows with
  | nil => simp
  | cons flow flows ih =>
    rw [flatMap_cons, length_append, record_length, h flow mem_cons_self,
      ih fun f hf => h f (mem_cons_of_mem _ hf), length_cons, Nat.succ_mul, Nat.add_comm]

theorem setBytes_length (id : ℕ) (body : List UInt8) :
    (setBytes id body).length = 4 + body.length := by
  unfold setBytes
  simp only [length_append, length_toBE]
  omega

theorem templateSet_length (protocol : ℤ) (family : Family) :
    (templateSet protocol family).length = 60 := by
  rw [templateSet, setBytes_length]
  cases family <;>
    simp [templateBody, templateFields, fieldsFor, fieldsV4, fieldsV6, fieldBE]

/-! ### The encoders write the parts -/

theorem Wrote.of_eq {w : Writer} (h : Wrote w w' as) (heq : as = bs) : Wrote w w' bs := heq ▸ h

/-- A writer that did not overflow has nothing past its end. -/
def Writer.Sound (w : Writer) : Prop := w.overflow = true ∨ w.bytes.length ≤ w.len

theorem Wrote.sound {w : Writer} (h : Wrote w w' bs) : w'.Sound := by
  cases hov : w'.overflow with
  | true => exact .inl hov
  | false =>
    right
    rw [h.bytes hov, h.len, length_append]
    exact (h.fits.mp hov).2

/-- The writes of a template set, its length still zero. -/
theorem encodeTemplateSet_wrote (protocol : ℤ) (family : Family) (w : Writer) :
    ∃ w', Wrote w w' (toBE 2 (setIdTemplate protocol) ++
        (toBE 2 0 ++ templateBody protocol family)) ∧
      encodeTemplateSet protocol family w = if w'.overflow then none
        else some (w'.patchU16 (w.bytes.length + 2) (w'.bytes.length - w.bytes.length)) := by
  have hfield : ∀ (w : Writer) (f : Field),
      Wrote w ((w.putU16 f.id).putU16 f.length) (fieldBE f) := fun w f =>
    (Wrote.put w _).trans (Wrote.put _ _)
  have hhead := (((Wrote.put w (toBE 2 (setIdTemplate protocol))).trans
    (Wrote.put _ (toBE 2 0))).trans (Wrote.put _ (toBE 2 (templateIdFor family)))).trans
      (Wrote.put _ (toBE 2 ((fieldsFor family).length + 2)))
  have hfields := hhead.trans (Wrote.foldl hfield (fieldsFor family) _ hhead.sound)
  have htimes := (((hfields.trans (Wrote.put _ (toBE 2 (timeStartId protocol)))).trans
    (Wrote.put _ (toBE 2 (timeFieldLength protocol)))).trans
      (Wrote.put _ (toBE 2 (timeEndId protocol)))).trans
        (Wrote.put _ (toBE 2 (timeFieldLength protocol)))
  refine ⟨_, htimes.of_eq ?_, rfl⟩
  simp [templateBody, templateFields, fieldBE]

theorem encodeTemplateSet_eq (protocol : ℤ) (family : Family) (hov : w.overflow = false) :
    encodeTemplateSet protocol family w =
      if w.bytes.length + (templateSet protocol family).length ≤ w.len then
        some { w with bytes := w.bytes ++ templateSet protocol family }
      else none := by
  obtain ⟨w', hwrote, heq⟩ := encodeTemplateSet_wrote protocol family w
  have hlength : (toBE 2 (setIdTemplate protocol) ++
      (toBE 2 0 ++ templateBody protocol family)).length =
      (templateSet protocol family).length := by
    rw [templateSet, setBytes_length]
    simp only [length_append, length_toBE]
    omega
  have hfits := hwrote.fits
  rw [hlength] at hfits
  rw [heq]
  cases hov' : w'.overflow with
  | true =>
    rw [if_pos rfl, if_neg]
    intro hle
    rw [hfits.mpr ⟨hov, hle⟩] at hov'
    cases hov'
  | false =>
    rw [if_neg Bool.false_ne_true, if_pos (hfits.mp hov').2]
    have hbytes := hwrote.bytes hov'
    have hbytes' : w'.bytes = (w.bytes ++ toBE 2 (setIdTemplate protocol)) ++
        (toBE 2 0 ++ templateBody protocol family) := by
      rw [hbytes, append_assoc]
    rw [patchU16_append hbytes' (by rw [length_append, length_toBE])]
    have hsize : w'.bytes.length - w.bytes.length = 4 + (templateBody protocol family).length := by
      rw [hbytes]
      simp only [length_append, length_toBE]
      omega
    rw [hsize, hwrote.len, hov', ← hov, append_assoc]
    rfl

theorem encodeOneRecord_wrote (protocol : ℤ) (bootTimeMs : UInt64) (w : Writer) (flow : Flow) :
    Wrote w (encodeOneRecord protocol flow bootTimeMs w) (record protocol bootTimeMs flow) := by
  have hkey := ((((((((((Wrote.put w (addrBytes flow.family flow.srcAddr)).trans
    (Wrote.put _ (addrBytes flow.family flow.dstAddr))).trans
    (Wrote.put _ (toBE 2 flow.srcPort.toNat))).trans (Wrote.put _ (toBE 2 flow.dstPort.toNat))).trans
    (Wrote.put _ [flow.protocol])).trans (Wrote.put _ [flow.tos])).trans
    (Wrote.put _ [flow.tcpFlags])).trans (Wrote.put _ (toBE 4 flow.inputIf.toNat))).trans
    (Wrote.put _ (toBE 4 flow.outputIf.toNat))).trans (Wrote.put _ (toBE 8 flow.bytes.toNat))).trans
    (Wrote.put _ (toBE 8 flow.packets.toNat))
  unfold encodeOneRecord record timeBytes
  by_cases hprotocol : protocol = protocolIpfix
  · rw [if_pos hprotocol, if_pos hprotocol]
    refine ((hkey.trans (Wrote.put _ _)).trans (Wrote.put _ _)).of_eq ?_
    simp
  · rw [if_neg hprotocol, if_neg hprotocol]
    refine ((hkey.trans (Wrote.put _ _)).trans (Wrote.put _ _)).of_eq ?_
    simp

theorem encodeHeader_wrote (config : Config) (state : ExportState) (count : ℕ)
    (includeTemplate : Bool) (nowMs : UInt64) (w : Writer) :
    Wrote w (encodeHeader config state count includeTemplate nowMs w)
      (header config state nowMs (if config.protocol = protocolIpfix then 0
        else count + if includeTemplate then 1 else 0)) := by
  unfold encodeHeader header headerRest
  by_cases hprotocol : config.protocol = protocolIpfix
  · simp only [if_pos hprotocol]
    refine (((((Wrote.put w _).trans (Wrote.put _ _)).trans (Wrote.put _ _)).trans
      (Wrote.put _ _)).trans (Wrote.put _ _)).of_eq ?_
    simp
  · simp only [if_neg hprotocol]
    refine ((((((Wrote.put w _).trans (Wrote.put _ _)).trans (Wrote.put _ _)).trans
      (Wrote.put _ _)).trans (Wrote.put _ _)).trans (Wrote.put _ _)).of_eq ?_
    simp

/-- The template set of a datagram, if it is to carry one. -/
def templatePart (protocol : ℤ) (family : Family) (includeTemplate : Bool) : List UInt8 :=
  if includeTemplate then templateSet protocol family else []

theorem templatePart_cases (protocol : ℤ) (family : Family) (includeTemplate : Bool)
    (hw : w.Sound) :
    (∃ w', (if includeTemplate then encodeTemplateSet protocol family w else some w) = some w' ∧
      Wrote w w' (templatePart protocol family includeTemplate)) ∨
    ((if includeTemplate then encodeTemplateSet protocol family w else some w) = none ∧
      ¬ (w.overflow = false ∧
        w.bytes.length + (templatePart protocol family includeTemplate).length ≤ w.len)) := by
  cases includeTemplate with
  | false => exact .inl ⟨w, rfl, Wrote.refl w hw⟩
  | true =>
    show (∃ w', encodeTemplateSet protocol family w = some w' ∧
      Wrote w w' (templateSet protocol family)) ∨ (encodeTemplateSet protocol family w = none ∧
        ¬ (w.overflow = false ∧ w.bytes.length + (templateSet protocol family).length ≤ w.len))
    cases hov : w.overflow with
    | true =>
      obtain ⟨w', hwrote, heq⟩ := encodeTemplateSet_wrote protocol family w
      have hov' : w'.overflow = true := by
        by_contra hnot
        have := (hwrote.fits.mp (eq_false_of_ne_true hnot)).1
        rw [hov] at this
        cases this
      refine .inr ⟨by rw [heq, if_pos hov'], fun h => ?_⟩
      cases h.1
    | false =>
      rw [encodeTemplateSet_eq protocol family hov]
      by_cases hle : w.bytes.length + (templateSet protocol family).length ≤ w.len
      · rw [if_pos hle]
        refine .inl ⟨_, rfl, rfl, ⟨fun _ => ⟨hov, hle⟩, fun _ => hov⟩, fun _ => rfl⟩
      · rw [if_neg hle]
        exact .inr ⟨rfl, fun h => hle h.2⟩

theorem datagram_length (config : Config) (state : ExportState) (family : Family)
    (flows : List Flow) (includeTemplate : Bool) (nowMs : UInt64) :
    (datagram config state family flows includeTemplate nowMs).length =
      headerLength config.protocol + (templatePart config.protocol family includeTemplate).length +
        (4 + (flows.flatMap (record config.protocol state.bootTimeMs)).length) := by
  unfold datagram sets templatePart dataSet
  simp only [length_append, header_length, setBytes_length]
  omega

variable {config : Config} {includeTemplate : Bool}

/-- The lengths patched in: that of the data set, and that of an IPFIX message. -/
theorem patched_eq {state : ExportState} {nowMs : UInt64} {w₂ w₃ : Writer}
    (hbytes₂ : w₂.bytes = [] ++ (header config state nowMs (if config.protocol = protocolIpfix then 0
      else flows.length + if includeTemplate then 1 else 0) ++
        templatePart config.protocol family includeTemplate))
    (hbytes₃ : w₃.bytes = w₂.bytes ++ ((toBE 2 (templateIdFor family) ++ toBE 2 0) ++
      flows.flatMap (record config.protocol state.bootTimeMs))) :
    (if config.protocol = protocolIpfix then
        (w₃.patchU16 (w₂.bytes.length + 2) (w₃.bytes.length - w₂.bytes.length)).patchU16 2
          (w₃.patchU16 (w₂.bytes.length + 2) (w₃.bytes.length - w₂.bytes.length)).bytes.length
      else w₃.patchU16 (w₂.bytes.length + 2) (w₃.bytes.length - w₂.bytes.length)).bytes =
      datagram config state family flows includeTemplate nowMs := by
  have hsplit : w₃.bytes = (w₂.bytes ++ toBE 2 (templateIdFor family)) ++
      (toBE 2 0 ++ flows.flatMap (record config.protocol state.bootTimeMs)) := by
    rw [hbytes₃]
    simp only [append_assoc]
  have hsize : w₃.bytes.length - w₂.bytes.length =
      4 + (flows.flatMap (record config.protocol state.bootTimeMs)).length := by
    rw [hbytes₃]
    simp only [length_append, length_toBE]
    omega
  rw [patchU16_append hsplit (by rw [length_append, length_toBE]), hsize]
  have hset : w₂.bytes ++ toBE 2 (templateIdFor family) ++ (toBE 2 (4 +
      (flows.flatMap (record config.protocol state.bootTimeMs)).length) ++
        flows.flatMap (record config.protocol state.bootTimeMs)) =
      w₂.bytes ++ dataSet config.protocol family state.bootTimeMs flows := by
    rw [dataSet, setBytes, append_assoc]
  rw [hset, hbytes₂, nil_append]
  by_cases hprotocol : config.protocol = protocolIpfix
  · simp only [if_pos hprotocol]
    -- the body behind the length of the message
    generalize hbody : templatePart config.protocol family includeTemplate ++
      dataSet config.protocol family state.bootTimeMs flows = body
    have hmessage : ∀ size, header config state nowMs size ++
        templatePart config.protocol family includeTemplate ++
          dataSet config.protocol family state.bootTimeMs flows =
        toBE 2 config.protocol.toNat ++ (toBE 2 size ++ (headerRest config state nowMs ++ body)) := by
      intro size
      rw [header, ← hbody]
      simp only [append_assoc]
    have hlength : (header config state nowMs 0 ++
        templatePart config.protocol family includeTemplate ++
          dataSet config.protocol family state.bootTimeMs flows).length = 16 + body.length := by
      rw [← hbody]
      simp only [length_append, header_length, headerLength, if_pos hprotocol]
      omega
    rw [hlength, hmessage, patchU16_append rfl (length_toBE 2 _)]
    rw [datagram, headerSize, if_pos hprotocol, header, sets, ← templatePart, hbody]
    simp only [append_assoc]
  · simp only [if_neg hprotocol]
    rw [datagram, headerSize, if_neg hprotocol, sets, append_assoc]
    rfl

/-- **The encoder writes `datagram`** and counts it, or, where it does not fit, does nothing. -/
theorem encodeDatagram_eq (state : ExportState) {first : Flow} {rest : List Flow}
    (includeTemplate : Bool) (nowMs : UInt64) (outLen : ℕ)
    (hprotocol : config.protocol = protocolIpfix ∨ config.protocol = protocolNetflow9)
    (hfamily : ∀ flow ∈ rest, flow.family = first.family) :
    encodeDatagram config state (first :: rest) includeTemplate nowMs outLen =
      if (datagram config state first.family (first :: rest) includeTemplate nowMs).length ≤ outLen
      then (some (datagram config state first.family (first :: rest) includeTemplate nowMs),
        state.encoded config.protocol (rest.length + 1) includeTemplate nowMs)
      else (none, state) := by
  have hvalid : ¬ (config.protocol ≠ protocolIpfix ∧ config.protocol ≠ protocolNetflow9) :=
    fun h => hprotocol.elim h.1 h.2
  have hany : ¬ (rest.any fun flow => flow.family ≠ first.family) = true := by
    simp only [List.any_eq_true, decide_eq_true_eq, not_exists, not_and, not_not]
    exact hfamily
  rw [encodeDatagram]
  simp only [if_neg hvalid, if_neg hany]
  rw [datagram_length]
  generalize hflows : first :: rest = flows
  have hcount : rest.length + 1 = flows.length := by rw [← hflows, length_cons]
  rw [hcount]
  -- the header, with the length of an IPFIX message still zero
  have hhead := encodeHeader_wrote config state flows.length includeTemplate nowMs ⟨[], outLen, false⟩
  generalize encodeHeader config state flows.length includeTemplate nowMs ⟨[], outLen, false⟩ = w₁
    at hhead ⊢
  have hlen₁ : w₁.len = outLen := hhead.len
  have hfits₁ := hhead.fits
  simp only [header_length, length_nil, Nat.zero_add, true_and] at hfits₁
  rcases templatePart_cases config.protocol first.family includeTemplate hhead.sound with
    ⟨w₂, heq, htemplate⟩ | ⟨heq, hnot⟩
  · rw [heq]
    dsimp only
    -- the data set, its length still zero
    have hset := (Wrote.put w₂ (toBE 2 (templateIdFor first.family))).trans
      (Wrote.put _ (toBE 2 0))
    have hdata := hset.trans (Wrote.foldl
      (encodeOneRecord_wrote config.protocol state.bootTimeMs) flows _ hset.sound)
    generalize hw₃ : List.foldl _ _ flows = w₃ at hdata
    have hw₃' : List.foldl
        (fun w flow => encodeOneRecord config.protocol flow state.bootTimeMs w)
        ((w₂.putU16 (templateIdFor first.family)).putU16 0) flows = w₃ := hw₃
    rw [hw₃']
    have hall := (hhead.trans htemplate).trans hdata
    have hfits := hall.fits
    simp only [length_append, header_length, length_toBE, length_nil, Nat.zero_add,
      true_and] at hfits
    cases hov : w₃.overflow with
    | true =>
      rw [if_pos rfl, if_neg]
      intro hle
      rw [hfits.mpr (by omega)] at hov
      cases hov
    | false =>
      have hle := hfits.mp hov
      have hle' : headerLength config.protocol +
          (templatePart config.protocol first.family includeTemplate).length +
          (4 + (flows.flatMap (record config.protocol state.bootTimeMs)).length) ≤ outLen := by
        omega
      rw [if_neg Bool.false_ne_true, if_pos hle']
      congr 2
      exact patched_eq (hhead.trans htemplate |>.bytes (hdata.fits.mp hov).1) (hdata.bytes hov)
  · rw [heq]
    dsimp only
    rw [if_neg]
    intro hle
    have hov := hfits₁.mpr (by omega)
    refine hnot ⟨hov, ?_⟩
    rw [hhead.bytes hov, hlen₁]
    simp only [nil_append, header_length]
    omega

/-! ### Capacity -/

/-- The capacity is positive, and so many records fit behind the header and the template. -/
theorem flowsPerDatagram_fits
    (hprotocol : protocol = protocolIpfix ∨ protocol = protocolNetflow9) (family : Family)
    (includeTemplate : Bool) :
    0 < flowsPerDatagram protocol family includeTemplate ∧
      headerLength protocol + (templatePart protocol family includeTemplate).length +
        (4 + flowsPerDatagram protocol family includeTemplate * recordLength protocol family) ≤
          maxDatagram := by
  rcases hprotocol with rfl | rfl <;> cases family <;> cases includeTemplate <;> decide +kernel

/-- A batch within the capacity fits a datagram. -/
theorem datagram_le
    (hprotocol : config.protocol = protocolIpfix ∨ config.protocol = protocolNetflow9)
    (state : ExportState)
    (nowMs : UInt64) (hfamily : ∀ flow ∈ flows, flow.family = family)
    (hcount : flows.length ≤ flowsPerDatagram config.protocol family includeTemplate) :
    (datagram config state family flows includeTemplate nowMs).length ≤ maxDatagram := by
  obtain ⟨-, hfits⟩ := flowsPerDatagram_fits hprotocol family includeTemplate
  have hrecords := Nat.mul_le_mul_right (recordLength config.protocol family) hcount
  rw [datagram_length, records_length hfamily]
  omega

end DreamingOS.Export
