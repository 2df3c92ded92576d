import DreamingOS.Export.Collector
import DreamingOS.Export.Emission

namespace DreamingOS.Export

open List

/-!
# Flow export — nothing is lost

A list of flows is sent as datagrams from which a collector recovers the list.

* `Chained.collected` — a chain is read back into its flows;
* `emit_exact` — **the flows of a call are recovered once each in their order**, from datagrams
  that fit, are of one family each, and say in their headers what they are.
-/

/-- How far a datagram moves the sequence number: by its records or by one. -/
def sequenceStep (config : Config) (a : Attempt) : ℕ :=
  if config.protocol = protocolIpfix then a.batch.length else 1

theorem sequence_after (config : Config) (a : Attempt) : (a.after config).sequence.toNat =
      (a.before.sequence.toNat + sequenceStep config a) % 2 ^ 32 := by
  unfold Attempt.after ExportState.encoded sequenceStep
  split
  · rw [UInt32.toNat_add, UInt32.toNat_ofNat', Nat.add_mod_mod]
  · rw [UInt32.toNat_add]
    rfl

variable {config : Config} {state final : ExportState} {nowMs : UInt64} {a : Attempt}

/-- A datagram is encoded with the number of what was encoded before it. -/
theorem Chained.sequence {pre post : List Attempt}
    (h : Chained config nowMs state (pre ++ a :: post) final) :
    a.before.sequence.toNat =
      (state.sequence.toNat + (pre.map (sequenceStep config)).sum) % 2 ^ 32 := by
  induction pre generalizing state with
  | nil =>
    obtain ⟨hbefore, -, -, -⟩ := h
    rw [hbefore, map_nil, sum_nil, Nat.add_zero, Nat.mod_eq_of_lt state.sequence.toNat_lt]
  | cons b pre ih =>
    obtain ⟨hbefore, -, -, hchain⟩ := h
    rw [ih hchain, sequence_after, hbefore, Nat.mod_add_mod, map_cons, sum_cons, Nat.add_assoc]

variable {as : List Attempt}

theorem Chained.encoded (h : Chained config nowMs state as final) :
    ∀ a ∈ as, a.nowMs = nowMs ∧ ∃ family, a.Encoded config family := by
  induction as generalizing state with
  | nil => exact forall_mem_nil _
  | cons b as ih =>
    obtain ⟨-, hnow, hencoded, hchain⟩ := h
    intro a ha
    rcases mem_cons.mp ha with rfl | ha
    · exact ⟨hnow, hencoded⟩
    · exact ih hchain a ha

/-! ### Datagrams -/

theorem flowsPerDatagram_lt {protocol : ℤ}
    (hprotocol : protocol = protocolIpfix ∨ protocol = protocolNetflow9) (family : Family)
    (includeTemplate : Bool) : flowsPerDatagram protocol family includeTemplate < 65535 := by
  rcases hprotocol with rfl | rfl <;> cases family <;> cases includeTemplate <;> decide +kernel

variable {family : Family}

theorem Attempt.Encoded.le (h : a.Encoded config family)
    (hprotocol : config.protocol = protocolIpfix ∨ config.protocol = protocolNetflow9) :
    a.bytes.length ≤ maxDatagram := by
  rw [h.bytes]
  exact datagram_le hprotocol a.before a.nowMs h.same h.count

theorem Attempt.Encoded.length_lt (h : a.Encoded config family)
    (hprotocol : config.protocol = protocolIpfix ∨ config.protocol = protocolNetflow9) :
    a.batch.length < 65535 :=
  Nat.lt_of_le_of_lt h.count (flowsPerDatagram_lt hprotocol _ _)

/-- The header of a datagram. -/
theorem Attempt.Encoded.header (h : a.Encoded config family)
    (hprotocol : config.protocol = protocolIpfix ∨ config.protocol = protocolNetflow9) :
    ∃ message, readMessage a.bytes = some message ∧ message.version = config.protocol.toNat ∧
      message.size = (if config.protocol = protocolIpfix then a.bytes.length
        else a.batch.length + (message.sets.filter fun set =>
          set.id = netflow9FlowsetTemplate).length) ∧
      message.sequence = a.before.sequence.toNat := by
  have hle := h.le hprotocol
  rw [h.bytes] at hle
  obtain ⟨message, hread, hversion, hsize, hsequence, hsets⟩ :=
    readMessage_datagram hprotocol hle (h.length_lt hprotocol)
  rw [← h.bytes] at hread hsize
  refine ⟨message, hread, hversion, hsize.trans ?_, hsequence⟩
  by_cases hipfix : config.protocol = protocolIpfix
  · rw [if_pos hipfix, if_pos hipfix]
  -- a template set counts for one record
  have hdata : templateIdFor family ≠ netflow9FlowsetTemplate := by cases family <;> decide
  rw [if_neg hipfix, if_neg hipfix, hsets, rawSets]
  cases templateDue config a.before a.nowMs <;> simp [setIdTemplate, hipfix, hdata]

/-! ### The collector -/

/-- The collector holds the template of a family, as the encoder announces it. -/
def Knows (config : Config) (known : Templates) (family : Family) : Prop :=
  known (templateIdFor family) = some (announced config.protocol family)

theorem templateIdFor_injective {family family' : Family}
    (h : templateIdFor family = templateIdFor family') : family = family' := by
  cases family <;> cases family' <;> first | rfl | cases h

variable {known : Templates}

theorem Knows.learned (h : Knows config known family) (family' : Family) (includeTemplate : Bool) :
    Knows config (learned config.protocol family' includeTemplate known) family := by
  unfold Knows Export.learned
  split
  · by_cases hid : templateIdFor family = templateIdFor family'
    · obtain rfl := templateIdFor_injective hid
      rw [Function.update_self]
    · rw [Function.update_of_ne hid]
      exact h
  · exact h

/-- A chain is read back into its flows, by a collector that holds the templates of their families
    but for that of the first one where a template is due. -/
theorem Chained.collected (h : Chained config nowMs state as final)
    (hprotocol : config.protocol = protocolIpfix ∨ config.protocol = protocolNetflow9)
    (hknown : ∀ flow ∈ as.flatMap Attempt.batch, Knows config known flow.family ∨
      (templateDue config state nowMs = true ∧
        ∀ first ∈ (as.flatMap Attempt.batch).head?, flow.family = first.family)) :
    ∃ known', collectAll known (as.map Attempt.bytes) =
      some ((as.flatMap Attempt.batch).map (exported config.protocol state.bootTimeMs), known') := by
  induction as generalizing state known with
  | nil => exact ⟨known, rfl⟩
  | cons a as ih =>
    obtain ⟨hbefore, hnow, ⟨family, hencoded⟩, hchain⟩ := h
    have hle := hencoded.le hprotocol
    rw [hencoded.bytes] at hle
    -- the family of the first flow is that of the batch
    obtain ⟨first, rest, hbatch⟩ := exists_cons_of_ne_nil hencoded.batch
    have hfirst : first.family = family := hencoded.same first (by rw [hbatch]; exact mem_cons_self)
    have hhead : ((a :: as).flatMap Attempt.batch).head? = some first := by
      rw [flatMap_cons, hbatch]
      rfl
    rw [hhead] at hknown
    have hhas : templateDue config a.before a.nowMs = true ∨
        known (templateIdFor family) = some (announced config.protocol family) := by
      rcases hknown first (by rw [flatMap_cons, hbatch]; simp) with hknows | ⟨hdue, -⟩
      · rw [Knows, hfirst] at hknows
        exact .inr hknows
      · rw [hbefore, hnow]
        exact .inl hdue
    have hcollect := collect_datagram hprotocol hle (hencoded.length_lt hprotocol) hencoded.same hhas
    rw [← hencoded.bytes] at hcollect
    -- behind the first datagram the collector holds every template
    have hlater : ∀ flow ∈ as.flatMap Attempt.batch,
        Knows config (Export.learned config.protocol family (templateDue config a.before a.nowMs)
          known) flow.family := by
      intro flow hflow
      rcases hknown flow (by rw [flatMap_cons]; exact mem_append_right _ hflow) with
        hknows | ⟨hdue, hsame⟩
      · exact hknows.learned family _
      · have hfamily : flow.family = family := (hsame first rfl).trans hfirst
        rw [hfamily, hbefore, hnow, Knows, Export.learned, if_pos hdue, Function.update_self]
    obtain ⟨known', hrest⟩ := ih hchain fun flow hflow => .inl (hlater flow hflow)
    have hboot : (a.after config).bootTimeMs = state.bootTimeMs := by rw [← hbefore]; rfl
    refine ⟨known', ?_⟩
    rw [map_cons, collectAll, hcollect]
    dsimp only [Option.bind_eq_bind, Option.bind_some]
    rw [hrest, hboot, hbefore, flatMap_cons, map_append]
    rfl

theorem encodeDatagram_none {state : ExportState} {flows : List Flow}
    {includeTemplate : Bool} {outLen : ℕ}
    (h : (encodeDatagram config state flows includeTemplate nowMs outLen).1 = none) :
    (encodeDatagram config state flows includeTemplate nowMs outLen).2 = state := by
  cases flows with
  | nil => rfl
  | cons first rest =>
    by_cases hvalid : config.protocol ≠ protocolIpfix ∧ config.protocol ≠ protocolNetflow9
    · rw [encodeDatagram, if_pos hvalid]
    by_cases hany : (rest.any fun flow => flow.family ≠ first.family) = true
    · rw [encodeDatagram, if_neg hvalid, if_pos hany]
    have hprotocol : config.protocol = protocolIpfix ∨ config.protocol = protocolNetflow9 := by
      by_contra hnot
      exact hvalid (not_or.mp hnot)
    have hfamily : ∀ flow ∈ rest, flow.family = first.family := by
      simpa only [List.any_eq_true, decide_eq_true_eq, not_exists, not_and, not_not] using hany
    rw [encodeDatagram_eq state includeTemplate nowMs outLen hprotocol hfamily] at h ⊢
    split at h
    · cases h
    · rename_i hle
      rw [if_neg hle]

/-! ### The call -/

/-- **The flows of a call are recovered once each in their order.**  They are cut into datagrams
    that fit, of one family each; the header of each says its version, its size, and how much was
    encoded before it; and a collector that holds the templates, or finds that of the first flow's
    family in the first datagram, reads the flows back.  An encoder that fails changes nothing. -/
theorem emit_exact {config : Config} (henabled : config.enabled = true)
    (hprotocol : config.protocol = protocolIpfix ∨ config.protocol = protocolNetflow9)
    (state : ExportState) {flows : List Flow} (hflows : flows ≠ []) (nowMs : UInt64) :
    let call := emit config (fun _ => true) state flows nowMs
    call.result = some call.attempts.length ∧
    call.attempts.flatMap Attempt.batch = flows ∧
    (∀ a ∈ call.attempts, a.bytes.length ≤ maxDatagram ∧ a.batch ≠ [] ∧
      ∃ family, ∀ flow ∈ a.batch, flow.family = family) ∧
    (∀ pre a post, call.attempts = pre ++ a :: post → ∃ message,
      readMessage a.bytes = some message ∧ message.version = config.protocol.toNat ∧
      message.size = (if config.protocol = protocolIpfix then a.bytes.length
        else a.batch.length + (message.sets.filter fun set =>
          set.id = netflow9FlowsetTemplate).length) ∧
      message.sequence = (state.sequence.toNat + (if config.protocol = protocolIpfix
        then (pre.map fun b => b.batch.length).sum else pre.length)) % 2 ^ 32) ∧
    (∀ known, (∀ flow ∈ flows, Knows config known flow.family ∨
        (templateDue config state nowMs = true ∧
          ∀ first ∈ flows.head?, flow.family = first.family)) →
      ∃ known', collectAll known (call.attempts.map Attempt.bytes) =
        some (flows.map (exported config.protocol state.bootTimeMs), known')) ∧
    (∀ config state flows includeTemplate nowMs outLen,
      (encodeDatagram config state flows includeTemplate nowMs outLen).1 = none →
        (encodeDatagram config state flows includeTemplate nowMs outLen).2 = state) := by
  intro call
  obtain ⟨hresult, hbatches⟩ := emit_complete henabled hprotocol state hflows nowMs
  obtain ⟨hchain, -⟩ := emit_chained config (fun _ => true) state flows nowMs
  refine ⟨hresult, hbatches, ?_, ?_, ?_, fun _ _ _ _ _ _ => encodeDatagram_none⟩
  · intro a ha
    obtain ⟨-, family, hencoded⟩ := hchain.encoded a ha
    exact ⟨hencoded.le hprotocol, hencoded.batch, family, hencoded.same⟩
  · intro pre a post hsplit
    have ha : a ∈ call.attempts := by
      rw [hsplit]
      exact mem_append_right _ mem_cons_self
    obtain ⟨-, family, hencoded⟩ := hchain.encoded a ha
    obtain ⟨message, hread, hversion, hsize, hsequence⟩ := hencoded.header hprotocol
    refine ⟨message, hread, hversion, hsize, hsequence.trans ?_⟩
    have hbefore : a.before.sequence.toNat =
        (state.sequence.toNat + (pre.map (sequenceStep config)).sum) % 2 ^ 32 := by
      have hchain' : Chained config nowMs state call.attempts call.state := hchain
      rw [hsplit] at hchain'
      exact hchain'.sequence
    rw [hbefore]
    congr 2
    unfold sequenceStep
    split
    · rfl
    · simp
  · intro known hknown
    have hcollected := hchain.collected hprotocol (by rw [hbatches]; exact hknown)
    rw [hbatches] at hcollected
    exact hcollected

/-- A flow of each family, for runs of the exporter. -/
def sampleFlow (family : Family) : Flow where
  family := family
  srcAddr := .replicate 16 1
  dstAddr := .replicate 16 2
  srcPort := 51000
  dstPort := 443
  protocol := 6
  tos := 0
  tcpFlags := 27
  inputIf := 3
  outputIf := 2
  bytes := 15000
  packets := 20
  firstSwitchedMs := 1750000001000
  lastSwitchedMs := 1750000003000

theorem emit_exact_ipfix : (emit ⟨true, 10, 600, 42⟩ (fun _ => true) ⟨0, 0, 1749999000000, 0⟩
      [sampleFlow .inet, sampleFlow .inet] 1750000005000).attempts.flatMap Attempt.batch =
        [sampleFlow .inet, sampleFlow .inet] :=
  (@emit_exact ⟨true, 10, 600, 42⟩ rfl (.inl rfl) ⟨0, 0, 1749999000000, 0⟩
    [sampleFlow .inet, sampleFlow .inet] (cons_ne_nil _ _) 1750000005000).2.1

end DreamingOS.Export
