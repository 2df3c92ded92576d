import DreamingOS.Export.Datagram
import Mathlib.Data.List.TakeWhile

namespace DreamingOS.Export

open List

/-!
# Flow export — the datagrams of one call

What a call of `emit` does, whatever the sink answers: each datagram is encoded in the state the
one before it left.

* `nextBatch_spec` — a batch is a part of the list off its front, of one family and within the
  capacity;
* `Chained` — the datagrams of a call are, each in the state behind the one before;
* `emit_chained` — **every call is a chain**, of flows in the order of the list;
* `emit_complete` — a call whose sends all succeed sends the whole list.
-/

/-! ### Batches -/

/-- A batch is taken off the front: not empty, of the family of its first flow, and no longer than
    the capacity. -/
theorem nextBatch_spec {capacity : ℕ} (hpos : 0 < capacity) (first : Flow) (rest : List Flow) :
    ∃ tail, nextBatch capacity (first :: rest) = first :: tail ∧
      (∀ flow ∈ tail, flow.family = first.family) ∧ tail.length < capacity ∧
      first :: rest = (first :: tail) ++ (first :: rest).drop (first :: tail).length := by
  obtain ⟨n, rfl⟩ : ∃ n, capacity = n + 1 := ⟨capacity - 1, by omega⟩
  refine ⟨(rest.take n).takeWhile fun flow => flow.family = first.family, ?_, ?_, ?_, ?_⟩
  · rw [nextBatch, take_succ_cons, takeWhile_cons_of_pos (by simp)]
  · intro flow hflow
    have hsame := mem_takeWhile_imp hflow
    simpa using hsame
  · have hle := ( takeWhile_prefix (fun flow : Flow => decide (flow.family = first.family)) :
      (rest.take n).takeWhile _ <+: rest.take n).length_le
    have htake := length_take_le n rest
    omega
  · rw [cons_append, length_cons, drop_succ_cons]
    congr 1
    have hprefix : (rest.take n).takeWhile (fun flow => decide (flow.family = first.family)) <+: rest :=
      ( takeWhile_prefix _).trans ( take_prefix n rest)
    conv_lhs => rw [← take_append_drop
      ((rest.take n).takeWhile fun flow => decide (flow.family = first.family)).length rest]
    rw [← prefix_iff_eq_take.mp hprefix]

/-! ### Chains -/

/-- A datagram of flows of one family is what the encoder writes of them. -/
structure Attempt.Encoded (config : Config) (a : Attempt) (family : Family) : Prop where
  batch : a.batch ≠ []
  same : ∀ flow ∈ a.batch, flow.family = family
  count : a.batch.length ≤
    flowsPerDatagram config.protocol family (templateDue config a.before a.nowMs)
  bytes : a.bytes = datagram config a.before family a.batch
    (templateDue config a.before a.nowMs) a.nowMs

/-- The state behind a datagram. -/
def Attempt.after (config : Config) (a : Attempt) : ExportState :=
  a.before.encoded config.protocol a.batch.length (templateDue config a.before a.nowMs) a.nowMs

/-- Datagrams encoded one after the other, from a state on, and the state behind them. -/
def Chained (config : Config) (nowMs : UInt64) : ExportState → List Attempt → ExportState → Prop
  | state, [], final => state = final
  | state, a :: as, final => a.before = state ∧ a.nowMs = nowMs ∧
      (∃ family, a.Encoded config family) ∧ Chained config nowMs (a.after config) as final

variable {config : Config}

/-- One turn of the loop: a batch off the front is encoded and handed to the sink, and the loop
    goes on behind it if the sink took it. -/
theorem emitLoop_step
    (hprotocol : config.protocol = protocolIpfix ∨ config.protocol = protocolNetflow9)
    (sends : ℕ → Bool) (nowMs : UInt64) (turns datagrams : ℕ) (state : ExportState)
    (first : Flow) (rest : List Flow) :
    ∃ a : Attempt, a.before = state ∧ a.nowMs = nowMs ∧ a.sent = sends datagrams ∧
      a.Encoded config first.family ∧
      first :: rest = a.batch ++ (first :: rest).drop a.batch.length ∧
      emitLoop config sends nowMs (turns + 1) datagrams state (first :: rest) =
        if sends datagrams then
          { emitLoop config sends nowMs turns (datagrams + 1) (a.after config)
              ((first :: rest).drop a.batch.length) with
            attempts := a :: (emitLoop config sends nowMs turns (datagrams + 1) (a.after config)
              ((first :: rest).drop a.batch.length)).attempts }
        else ⟨none, [a], a.after config⟩ := by
  obtain ⟨hpos, -⟩ := flowsPerDatagram_fits hprotocol first.family (templateDue config state nowMs)
  obtain ⟨tail, hbatch, htail, hcount, hsplit⟩ := nextBatch_spec hpos first rest
  have hsame : ∀ flow ∈ first :: tail, flow.family = first.family := by
    intro flow hflow
    rcases mem_cons.mp hflow with rfl | hflow
    · rfl
    · exact htail flow hflow
  have hlength : (first :: tail).length ≤ flowsPerDatagram config.protocol first.family
      (templateDue config state nowMs) := by
    rw [length_cons]
    exact hcount
  have hencode := encodeDatagram_eq state (templateDue config state nowMs) nowMs maxDatagram
    hprotocol htail
  rw [if_pos (datagram_le hprotocol state nowMs hsame hlength)] at hencode
  refine ⟨⟨state, nowMs, first :: tail, datagram config state first.family (first :: tail)
    (templateDue config state nowMs) nowMs, sends datagrams⟩, rfl, rfl, rfl,
    ⟨cons_ne_nil _ _, hsame, hlength, rfl⟩, hsplit, ?_⟩
  rw [emitLoop]
  dsimp only
  rw [if_neg (Nat.pos_iff_ne_zero.mp hpos), hbatch, hencode]
  rfl

/-- The datagrams of the loop are a chain, of flows off the front of the list. -/
theorem emitLoop_chained
    (hprotocol : config.protocol = protocolIpfix ∨ config.protocol = protocolNetflow9)
    (sends : ℕ → Bool) (nowMs : UInt64) (turns datagrams : ℕ) (state : ExportState)
    (flows : List Flow) :
    Chained config nowMs state (emitLoop config sends nowMs turns datagrams state flows).attempts
        (emitLoop config sends nowMs turns datagrams state flows).state ∧
      (emitLoop config sends nowMs turns datagrams state flows).attempts.flatMap Attempt.batch <+:
        flows := by
  induction turns generalizing datagrams state flows with
  | zero => cases flows <;> exact ⟨rfl, nil_prefix⟩
  | succ turns ih =>
    cases flows with
    | nil => exact ⟨rfl, nil_prefix⟩
    | cons first rest =>
      obtain ⟨a, hbefore, hnow, -, hencoded, hsplit, hstep⟩ :=
        emitLoop_step hprotocol sends nowMs turns datagrams state first rest
      obtain ⟨hchain, hprefix⟩ := ih (datagrams + 1) (a.after config)
        ((first :: rest).drop a.batch.length)
      rw [hstep]
      by_cases hsend : sends datagrams = true
      · rw [if_pos hsend]
        refine ⟨⟨hbefore, hnow, ⟨_, hencoded⟩, hchain⟩, ?_⟩
        conv_rhs => rw [hsplit]
        exact (prefix_append_right_inj _).mpr hprefix
      · rw [if_neg hsend]
        refine ⟨⟨hbefore, hnow, ⟨_, hencoded⟩, rfl⟩, ?_⟩
        conv_rhs => rw [hsplit]
        rw [flatMap_cons, flatMap_nil, append_nil]
        exact prefix_append _ _

/-- A loop whose sends all succeed goes through the list. -/
theorem emitLoop_complete
    (hprotocol : config.protocol = protocolIpfix ∨ config.protocol = protocolNetflow9)
    (nowMs : UInt64) (turns datagrams : ℕ) (state : ExportState) (flows : List Flow)
    (hturns : flows.length ≤ turns) :
    (emitLoop config (fun _ => true) nowMs turns datagrams state flows).result = some (datagrams +
          (emitLoop config (fun _ => true) nowMs turns datagrams state flows).attempts.length) ∧
      (emitLoop config (fun _ => true) nowMs turns datagrams state flows).attempts.flatMap
        Attempt.batch = flows := by
  induction turns generalizing datagrams state flows with
  | zero =>
    cases flows with
    | nil => exact ⟨rfl, rfl⟩
    | cons first rest => exact absurd hturns (Nat.not_succ_le_zero _)
  | succ turns ih =>
    cases flows with
    | nil => exact ⟨rfl, rfl⟩
    | cons first rest =>
      obtain ⟨a, -, -, -, hencoded, hsplit, hstep⟩ :=
        emitLoop_step hprotocol (fun _ => true) nowMs turns datagrams state first rest
      have hbatch := length_pos_of_ne_nil hencoded.batch
      have hleft : ((first :: rest).drop a.batch.length).length ≤ turns := by
        rw [length_drop]
        omega
      obtain ⟨hresult, hflows⟩ := ih (datagrams + 1) (a.after config)
        ((first :: rest).drop a.batch.length) hleft
      rw [hstep, if_pos rfl]
      refine ⟨?_, ?_⟩
      · refine hresult.trans (congrArg some ?_)
        rw [Nat.add_assoc, Nat.add_comm 1]
        rfl
      · rw [flatMap_cons, hflows]
        exact hsplit.symm

/-- A protocol that is neither of the two sends nothing. -/
theorem emitLoop_invalid
    (hprotocol : ¬ (config.protocol = protocolIpfix ∨ config.protocol = protocolNetflow9))
    (sends : ℕ → Bool) (nowMs : UInt64) (turns datagrams : ℕ) (state : ExportState)
    (flows : List Flow) :
    (emitLoop config sends nowMs turns datagrams state flows).attempts = [] ∧
      (emitLoop config sends nowMs turns datagrams state flows).state = state := by
  have hinvalid : config.protocol ≠ protocolIpfix ∧ config.protocol ≠ protocolNetflow9 :=
    not_or.mp hprotocol
  cases turns with
  | zero => cases flows <;> exact ⟨rfl, rfl⟩
  | succ turns =>
    cases flows with
    | nil => exact ⟨rfl, rfl⟩
    | cons first rest =>
      have hencode : ∀ batch includeTemplate, encodeDatagram config state batch includeTemplate
          nowMs maxDatagram = (none, state) := by
        intro batch includeTemplate
        cases batch with
        | nil => rfl
        | cons _ _ => rw [encodeDatagram, if_pos hinvalid]
      rw [emitLoop]
      dsimp only
      split
      · exact ⟨rfl, rfl⟩
      · rw [hencode]
        exact ⟨rfl, rfl⟩

/-- **Every call is a chain**, of flows in the order of the list. -/
theorem emit_chained (config : Config) (sends : ℕ → Bool) (state : ExportState)
    (flows : List Flow) (nowMs : UInt64) :
    Chained config nowMs state (emit config sends state flows nowMs).attempts
        (emit config sends state flows nowMs).state ∧
      (emit config sends state flows nowMs).attempts.flatMap Attempt.batch <+: flows := by
  unfold emit
  split
  · exact ⟨rfl, nil_prefix⟩
  split
  · exact ⟨rfl, nil_prefix⟩
  by_cases hprotocol : config.protocol = protocolIpfix ∨ config.protocol = protocolNetflow9
  · exact emitLoop_chained hprotocol sends nowMs _ _ state flows
  · obtain ⟨hattempts, hstate⟩ := emitLoop_invalid hprotocol sends nowMs flows.length 0 state flows
    rw [hattempts, hstate]
    exact ⟨rfl, nil_prefix⟩

/-- **A call whose sends all succeed sends the whole list.** -/
theorem emit_complete (henabled : config.enabled = true)
    (hprotocol : config.protocol = protocolIpfix ∨ config.protocol = protocolNetflow9)
    (state : ExportState) {flows : List Flow} (hflows : flows ≠ []) (nowMs : UInt64) :
    (emit config (fun _ => true) state flows nowMs).result =
        some (emit config (fun _ => true) state flows nowMs).attempts.length ∧
      (emit config (fun _ => true) state flows nowMs).attempts.flatMap Attempt.batch = flows := by
  have hloop := emitLoop_complete hprotocol nowMs flows.length 0 state flows (Nat.le_refl _)
  rw [Nat.zero_add] at hloop
  unfold emit
  rw [if_neg hflows, henabled]
  exact hloop

end DreamingOS.Export
