import DreamingOS.V3.Push
import DreamingOS.V3.PacketPath
import Mathlib.Data.List.Flatten

namespace DreamingOS.V3

open Bytes Option
open Request (portsIn rulesIn stepsIn)
open List (append_assoc append_nil flatMap_append flatMap_map length_append length_cons length_map mapM_cons map_cons mem_append mem_map nil_append nil_sublist not_mem_nil)

/-!
# v3 chain rules — a successful push is enforced

What the daemon may conclude from a push that returns 0, whatever the channel and the other senders
do.

* `Since` — what a stretch of a push adds: events, and replies the kernel sent for them;
* `own` — the daemon's own requests among the events, and `v3SendBatches_own`: those of a batch loop
  are pieces of its records, in order;
* `collect_sublist` — what a transaction of the daemon's port loads is among its own requests;
* `active_of_acked` — a set committed by the daemon within the push is the pushed content;
* `push_refines`, `push_decides` — **the whole statement**, for the active set and for the packets.
-/

/-! ### Replies -/

theorem StatusReply.drop_toBytes (r : StatusReply) : r.toBytes.drop sizeofHdr = r.body := by
  simp [StatusReply.toBytes, sizeofHdr, List.drop_append, List.drop_eq_nil_of_le]

variable {status : KernelStatus}

/-- What an accepted OK says about the reply. -/
theorem v3DecodeStatus_eq_ok {r : StatusReply} {seq action generation : ℕ}
    (h : v3DecodeStatus r.seq r.toBytes seq action generation = .ok status) :
    r.seq = seq ∧ r.requestAction % 4294967296 = action ∧ r.status % 4294967296 = JMX_V3_STATUS_OK ∧
      status.activeGeneration = r.snapshot.activeGeneration % 4294967296 := by
  have haction : fieldLE r.body 0 4 = r.requestAction % 4294967296 := by
    simp [StatusReply.body, fieldLE_cons]
  have hstatus : fieldLE r.body 4 4 = r.status % 4294967296 := by
    simp [StatusReply.body, fieldLE_behind, fieldLE_cons]
  have hgen : fieldLE r.body 20 4 = r.snapshot.activeGeneration % 4294967296 := by
    simp [StatusReply.body, fieldLE_behind, fieldLE_cons]
  unfold v3DecodeStatus at h
  simp only [r.drop_toBytes, haction, hstatus, hgen] at h
  split at h
  · cases h
  next hseq =>
  split at h
  · cases h
  split at h
  · cases h
  next hcrc =>
  split at h
  · next hok =>
    cases h
    simp only [not_or, not_not, ne_eq] at hcrc
    exact ⟨not_not.mp hseq, hcrc.2, hok, rfl⟩
  · cases h

/-- An accepted OK is one of the replies in the mailbox. -/
theorem firstAck_eq_ok {mailbox : List StatusReply} {seq action generation : ℕ}
    : ∀ {reads : List ℕ},
    firstAck mailbox seq action generation reads = .ok status →
    ∃ r ∈ mailbox, v3DecodeStatus r.seq r.toBytes seq action generation = .ok status := by
  intro reads
  induction reads with
  | nil => intro h; cases h
  | cons i reads ih =>
    intro h
    unfold firstAck at h
    cases hi : mailbox[i]? with
    | none =>
      rw [hi] at h
      exact ih h
    | some r =>
      rw [hi] at h
      simp only at h
      cases hdec : v3DecodeStatus r.seq r.toBytes seq action generation with
      | ok s =>
        rw [hdec] at h
        cases h
        exact ⟨r, List.mem_of_getElem? hi, hdec⟩
      | nack s =>
        rw [hdec] at h
        cases h
      | unknown =>
        rw [hdec] at h
        exact ih h

variable {e : Event}

/-- What a reply says about the event that brought it. -/
theorem step_reply {st : KState} {r : StatusReply} (h : (step st e).2 = some r) :
    ∃ env m p, e = .message env m ∧ parse m.data = some p ∧ r.portid = m.portid ∧ r.seq = m.seq ∧
      r.requestAction = p.action ∧ r.status < 4294967296 ∧
      r.snapshot = getSnapshot (step st e).1 := by
  cases e with
  | tick now => cases h
  | message env m =>
    have hh : (handle env m st).2 = some r := h
    unfold handle at hh
    cases hp : parse m.data with
    | none =>
      rw [hp] at hh
      cases hh
    | some p =>
      rw [hp] at hh
      simp only at hh
      by_cases hsender : m.portid = 0 ∨ m.seq = 0
      · rw [if_pos hsender] at hh
        cases hh
      rw [if_neg hsender] at hh
      cases hh
      refine ⟨env, m, p, rfl, hp, rfl, rfl, rfl, ?_, ?_⟩
      · simp only [statusReply]
        split <;> decide
      show _ = getSnapshot (handle env m st).1
      unfold handle
      rw [hp]
      simp only [hsender, if_false, statusReply]

/-- A reply to a port comes from one of the events. -/
theorem mem_repliesTo {portid : ℕ} {r : StatusReply} : ∀ {es : List Event} {st : KState},
    r ∈ repliesTo portid st es →
    ∃ h e t, es = h ++ e :: t ∧ (step (run st h) e).2 = some r ∧ r.portid = portid := by
  intro es
  induction es with
  | nil => intro st h; exact absurd h not_mem_nil
  | cons e es ih =>
    intro st h
    rcases mem_append.mp h with h | h
    · rw [mem_toList, filter_eq_some_iff] at h
      exact ⟨[], e, es, rfl, h.1, by simpa using h.2⟩
    · obtain ⟨h', e', t, rfl, hr, hport⟩ := ih h
      exact ⟨e :: h', e', t, rfl, hr, hport⟩

/-! ### Stretches of a push -/

/-- What a stretch of a push, with the events `es`, adds to the world. -/
structure Since (portid : ℕ) (w w' : World) (es : List Event) : Prop where
  history : w'.history = w.history ++ es
  used : ∀ seq ∈ w.used, seq ∈ w'.used
  mailbox : ∀ r ∈ w'.mailbox, r ∈ w.mailbox ∨ ∃ h e t, es = h ++ e :: t ∧
    (step (run rulesInit (w.history ++ h)) e).2 = some r ∧ r.portid = portid

theorem Since.refl (portid : ℕ) (w : World) : Since portid w w [] where
  history := (append_nil _).symm
  used := fun _ h => h
  mailbox := fun _ h => .inl h

variable {es es' : List Event}

theorem Since.trans {portid : ℕ} {w w' w'' : World}
    (h : Since portid w w' es) (h' : Since portid w' w'' es') :
    Since portid w w'' (es ++ es') where
  history := by rw [h'.history, h.history, append_assoc]
  used := fun seq hseq => h'.used seq (h.used seq hseq)
  mailbox := by
    intro r hr
    rcases h'.mailbox r hr with hr | ⟨l, e, t, rfl, hstep, hport⟩
    · rcases h.mailbox r hr with hr | ⟨l, e, t, rfl, hstep, hport⟩
      · exact Or.inl hr
      · exact Or.inr ⟨l, e, t ++ es', by simp, hstep, hport⟩
    · refine Or.inr ⟨es ++ l, e, t, by simp, ?_, hport⟩
      rw [← append_assoc, ← h.history]
      exact hstep

/-- The request of an event, when it is one of this port. -/
def ownRequest (portid : ℕ) (e : Event) : Option (ℕ × Request) :=
  match requestOf e with
  | some (q, generation, r) => if q = portid then some (generation, r) else none
  | none => none

/-- The well-formed requests of a port among the events. -/
def own (portid : ℕ) (es : List Event) : List (ℕ × Request) := es.filterMap (ownRequest portid)

@[simp] theorem own_append (portid : ℕ) (es es' : List Event) :
    own portid (es ++ es') = own portid es ++ own portid es' :=
  List.filterMap_append

variable {r : Request}

theorem ownRequest_of_requestOf {portid generation : ℕ}
    (h : requestOf e = some (portid, generation, r)) :
    ownRequest portid e = some (generation, r) := by
  simp [ownRequest, h]

theorem ownRequest_foreign {portid : ℕ} (h : e.Foreign portid) : ownRequest portid e = none := by
  unfold ownRequest
  cases hreq : requestOf e with
  | none => rfl
  | some q =>
    obtain ⟨q, generation, r⟩ := q
    cases e with
    | tick now => cases hreq
    | message env m =>
      have hq : q = m.portid := by
        obtain ⟨_, _, p, heq, hp, hok, rfl⟩ := requestOf_eq_some hreq
        cases heq
        rw [requestOf_message hp hok] at hreq
        cases hreq
        rfl
      have hne : q ≠ portid := hq ▸ h
      simp [hne]

theorem own_foreign {portid : ℕ} (es : List { e : Event // e.Foreign portid }) :
    own portid (es.map fun e => e.1) = [] := by
  apply List.filterMap_eq_nil_iff.mpr
  intro e he
  obtain ⟨⟨e', hforeign⟩, -, rfl⟩ := mem_map.mp he
  exact ownRequest_foreign hforeign

/-- The own requests around a request that is well formed. -/
theorem own_events {portid generation : ℕ} (x : Exchange portid) {request : List UInt8} {seq : ℕ}
    (hreq : ∀ env, requestOf (.message env ⟨request, portid, seq⟩)
      = some (portid, generation, r)) :
    own portid (x.events request seq)
      = (x.delivered.map fun _ => (generation, r)).toList := by
  unfold Exchange.events
  rw [own_append, own_append, own_foreign, own_foreign]
  cases x.delivered with
  | none => rfl
  | some env =>
    simp [own, ownRequest_of_requestOf (hreq env)]

/-- An event around a request is foreign, or the request itself. -/
theorem mem_events {portid : ℕ} {x : Exchange portid} {request : List UInt8} {seq : ℕ}
    (h : e ∈ x.events request seq) :
    e.Foreign portid ∨ ∃ env, e = .message env ⟨request, portid, seq⟩ := by
  unfold Exchange.events at h
  rcases mem_append.mp h with h | h
  · rcases mem_append.mp h with h | h
    · obtain ⟨⟨e', hforeign⟩, -, rfl⟩ := mem_map.mp h
      exact Or.inl hforeign
    · rw [mem_toList, map_eq_some_iff] at h
      obtain ⟨env, -, rfl⟩ := h
      exact Or.inr ⟨env, rfl⟩
  · obtain ⟨⟨e', hforeign⟩, -, rfl⟩ := mem_map.mp h
    exact Or.inl hforeign

/-- A reply the daemon accepted as OK. -/
def Acked (w : World) (action activeGeneration : ℕ) : Prop :=
  ∃ r ∈ w.mailbox, r.seq ∈ w.used ∧ r.requestAction % 4294967296 = action ∧
    r.status % 4294967296 = JMX_V3_STATUS_OK ∧
    activeGeneration = r.snapshot.activeGeneration % 4294967296
variable {w w' : World} {rs : ChainRuleSet} {rules : List NlRule} {steps : List NlStep}
  {ports : List NlPort} {b : NlBegin} {es : List Event}


section Channel

variable {portid : ℕ} (channel : ℕ → Exchange portid)

/-- **A request**: the events around it, and the reply that was accepted. -/
theorem v3SendRequest_spec {action generation flags recordSize count : ℕ} {payload : List UInt8}
    {ack : Ack}
    (h : v3SendRequest channel action generation flags recordSize count payload w = (ack, w')) :
    ∃ es, Since portid w w' es ∧ (es = [] ∨ ∃ (x : Exchange portid) (seq : ℕ), es = x.events
        (requestBytes action generation flags recordSize count payload) seq) ∧
      ∀ status, ack = .ok status → Acked w' action status.activeGeneration := by
  unfold v3SendRequest at h
  dsimp only at h
  split at h
  · cases h
    exact ⟨[], ⟨(append_nil _).symm, fun _ h => h, fun _ h => .inl h⟩, .inl rfl,
      fun status hack => by cases hack⟩
  cases h
  refine ⟨_, ⟨rfl, fun seq hseq => List.mem_append_left _ hseq, ?_⟩, .inr ⟨_, _, rfl⟩, ?_⟩
  · intro r hr
    rcases mem_append.mp hr with hr | hr
    · exact Or.inl hr
    · obtain ⟨l, e, t, hes, hstep, hport⟩ := mem_repliesTo hr
      refine Or.inr ⟨l, e, t, hes, ?_, hport⟩
      rw [run_append]
      exact hstep
  · intro status hack
    obtain ⟨r, hr, hdec⟩ := firstAck_eq_ok hack
    obtain ⟨hseq, haction, hok, hgen⟩ := v3DecodeStatus_eq_ok hdec
    refine ⟨r, hr, ?_, haction, hok, hgen⟩
    rw [hseq]
    exact List.mem_append_right _ (List.mem_singleton_self _)

/-- The own requests of a request that is well formed: itself, or none. -/
theorem own_sublist {action generation flags recordSize count : ℕ} {payload : List UInt8}
    (hes : es = [] ∨ ∃ (x : Exchange portid) (seq : ℕ), es = x.events
      (requestBytes action generation flags recordSize count payload) seq)
    (hp : parse (requestBytes action generation flags recordSize count payload)
      = some ⟨action, generation, .ok r⟩) :
    (own portid es).Sublist [(generation, r)] := by
  rcases hes with rfl | ⟨x, seq, rfl⟩
  · exact nil_sublist _
  have hreq : ∀ env, requestOf (.message env
      ⟨requestBytes action generation flags recordSize count payload, portid, seq⟩)
      = some (portid, generation, r) := by
    intro env
    simp only [requestOf, hp]
  rw [own_events x hreq]
  cases x.delivered with
  | none => exact nil_sublist _
  | some env => exact List.Sublist.refl _

/-! ### Batches -/

/-- The messages of a batch loop are read back as its batches. -/
def PushKind.Lawful {σ ρ : Type} (k : PushKind σ ρ) : Prop :=
  ∀ {generation : ℕ} {ws : List ρ}, generation < 4294967296 → generation ≠ 0 → ws ≠ [] →
    ws.length ≤ JMX_V3_BATCH_SIZE → (∀ w ∈ ws, ∃ src, k.toWire src = some w) →
    parse (requestBytes k.action generation 0 k.recordSize ws.length (ws.flatMap k.toBytes))
      = some ⟨k.action, generation, .ok (k.request ws)⟩

/-- A kind whose packed records are read back is lawful. -/
theorem PushKind.lawful {σ ρ : Type} {k : PushKind σ ρ} {ofBytes : List UInt8 → ρ}
    (haction : actionIsBatch k.action) (hsize : k.recordSize = expectedRecordSize k.action)
    (hround : ∀ src w, k.toWire src = some w →
      ofBytes (k.toBytes w) = w ∧ (k.toBytes w).length = k.recordSize)
    (hrequest : ∀ count payload, (if k.action = JMX_NL_ACT_RULE_V3_BATCH then
          Request.rules (records NlRule.ofBytes sizeofRule count payload)
        else if k.action = JMX_NL_ACT_STEP_V3_BATCH then
          Request.steps (records NlStep.ofBytes sizeofStep count payload)
        else Request.ports (records NlPort.ofBytes sizeofPort count payload))
      = k.request (records ofBytes k.recordSize count payload)) : k.Lawful := by
  intro generation ws hgen hne hws hlen hwire
  have hround' : ∀ w ∈ ws, ofBytes (k.toBytes w) = w ∧ (k.toBytes w).length = k.recordSize := by
    intro w hw
    obtain ⟨src, hsrc⟩ := hwire w hw
    exact hround src w hsrc
  have hbytes : (ws.flatMap k.toBytes).length = ws.length * k.recordSize :=
    length_flatMap_toBytes fun w hw => (hround' w hw).2
  have hsmall : k.recordSize ≤ sizeofStep := by
    rw [hsize]
    rcases haction with h | h | h <;> rw [h] <;> decide
  have hmax : sizeofHdr + ws.length * k.recordSize ≤ U32_MAX := by
    have hprod := Nat.mul_le_mul hlen hsmall
    simp only [sizeofHdr, sizeofStep, U32_MAX, JMX_V3_BATCH_SIZE] at hprod ⊢
    omega
  have hcount : ws.length ≠ 0 := fun h => hws (List.length_eq_zero_iff.mp h)
  have hparse := parse_batchBytes haction hgen hne hcount (hsize ▸ hbytes)
    (by rw [hbytes]; exact hmax)
  rw [hsize, hparse, hrequest, records_flatMap hround']

theorem rulePush_lawful : rulePush.Lawful := by
  refine PushKind.lawful (.inl rfl) rfl (fun src w h => ?_) (fun count payload => if_pos rfl)
  have hfits := v3RuleToWire_fits h
  exact ⟨NlRule.ofBytes_toBytes hfits, NlRule.length_toBytes hfits⟩

theorem stepPush_lawful : stepPush.Lawful := by
  refine PushKind.lawful (.inr (.inl rfl)) rfl (fun src w h => ?_) (fun count payload => rfl)
  have hfits := v3StepToWire_fits h
  exact ⟨NlStep.ofBytes_toBytes hfits, NlStep.length_toBytes hfits⟩

theorem portPush_lawful : portPush.Lawful := by
  refine PushKind.lawful (.inr (.inr rfl)) rfl (fun src w h => ?_) (fun count payload => rfl)
  have hfits := v3PortToWire_fits h
  exact ⟨NlPort.ofBytes_toBytes hfits, NlPort.length_toBytes hfits⟩

section Batches

variable {σ ρ : Type} {k : PushKind σ ρ} {generation : ℕ}

theorem v3SendBatch_own (hk : k.Lawful) (hgen : generation < 4294967296) (hne : generation ≠ 0)
    {batch : List ρ} (hbatch : batch ≠ []) (hlen : batch.length ≤ JMX_V3_BATCH_SIZE)
    (hwire : ∀ w ∈ batch, ∃ src, k.toWire src = some w) {done : Bool}
    (h : v3SendBatch channel k generation batch w = (done, w')) :
    ∃ es, Since portid w w' es ∧ (own portid es).Sublist [(generation, k.request batch)] := by
  unfold v3SendBatch at h
  have hparse := hk hgen hne hbatch hlen hwire
  cases hsend : v3SendRequest channel k.action generation 0 k.recordSize batch.length
      (batch.flatMap k.toBytes) w with
  | mk ack w₁ =>
    obtain ⟨es, hsince, hes, -⟩ := v3SendRequest_spec channel hsend
    have hw : w₁ = w' := by
      rw [hsend] at h
      cases ack <;> cases h <;> rfl
    exact ⟨es, hw ▸ hsince, own_sublist hes hparse⟩

/-- **The batches of a loop that goes through** are pieces of its records, in order. -/
theorem v3SendBatches_own (hk : k.Lawful) (hgen : generation < 4294967296) (hne : generation ≠ 0)
    {srcs : List σ} : ∀ {batch : List ρ} {w w' : World}, batch.length < JMX_V3_BATCH_SIZE →
    (∀ w ∈ batch, ∃ src, k.toWire src = some w) →
    v3SendBatches channel k generation srcs batch w = (true, w') →
    ∃ es ws bs, srcs.mapM k.toWire = some ws ∧ Since portid w w' es ∧
      List.flatten bs = batch ++ ws ∧
      (own portid es).Sublist (bs.map fun b => (generation, k.request b)) := by
  induction srcs with
  | nil =>
    intro batch w w' hlen hwire h
    unfold v3SendBatches at h
    by_cases hempty : batch = []
    · rw [hempty] at h
      cases h
      exact ⟨[], [], [], rfl, Since.refl portid w, by simp [hempty], List.Sublist.refl _⟩
    · rw [if_neg (by simpa using hempty)] at h
      obtain ⟨es, hsince, hown⟩ := v3SendBatch_own channel hk hgen hne hempty hlen.le hwire h
      exact ⟨es, [], [batch], rfl, hsince, by simp, hown⟩
  | cons src srcs ih =>
    intro batch w w' hlen hwire h
    unfold v3SendBatches at h
    cases hsrc : k.toWire src with
    | none =>
      rw [hsrc] at h
      cases h
    | some wire =>
      rw [hsrc] at h
      dsimp only at h
      have hwire' : ∀ x ∈ batch ++ [wire], ∃ src, k.toWire src = some x := by
        intro x hx
        rcases mem_append.mp hx with hx | hx
        · exact hwire x hx
        · exact ⟨src, by rw [hsrc, List.mem_singleton.mp hx]⟩
      by_cases hfull : (batch ++ [wire]).length = JMX_V3_BATCH_SIZE
      · -- the batch is full: it is sent, and the next one starts empty
        rw [if_pos hfull] at h
        cases hsend : v3SendBatch channel k generation (batch ++ [wire]) w with
        | mk done w₁ =>
          rw [hsend] at h
          cases done with
          | false => cases h
          | true =>
            obtain ⟨es, hsince, hown⟩ :=
              v3SendBatch_own channel hk hgen hne (by simp) hfull.le hwire' hsend
            obtain ⟨es', ws, bs, hws, hsince', hbs, hown'⟩ :=
              ih (by simp [JMX_V3_BATCH_SIZE]) (fun x hx => absurd hx not_mem_nil) h
            refine ⟨es ++ es', wire :: ws, (batch ++ [wire]) :: bs, ?_, hsince.trans hsince', ?_, ?_⟩
            · simp [mapM_cons, hsrc, hws]
            · simp [hbs]
            · rw [own_append, map_cons]
              exact hown.append hown'
      · rw [if_neg hfull] at h
        have hlen' : (batch ++ [wire]).length < JMX_V3_BATCH_SIZE := by
          rw [length_append, List.length_singleton] at hfull ⊢
          omega
        obtain ⟨es, ws, bs, hws, hsince, hbs, hown⟩ := ih hlen' hwire' h
        refine ⟨es, wire :: ws, bs, ?_, hsince, ?_, hown⟩
        · simp [mapM_cons, hsrc, hws]
        · rw [hbs, append_assoc, List.singleton_append]

end Batches

/-! ### The records and the COMMIT -/

/-- The own requests among the events carry parts of these records, in order, and open no
    transaction. -/
structure Carries (portid : ℕ) (es : List Event) (rules : List NlRule) (steps : List NlStep)
    (ports : List NlPort) : Prop where
  rules : ((own portid es).flatMap fun q => q.2.rulesIn).Sublist rules
  steps : ((own portid es).flatMap fun q => q.2.stepsIn).Sublist steps
  ports : ((own portid es).flatMap fun q => q.2.portsIn).Sublist ports
  noBegin : ∀ q ∈ own portid es, ∀ b flags, q.2 ≠ .begin b flags

theorem Carries.append {rules rules' : List NlRule}
    {steps steps' : List NlStep} {ports ports' : List NlPort}
    (h : Carries portid es rules steps ports) (h' : Carries portid es' rules' steps' ports') :
    Carries portid (es ++ es') (rules ++ rules') (steps ++ steps') (ports ++ ports') where
  rules := by
    rw [own_append, flatMap_append]
    exact h.rules.append h'.rules
  steps := by
    rw [own_append, flatMap_append]
    exact h.steps.append h'.steps
  ports := by
    rw [own_append, flatMap_append]
    exact h.ports.append h'.ports
  noBegin := by
    intro q hq
    rw [own_append] at hq
    rcases mem_append.mp hq with hq | hq
    · exact h.noBegin q hq
    · exact h'.noBegin q hq

/-- Events whose own requests are among `qs` carry what `qs` hold. -/
theorem carries_of_sublist {qs : List (ℕ × Request)} (h : (own portid es).Sublist qs)
    (hrules : qs.flatMap (fun q => q.2.rulesIn) = rules)
    (hsteps : qs.flatMap (fun q => q.2.stepsIn) = steps)
    (hports : qs.flatMap (fun q => q.2.portsIn) = ports)
    (hbegin : ∀ q ∈ qs, ∀ b flags, q.2 ≠ .begin b flags) :
    Carries portid es rules steps ports where
  rules := hrules ▸ h.flatMap _
  steps := hsteps ▸ h.flatMap _
  ports := hports ▸ h.flatMap _
  noBegin := fun q hq => hbegin q (h.subset hq)

theorem carries_nil : Carries portid [] [] [] [] :=
  carries_of_sublist (List.Sublist.refl _) rfl rfl rfl (fun _ h => absurd h not_mem_nil)

/-- **The records of a push that goes through**: the own requests carry parts of the records of the
    store, and nothing when nothing is pushed. -/
theorem v3SendRecords_carries {generation rules : ℕ}
    (hgen : generation < 4294967296) (hne : generation ≠ 0)
    (h : v3SendRecords channel rs generation rules w = (true, w')) :
    ∃ es, Since portid w w' es ∧ (rules = 0 → Carries portid es [] [] []) ∧
      (rules ≠ 0 → ∃ rwires swires pwires, rs.activeRules.mapM v3RuleToWire = some rwires ∧
        rs.activeSteps.mapM v3StepToWire = some swires ∧
        rs.activePorts.mapM v3PortToWire = some pwires ∧
        Carries portid es rwires swires pwires) := by
  unfold v3SendRecords at h
  split at h
  · next hzero =>
    cases h
    exact ⟨[], Since.refl portid w, fun _ => carries_nil, fun hne => absurd hzero hne⟩
  next hpos =>
  cases h1 : v3SendBatches channel rulePush generation rs.activeRules [] w with
  | mk done w₁ =>
  rw [h1] at h
  cases done with
  | false => cases h
  | true =>
  dsimp only at h
  cases h2 : v3SendBatches channel stepPush generation rs.activeSteps [] w₁ with
  | mk done w₂ =>
  rw [h2] at h
  cases done with
  | false => cases h
  | true =>
  have hempty : ([] : List ℕ).length < JMX_V3_BATCH_SIZE := by decide
  obtain ⟨es₁, rwires, bs₁, hr, hs₁, hflat₁, hown₁⟩ := v3SendBatches_own channel rulePush_lawful
    hgen hne hempty (fun _ h => absurd h not_mem_nil) h1
  obtain ⟨es₂, swires, bs₂, hs, hs₂, hflat₂, hown₂⟩ := v3SendBatches_own channel stepPush_lawful
    hgen hne hempty (fun _ h => absurd h not_mem_nil) h2
  obtain ⟨es₃, pwires, bs₃, hp, hs₃, hflat₃, hown₃⟩ := v3SendBatches_own channel portPush_lawful
    hgen hne hempty (fun _ h => absurd h not_mem_nil) h
  refine ⟨es₁ ++ (es₂ ++ es₃), hs₁.trans (hs₂.trans hs₃), fun hzero => absurd hzero hpos,
    fun _ => ⟨rwires, swires, pwires, hr, hs, hp, ?_⟩⟩
  have hc₁ : Carries portid es₁ rwires [] [] :=
    carries_of_sublist hown₁ (by simpa [rulePush, rulesIn, flatMap_map] using hflat₁)
      (by simp [rulePush, stepsIn]) (by simp [rulePush, portsIn])
      (by simp [rulePush])
  have hc₂ : Carries portid es₂ [] swires [] :=
    carries_of_sublist hown₂ (by simp [stepPush, rulesIn])
      (by simpa [stepPush, stepsIn, flatMap_map] using hflat₂)
      (by simp [stepPush, portsIn]) (by simp [stepPush])
  have hc₃ : Carries portid es₃ [] [] pwires :=
    carries_of_sublist hown₃ (by simp [portPush, rulesIn])
      (by simp [portPush, stepsIn])
      (by simpa [portPush, portsIn, flatMap_map] using hflat₃) (by simp [portPush])
  have hc := hc₁.append (hc₂.append hc₃)
  rw [nil_append, nil_append, nil_append, append_nil, append_nil] at hc
  exact hc

/-- A control request: it carries no records. -/
theorem v3SendControl_spec {action generation : ℕ}
    (haction : action = JMX_NL_ACT_RULESET_STATUS_V3 ∨ action = JMX_NL_ACT_RULESET_COMMIT_V3 ∨
      action = JMX_NL_ACT_RULESET_ABORT_V3) (hgen : generation < 4294967296)
    (hne : generation ≠ 0) {ack : Ack}
    (h : v3SendControl channel action generation w = (ack, w')) :
    ∃ es, Since portid w w' es ∧ Carries portid es [] [] [] ∧
      ∀ status, ack = .ok status → Acked w' action status.activeGeneration := by
  obtain ⟨es, hsince, hes, hack⟩ := v3SendRequest_spec channel h
  have hown := own_sublist hes (parse_controlBytes haction hgen hne)
  refine ⟨es, hsince, carries_of_sublist hown ?_ ?_ ?_ ?_, hack⟩
  · rcases haction with rfl | rfl | rfl <;> rfl
  · rcases haction with rfl | rfl | rfl <;> rfl
  · rcases haction with rfl | rfl | rfl <;> rfl
  · intro q hq b flags
    rw [List.mem_singleton] at hq
    subst hq
    rcases haction with rfl | rfl | rfl <;> exact fun heq => by cases heq

/-- **The end of a push that goes through**: a COMMIT or a STATUS was acknowledged with the
    generation of the push. -/
theorem v3FinishPush_acked {generation mode : ℕ} (hgen : generation < 4294967296)
    (hne : generation ≠ 0)
    (h : v3FinishPush channel generation mode b w = (true, w')) :
    ∃ es action, Since portid w w' es ∧ Carries portid es [] [] [] ∧
      action ≠ JMX_NL_ACT_RULESET_BEGIN_V3 ∧ Acked w' action generation := by
  unfold v3FinishPush at h
  -- the reconciliation, from any world
  have hreconcile : ∀ {w₁ w₂ : World},
      v3ReconcileStatus channel generation b.expectedRules b.expectedSteps b.expectedPorts mode
        b.catalogDigest w₁ = (true, w₂) →
      ∃ es, Since portid w₁ w₂ es ∧ Carries portid es [] [] [] ∧
        Acked w₂ JMX_NL_ACT_RULESET_STATUS_V3 generation := by
    intro w₁ w₂ hrec
    unfold v3ReconcileStatus at hrec
    cases hsend : v3SendControl channel JMX_NL_ACT_RULESET_STATUS_V3 generation w₁ with
    | mk ack w₃ =>
      obtain ⟨es, hsince, hcarries, hack⟩ := v3SendControl_spec channel (.inl rfl) hgen hne hsend
      rw [hsend] at hrec
      cases ack with
      | nack status => cases hrec
      | unknown => cases hrec
      | ok status =>
        dsimp only at hrec
        by_cases hmatch : v3StatusMatches status generation b.expectedRules b.expectedSteps
            b.expectedPorts mode b.catalogDigest
        · rw [decide_eq_true hmatch] at hrec
          cases hrec
          refine ⟨es, hsince, hcarries, ?_⟩
          rw [← hmatch.1]
          exact hack status rfl
        · rw [decide_eq_false hmatch] at hrec
          cases hrec
  dsimp only at h
  cases hsend : v3SendControl channel JMX_NL_ACT_RULESET_COMMIT_V3 generation w with
  | mk ack w₁ =>
    obtain ⟨es, hsince, hcarries, hack⟩ :=
      v3SendControl_spec channel (.inr (.inl rfl)) hgen hne hsend
    rw [hsend] at h
    have hrec : ∀ {w₂ : World}, (∃ es', Since portid w₁ w₂ es' ∧ Carries portid es' [] [] [] ∧
          Acked w₂ JMX_NL_ACT_RULESET_STATUS_V3 generation) →
        ∃ es action, Since portid w w₂ es ∧ Carries portid es [] [] [] ∧
          action ≠ JMX_NL_ACT_RULESET_BEGIN_V3 ∧ Acked w₂ action generation := by
      rintro w₂ ⟨es', hsince', hcarries', hacked⟩
      exact ⟨es ++ es', JMX_NL_ACT_RULESET_STATUS_V3, hsince.trans hsince',
        hcarries.append hcarries', by decide, hacked⟩
    cases ack with
    | nack status => cases h
    | unknown =>
      dsimp only at h
      split at h
      · next heq =>
        cases h
        exact hrec (hreconcile heq)
      · cases h
    | ok status =>
      dsimp only at h
      by_cases hmatch : v3StatusMatches status generation b.expectedRules b.expectedSteps
          b.expectedPorts mode b.catalogDigest
      · rw [if_pos hmatch] at h
        cases h
        refine ⟨es, JMX_NL_ACT_RULESET_COMMIT_V3, hsince, hcarries, by decide, ?_⟩
        rw [← hmatch.1]
        exact hack status rfl
      · rw [if_neg hmatch] at h
        split at h
        · next heq =>
          cases h
          exact hrec (hreconcile heq)
        · cases h

end Channel

/-! ### What a transaction loads -/

/-- What a stretch of events loads is among the own requests of the only sender of batches. -/
theorem collect_sublist {portid : ℕ} {ρ : Type} (part : Request → List ρ) {mid : List Event} :
    ∀ {st : KState}, (∀ mid' e, mid' ++ [e] <+: mid → ∀ q generation r,
      Takes (run st mid') e q generation r → part r = [] ∨ q = portid) →
    (collect part st mid).Sublist ((own portid mid).flatMap fun q => part q.2) := by
  induction mid with
  | nil => intro st _; exact List.Sublist.refl _
  | cons e mid ih =>
    intro st hsingle
    have hrest : (collect part (step st e).1 mid).Sublist
        ((own portid mid).flatMap fun q => part q.2) := by
      apply ih
      intro mid' e' hmid q generation r htakes
      exact hsingle (e :: mid') e' (List.cons_prefix_cons.mpr ⟨rfl, hmid⟩) q generation r htakes
    have hfirst : (contribution part st e).Sublist
        ((ownRequest portid e).toList.flatMap fun q => part q.2) := by
      by_cases hacc : Accepted st e
      · cases hreq : requestOf e with
        | none => simp [contribution, hacc, hreq]
        | some q =>
          obtain ⟨q, generation, r⟩ := q
          rw [contribution_of_takes part ⟨hreq, hacc⟩]
          rcases hsingle [] e (by simp) q generation r ⟨hreq, hacc⟩ with hnone | rfl
          · rw [hnone]
            exact nil_sublist _
          · rw [ownRequest_of_requestOf hreq]
            simp
      · rw [contribution_of_not_accepted part hacc]
        exact nil_sublist _
    have hown : own portid (e :: mid) = (ownRequest portid e).toList ++ own portid mid := by
      cases h : ownRequest portid e <;> simp [own, h]
    rw [collect, hown, flatMap_append]
    exact hfirst.append hrest

/-- A first part of the events carries no more than the whole. -/
theorem Carries.of_append {portid : ℕ}
    (h : Carries portid (es ++ es') rules steps ports) : Carries portid es rules steps ports := by
  have hsub : (own portid es).Sublist (own portid (es ++ es')) := by
    rw [own_append]
    exact List.sublist_append_left _ _
  exact ⟨(hsub.flatMap _).trans h.rules, (hsub.flatMap _).trans h.steps,
    (hsub.flatMap _).trans h.ports, fun q hq => h.noBegin q (hsub.subset hq)⟩

variable {set : RuleSet}

/-- **The content of a committed transaction** whose batches are all among the given records, and
    which declared their numbers: exactly these records. -/
theorem Session.content_eq {s : Session} (hproper : s.Proper)
    (hcarries : Carries s.portid s.mid rules steps ports) (hsame : SameRecords s.loaded set)
    (hwf : WellFormed set) (hrules : s.declared.expectedRules = rules.length)
    (hsteps : s.declared.expectedSteps = steps.length)
    (hports : s.declared.expectedPorts = ports.length) :
    set.content = ⟨(s.flags &&& JMX_V3_TX_MODE_MASK).toNat, s.declared.catalogDigest,
      rules.map ruleOfWire, steps.map stepOfWire, ports.map portOfWire⟩ := by
  -- every accepted batch within the session is the owner's
  have hsingle : ∀ {ρ : Type} (part : Request → List ρ), part .capability = [] →
      part .status = [] → ∀ mid' e, mid' ++ [e] <+: s.mid → ∀ q generation r,
      Takes (run s.start mid') e q generation r → part r = [] ∨ q = s.portid := by
    intro ρ part hcap hstat mid' e hmid q generation r htakes
    rcases hproper.single mid' e hmid q generation r htakes with rfl | rfl | ⟨_, hq, _⟩
    · exact Or.inl hcap
    · exact Or.inl hstat
    · exact Or.inr hq
  have hr := (collect_sublist rulesIn (hsingle rulesIn rfl rfl)).trans
    hcarries.rules
  have hs := (collect_sublist stepsIn (hsingle stepsIn rfl rfl)).trans
    hcarries.steps
  have hp := (collect_sublist portsIn (hsingle portsIn rfl rfl)).trans
    hcarries.ports
  -- the counts leave room for no other than the whole
  have hrlen : (collect rulesIn s.start s.mid).length = rules.length := by
    have h1 := congrArg List.length hsame.rules
    have h2 : set.ruleCapacity = rules.length := hsame.capacities.1.trans hrules
    rw [length_map, hwf.ruleCount, h2] at h1
    rw [h1]
    exact (length_map _).symm
  have hslen : (collect stepsIn s.start s.mid).length = steps.length := by
    have h1 := congrArg List.length hsame.steps
    have h2 : set.stepCapacity = steps.length := hsame.capacities.2.1.trans hsteps
    rw [hwf.stepCount, h2] at h1
    rw [h1]
    exact (length_map _).symm
  have hplen : (collect portsIn s.start s.mid).length = ports.length := by
    have h1 := congrArg List.length hsame.ports
    have h2 : set.portCapacity = ports.length := hsame.capacities.2.2.trans hports
    rw [hwf.portCount, h2] at h1
    rw [h1]
    exact (length_map _).symm
  rw [RuleSet.content, hsame.mode, hsame.catalogDigest, hsame.rules, hsame.steps, hsame.ports,
    ← hr.eq_of_length hrlen, ← hs.eq_of_length hslen, ← hp.eq_of_length hplen]
  rfl

/-! ### The rule store -/

/-- What the preflight counted. -/
theorem preflightLoop_counts {rules : List ChainRule} :
    ∀ {c c' : Preflight}, preflightLoop rs rules c = some c' →
    c'.rules = c.rules + (rules.filter fun rule => rule.active ≠ 0).length ∧
      c'.steps = c.steps + ((rules.filter fun rule => rule.active ≠ 0).flatMap rs.stepsOf).length ∧
      c'.ports = c.ports + ((rules.filter fun rule => rule.active ≠ 0).flatMap rs.portsOf).length ∧
      (c.rules ≤ U32_MAX ∧ c.steps ≤ U32_MAX ∧ c.ports ≤ U32_MAX →
        c'.rules ≤ U32_MAX ∧ c'.steps ≤ U32_MAX ∧ c'.ports ≤ U32_MAX) := by
  induction rules with
  | nil =>
    intro c c' h
    cases h
    simp
  | cons rule rules ih =>
    intro c c' h
    unfold preflightLoop at h
    by_cases hactive : rule.active = 0
    · rw [if_pos hactive] at h
      simpa [List.filter_cons, hactive] using ih h
    rw [if_neg hactive] at h
    split at h
    · cases h
    next hbad =>
    dsimp only at h
    split at h
    · cases h
    next hmax =>
    obtain ⟨h1, h2, h3, h4⟩ := ih h
    have hsteps : (rs.stepsOf rule).length = rule.stepCount.toNat := by
      simp only [preflightBad, not_or, not_lt] at hbad
      rw [ChainRuleSet.stepsOf, List.length_take, List.length_drop]
      omega
    have hports : (rs.portsOf rule).length = rule.portCount.toNat := by
      simp only [preflightBad, not_or, not_lt] at hbad
      rw [ChainRuleSet.portsOf, List.length_take, List.length_drop]
      omega
    simp only [not_or, not_lt] at hmax
    have hfilter : (rule :: rules).filter (fun rule => rule.active ≠ 0)
        = rule :: rules.filter fun rule => rule.active ≠ 0 := by
      simp [hactive]
    rw [hfilter, length_cons, List.flatMap_cons, List.flatMap_cons, length_append,
      length_append, hsteps, hports]
    dsimp only at h1 h2 h3 h4
    exact ⟨by omega, by omega, by omega, fun _ => h4 hmax⟩

variable {c : Preflight}

/-- The counts of an accepted store. -/
theorem v3PreflightRuleset_counts (h : v3PreflightRuleset rs = some c) :
    c.rules = rs.activeRules.length ∧ c.steps = rs.activeSteps.length ∧
      c.ports = rs.activePorts.length ∧ c.rules ≤ U32_MAX ∧ c.steps ≤ U32_MAX ∧
      c.ports ≤ U32_MAX := by
  unfold v3PreflightRuleset at h
  cases hloop : preflightLoop rs rs.rules {} with
  | none =>
    rw [hloop] at h
    cases h
  | some c₁ =>
    rw [hloop] at h
    dsimp only at h
    split at h
    · cases h
    cases h
    obtain ⟨h1, h2, h3, h4⟩ := preflightLoop_counts hloop
    rw [Nat.zero_add] at h1 h2 h3
    exact ⟨h1, h2, h3, h4 ⟨by decide, by decide, by decide⟩⟩

/-- The kernel's records of a list that could be encoded. -/
theorem map_ofWire_of_mapM {σ ρ κ : Type} {toWire : σ → Option ρ} {ofWire : ρ → κ}
    {kernel : σ → κ} (h : ∀ src w, toWire src = some w → ofWire w = kernel src)
    {srcs : List σ} : ∀ {ws : List ρ}, srcs.mapM toWire = some ws →
    ws.map ofWire = srcs.map kernel ∧ ws.length = srcs.length := by
  induction srcs with
  | nil =>
    intro ws hws
    cases hws
    exact ⟨rfl, rfl⟩
  | cons src srcs ih =>
    intro ws hws
    rw [mapM_cons] at hws
    obtain ⟨w, hw, hrest⟩ := bind_eq_some_iff.mp hws
    obtain ⟨ws', hws', hcons⟩ := bind_eq_some_iff.mp hrest
    cases hcons
    obtain ⟨hmap, hlen⟩ := ih hws'
    rw [map_cons, map_cons, hmap, h src w hw, length_cons, length_cons, hlen]
    exact ⟨rfl, rfl⟩

/-! ### From the acknowledgements to the kernel -/

/-- An accepted BEGIN finds no active set of its generation. -/
theorem begin_fresh {st : KState} {portid generation : ℕ}
    {flags : UInt32} (h : Takes st e portid generation (.begin b flags)) :
    ∀ active ∈ st.active, active.generation ≠ generation := by
  rcases step_cases st e with ⟨_, hquery⟩ | ⟨env, m, p, st₁, ans, rfl, hp, _, _, heffect, _, hacc⟩
  · rcases hquery _ _ _ h with heq | heq <;> cases heq
  obtain ⟨env', m', p', heq, hp', hreq, hgen⟩ := requestOf_eq_some h.1
  cases heq
  rw [hp] at hp'
  cases hp'
  have hno : ∀ {r : Request}, p.request = .ok r → r = .begin b flags := by
    intro r hr
    rw [hreq] at hr
    exact (Except.ok.inj hr).symm
  cases heffect with
  | began _ _ _ _ _ _ hfresh _ =>
    rw [← hgen]
    exact hfresh
  | quiet _ hquery =>
    rcases hquery (hacc.mp h.2) with hr | hr <;> cases hno hr
  | loadedRules _ _ _ hr => cases hno hr
  | loadedSteps _ _ _ hr => cases hno hr
  | loadedPorts _ _ _ hr => cases hno hr
  | committed _ _ hr => cases hno hr
  | invalid _ _ _ _ hr => cases hno hr
  | aborted _ hr => cases hno hr

/-- A generation of the wire has four bytes. -/
theorem requestOf_generation_lt {portid generation : ℕ}
    (h : requestOf e = some (portid, generation, r)) : generation < 4294967296 := by
  obtain ⟨_, m, p, _, hp, hreq, rfl⟩ := requestOf_eq_some h
  rw [(parse_eq_ok hp hreq).2.1]
  exact fieldLE_lt m.data 12 4

/-- The request of an event excludes others. -/
theorem Takes.request_eq {st st' : KState} {q q' generation generation' : ℕ}
    {r r' : Request} (h : Takes st e q generation r) (h' : Takes st' e q' generation' r') :
    r = r' := by
  have heq := h.1
  rw [h'.1] at heq
  cases heq
  rfl

/-- **From a generation that is active behind an accepted BEGIN of it**: the transaction of that
    BEGIN was committed, or another sender committed one of the same generation. -/
theorem activated_behind_begin {portid generation : ℕ} {hb rest : List Event} {eb : Event}
    {flags : UInt32}
    (hbegin : Takes (run rulesInit hb) eb portid generation (.begin b flags))
    (hown : ∀ q ∈ own portid rest, ∀ b flags, q.2 ≠ .begin b flags)
    (hactive : (run rulesInit (hb ++ eb :: rest)).active = some set)
    (hgen : set.generation = generation) :
    (∃ (s : Session) (post : List Event), s.Proper ∧ s.portid = portid ∧ s.declared = b ∧
      s.flags = flags ∧ rest = s.mid ++ post ∧ SameRecords s.loaded set ∧ WellFormed set) ∨
    (∃ mid c post other, rest = mid ++ c :: post ∧ other ≠ portid ∧
      Takes (run rulesInit (hb ++ eb :: mid)) c other generation .commit) := by
  obtain ⟨hact, hinst⟩ := (history _).active set hactive
  obtain ⟨s, c, post, hsplit, hproper, hcommit, hsame, hkept⟩ := hact
  have hsgen : s.generation = generation := by
    rw [← hgen, hsame.generation]
    rfl
  rcases List.append_eq_append_iff.mp hsplit with ⟨a, ha, hrest⟩ | ⟨a, ha, hrest⟩
  · cases a with
    | nil =>
      -- the BEGIN is no COMMIT
      obtain ⟨heq, -⟩ := List.cons.inj hrest
      rw [← heq] at hcommit
      cases hbegin.request_eq hcommit
    | cons e₁ mid =>
      obtain ⟨rfl, htail⟩ := List.cons.inj hrest
      have htail : rest = mid ++ c :: post := htail
      by_cases hport : s.portid = portid
      · -- the transaction is the daemon's: it was opened by this very BEGIN
        refine Or.inl ⟨s, c :: post, hproper, hport, ?_⟩
        have hmid : s.declared = b ∧ s.flags = flags ∧ s.mid = mid := by
          have hevents : s.pre ++ s.opening :: s.mid = hb ++ eb :: mid := ha
          rcases List.append_eq_append_iff.mp hevents with ⟨l, hl, hcons⟩ | ⟨l, hl, hcons⟩
          · cases l with
            | nil =>
              obtain ⟨heq, hmid⟩ := List.cons.inj hcons
              have hreq := hproper.opens
              rw [heq] at hreq
              cases hbegin.request_eq hreq
              exact ⟨rfl, rfl, hmid⟩
            | cons e₂ l =>
              -- an accepted BEGIN within a session
              obtain ⟨rfl, hmid⟩ := List.cons.inj hcons
              have htakes : Takes (run s.start l) eb portid generation (.begin b flags) := by
                rw [Session.start, ← run_append, append_assoc, List.singleton_append, ← hl]
                exact hbegin
              have hpre : l ++ [eb] <+: s.mid := ⟨mid, by rw [hmid]; simp⟩
              rcases hproper.single l eb hpre _ _ _ htakes with heq | heq | ⟨hbatch, -⟩
              · cases heq
              · cases heq
              · exact hbatch.elim
          · cases l with
            | nil =>
              obtain ⟨heq, hmid⟩ := List.cons.inj hcons
              have hreq := hproper.opens
              rw [← heq] at hreq
              cases hbegin.request_eq hreq
              exact ⟨rfl, rfl, hmid.symm⟩
            | cons e₂ l =>
              -- a second BEGIN of the daemon
              obtain ⟨rfl, hmid⟩ := List.cons.inj hcons
              have hreq := ownRequest_of_requestOf hproper.opens.1
              rw [hport] at hreq
              refine absurd rfl (hown (s.generation, .begin s.declared s.flags) ?_ _ _)
              apply List.mem_filterMap.mpr
              refine ⟨s.opening, ?_, hreq⟩
              rw [htail, hmid]
              simp
        obtain ⟨hb', hf', hm'⟩ := hmid
        refine ⟨hb', hf', ?_, hsame, hinst.wellFormed⟩
        rw [htail, hm']
      · refine Or.inr ⟨mid, c, post, s.portid, htail, hport, ?_⟩
        rw [← ha, ← hsgen]
        exact hcommit
  · cases a with
    | nil =>
      obtain ⟨heq, -⟩ := List.cons.inj hrest
      rw [heq] at hcommit
      cases hbegin.request_eq hcommit
    | cons e₁ a =>
      -- the set was active at the BEGIN already
      obtain ⟨rfl, htail⟩ := List.cons.inj hrest
      have hthen := hkept a ⟨eb :: rest, htail.symm⟩
      rw [← ha] at hthen
      exact absurd hgen (begin_fresh hbegin set hthen)

/-! ### The push -/

theorem active_generation_lt
    (h : (run rulesInit es).active = some set) : set.generation < 4294967296 := by
  obtain ⟨s, -, -, -, hproper, -, hsame, -⟩ := ((history es).active set h).1
  rw [hsame.generation]
  exact requestOf_generation_lt hproper.opens.1

section Channel

variable {portid : ℕ} (channel : ℕ → Exchange portid)

/-- A BEGIN whose acknowledgement is not left over from before was accepted by the kernel. -/
theorem begin_acked {generation mode : ℕ} (hb : b.Fits)
    (hgen : generation < 4294967296) (hne : generation ≠ 0) (hmode : mode < 4294967296)
    {w w₁ : World}
    (hsend : v3SendRequest channel JMX_NL_ACT_RULESET_BEGIN_V3 generation mode sizeofBegin 1
      b.toBytes w = (.ok status, w₁)) (hfresh : ∀ r ∈ w.mailbox, r.seq ∉ w₁.used) :
    ∃ l e t, w₁.history = w.history ++ l ++ e :: t ∧
      Takes (run rulesInit (w.history ++ l)) e portid generation
        (.begin b (UInt32.ofNat mode)) ∧ own portid t = [] ∧
      ∀ r ∈ w₁.mailbox, r ∈ w.mailbox ∨ r.requestAction = JMX_NL_ACT_RULESET_BEGIN_V3 := by
  obtain ⟨es, hsince, hes, hack⟩ := v3SendRequest_spec channel hsend
  have hparse := parse_beginBytes hb hgen hne hmode
  -- an event that brought a reply to this port is the BEGIN message
  have hmessage : ∀ {l e t} {st : KState} {r : StatusReply}, es = l ++ e :: t →
      (step st e).2 = some r → r.portid = portid →
      requestOf e = some (portid, generation, .begin b (UInt32.ofNat mode)) ∧
        r.requestAction = JMX_NL_ACT_RULESET_BEGIN_V3 ∧ r.status < 4294967296 := by
    intro l e t st r hsplit hstep hport
    obtain ⟨env, m, p, rfl, hp, hrport, -, haction, hstatus, -⟩ := step_reply hstep
    have hmem : Event.message env m ∈ es := by rw [hsplit]; simp
    rcases hes with rfl | ⟨x, seq, rfl⟩
    · exact absurd hmem not_mem_nil
    rcases mem_events hmem with hforeign | ⟨env', heq⟩
    · exact absurd (hrport.symm.trans hport) hforeign
    cases heq
    have hp' := hp
    rw [hparse] at hp'
    cases hp'
    exact ⟨requestOf_message hp rfl, haction, hstatus⟩
  obtain ⟨r, hr, hseq, -, hok, -⟩ := hack status rfl
  rcases hsince.mailbox r hr with hold | ⟨l, e, t, hsplit, hstep, hport⟩
  · exact absurd hseq (hfresh r hold)
  obtain ⟨hreq, -, hlt⟩ := hmessage hsplit hstep hport
  rw [Nat.mod_eq_of_lt hlt] at hok
  refine ⟨l, e, t, ?_, ⟨hreq, r, hstep, hok⟩, ?_, ?_⟩
  · rw [hsince.history, hsplit, append_assoc]
  · have hlen := (own_sublist hes hparse).length_le
    have howne : own portid (e :: t)
        = (generation, .begin b (UInt32.ofNat mode)) :: own portid t := by
      simp [own, ownRequest_of_requestOf hreq]
    rw [hsplit, own_append, howne, length_append, length_cons, List.length_singleton]
      at hlen
    apply List.eq_nil_of_length_eq_zero
    omega
  · intro r' hr'
    rcases hsince.mailbox r' hr' with hold | ⟨l', e', t', hsplit', hstep', hport'⟩
    · exact Or.inl hold
    · exact Or.inr (hmessage hsplit' hstep' hport').2.1

/-- The counts of a push, and what they stand for. -/
theorem pushedCounts_cases (hpre : v3PreflightRuleset rs = some c) (mode : UInt8) :
    (pushedCounts c mode.toNat = ({}, JMX_V3_MODE_OFF) ∧
      rs.pushed mode = ⟨JMX_V3_MODE_OFF, emptyDigest, [], [], []⟩) ∨
    (pushedCounts c mode.toNat = (c, mode.toNat) ∧ c.rules ≠ 0 ∧
      rs.pushed mode = rs.content mode) := by
  obtain ⟨hrules, -⟩ := v3PreflightRuleset_counts hpre
  have hiff : c.rules = 0 ↔ rs.activeRules = [] := by rw [hrules, List.length_eq_zero_iff]
  unfold pushedCounts ChainRuleSet.pushed
  by_cases hoff : mode.toNat = JMX_V3_MODE_OFF ∨ c.rules = 0
  · rw [if_pos hoff, if_pos (hoff.imp_right hiff.mp)]
    exact Or.inl ⟨rfl, rfl⟩
  · rw [if_neg hoff, if_neg (fun h => hoff (h.imp_right hiff.mpr))]
    exact Or.inr ⟨rfl, fun h => hoff (.inr h), rfl⟩

/-- **The conclusion from the acknowledgements.**  An acknowledged BEGIN, requests that carry the
    declared numbers of records, and an acknowledgement that reports the generation as active. -/
theorem active_of_acked {generation mode action : ℕ} (hb : b.Fits)
    (hgen : generation < 4294967296) (hne : generation ≠ 0) (hmode : mode < 4294967296)
    {w w₁ w' : World}
    (hsend : v3SendRequest channel JMX_NL_ACT_RULESET_BEGIN_V3 generation mode sizeofBegin 1
      b.toBytes w = (.ok status, w₁)) (hfresh : ∀ r ∈ w.mailbox, r.seq ∉ w'.used)
    (hsince : Since portid w₁ w' es) (hcarries : Carries portid es rules steps ports)
    (hrules : b.expectedRules = rules.length) (hsteps : b.expectedSteps = steps.length)
    (hports : b.expectedPorts = ports.length) (haction : action ≠ JMX_NL_ACT_RULESET_BEGIN_V3)
    (hacked : Acked w' action generation) :
    (∃ past set, w.history <+: past ∧ past <+: w'.history ∧
      (run rulesInit past).active = some set ∧ set.generation = generation ∧
      set.content = ⟨(UInt32.ofNat mode &&& JMX_V3_TX_MODE_MASK).toNat, b.catalogDigest,
        rules.map ruleOfWire, steps.map stepOfWire, ports.map portOfWire⟩) ∨
    (∃ past e other, w.history <+: past ∧ past ++ [e] <+: w'.history ∧ other ≠ portid ∧
      Takes (run rulesInit past) e other generation .commit) := by
  obtain ⟨l₀, eb, t₀, hhist, hbegin, hown₀, hmail⟩ := begin_acked channel hb hgen hne hmode hsend
    (fun r hr hseq => hfresh r hr (hsince.used _ hseq))
  obtain ⟨r, hr, hseq, hact, -, hrgen⟩ := hacked
  -- the reply was sent behind the BEGIN
  rcases hsince.mailbox r hr with hearly | ⟨l, e, t, hsplit, hstep, -⟩
  · rcases hmail r hearly with hold | hbeg
    · exact absurd hseq (hfresh r hold)
    · rw [hbeg] at hact
      exact absurd hact.symm haction
  obtain ⟨_, _, _, _, _, _, _, _, _, hsnap⟩ := step_reply hstep
  have hpast : w₁.history ++ l ++ [e] = w.history ++ l₀ ++ eb :: (t₀ ++ (l ++ [e])) := by
    rw [hhist]
    simp
  have hwhole : w'.history = w₁.history ++ l ++ [e] ++ t := by
    rw [hsince.history, hsplit]
    simp
  -- so its generation was the active one right behind `e`
  have hactive : ∃ set, (run rulesInit (w₁.history ++ l ++ [e])).active = some set ∧
      set.generation = generation := by
    rw [run_concat]
    rw [hsnap] at hrgen
    cases hset : (step (run rulesInit (w₁.history ++ l)) e).1.active with
    | none =>
      simp only [getSnapshot, hset, map_none, getD_none] at hrgen
      exact absurd hrgen hne
    | some set =>
      simp only [getSnapshot, hset, map_some, getD_some] at hrgen
      have hlt : set.generation < 4294967296 := by
        rw [← run_concat] at hset
        exact active_generation_lt hset
      rw [Nat.mod_eq_of_lt hlt] at hrgen
      exact ⟨set, rfl, hrgen.symm⟩
  obtain ⟨set, hset, hsetgen⟩ := hactive
  rw [hpast] at hset
  have hcarries' : Carries portid (t₀ ++ (l ++ [e])) rules steps ports := by
    have hzero : Carries portid t₀ [] [] [] :=
      carries_of_sublist (hown₀ ▸ List.Sublist.refl _) rfl rfl rfl
        (fun _ h => absurd h not_mem_nil)
    have hall := hzero.append hcarries
    have hassoc : t₀ ++ es = t₀ ++ (l ++ [e]) ++ t := by
      rw [hsplit]
      simp
    rw [hassoc] at hall
    exact hall.of_append
  rcases activated_behind_begin hbegin hcarries'.noBegin hset hsetgen with
    ⟨s, post, hproper, hport, hdecl, hflags, hrest, hsame, hwf⟩ | ⟨mid, c, post, other, hrest, hother,
      hcommit⟩
  · refine Or.inl ⟨_, set, ?_, ?_, hset, hsetgen, ?_⟩
    · exact ⟨l₀ ++ eb :: (t₀ ++ (l ++ [e])), by simp⟩
    · rw [hwhole, hpast]
      exact List.prefix_append _ _
    · rw [hrest] at hcarries'
      subst hport
      have hcontent := Session.content_eq hproper hcarries'.of_append hsame hwf (by rw [hdecl, hrules])
        (by rw [hdecl, hsteps]) (by rw [hdecl, hports])
      rw [hcontent, hflags, hdecl]
  · refine Or.inr ⟨w.history ++ l₀ ++ eb :: mid, c, other, ?_, ?_, hother, hcommit⟩
    · exact ⟨l₀ ++ eb :: mid, by simp⟩
    · rw [hwhole, hpast, hrest]
      exact ⟨post ++ t, by simp⟩

/-- The BEGIN of a push fits its record. -/
theorem pushedBegin_fits (rs : ChainRuleSet)
    (h : c.rules ≤ U32_MAX ∧ c.steps ≤ U32_MAX ∧ c.ports ≤ U32_MAX) : (pushedBegin rs c).Fits := by
  obtain ⟨h1, h2, h3⟩ := h
  rw [U32_MAX] at h1 h2 h3
  refine ⟨by simp only [pushedBegin]; omega, by simp only [pushedBegin]; omega,
    by simp only [pushedBegin]; omega, c.caps.toNat_lt, ?_⟩
  simp only [pushedBegin]
  split
  · exact Vector.length_toList
  · rfl

/-- **A push that returns 0.**  At some moment of the call the active set was exactly what is pushed
    of the store; or another sender committed a set of the same generation during the call.  The
    replies left over from before the call must not carry its sequence numbers. -/
theorem jmxNlPushChainRules_active {generation : UInt32} {mode : UInt8}
    (h : jmxNlPushChainRules channel rs generation mode w = (true, w'))
    (hfresh : ∀ r ∈ w.mailbox, r.seq ∉ w'.used) :
    (∃ past set, w.history <+: past ∧ past <+: w'.history ∧
      (run rulesInit past).active = some set ∧ set.generation = generation.toNat ∧
      set.content = rs.pushed mode) ∨
    (∃ past e other, w.history <+: past ∧ past ++ [e] <+: w'.history ∧ other ≠ portid ∧
      Takes (run rulesInit past) e other generation.toNat .commit) := by
  unfold jmxNlPushChainRules at h
  split at h
  · cases h
  next hok =>
  simp only [not_or, not_lt] at hok
  have hgen : generation.toNat < 4294967296 := generation.toNat_lt
  have hne : generation.toNat ≠ 0 := by
    intro hzero
    exact hok.1 (UInt32.toNat_inj.mp hzero)
  cases hpre : v3PreflightRuleset rs with
  | none =>
    rw [hpre] at h
    cases h
  | some c =>
  rw [hpre] at h
  dsimp only at h
  obtain ⟨hnr, hns, hnp, hmax⟩ := v3PreflightRuleset_counts hpre
  cases hsend : v3SendRequest channel JMX_NL_ACT_RULESET_BEGIN_V3 generation.toNat
      (pushedCounts c mode.toNat).2 sizeofBegin 1
      (pushedBegin rs (pushedCounts c mode.toNat).1).toBytes w with
  | mk ack w₁ =>
  rw [hsend] at h
  cases ack with
  | nack status => cases h
  | unknown => cases h
  | ok status =>
  dsimp only at h
  cases hrec : v3SendRecords channel rs generation.toNat (pushedCounts c mode.toNat).1.rules w₁ with
  | mk done w₂ =>
  rw [hrec] at h
  cases done with
  | false => cases h
  | true =>
  dsimp only at h
  obtain ⟨es, hsince, hempty, hfull⟩ := v3SendRecords_carries channel hgen hne hrec
  obtain ⟨es', action, hsince', hcarries', haction, hacked⟩ := v3FinishPush_acked channel hgen hne h
  rcases pushedCounts_cases hpre mode with ⟨hcounts, hpushed⟩ | ⟨hcounts, hpos, hpushed⟩
  · -- the explicit empty set
    rw [hcounts] at hsend hempty
    have hcarries := (hempty rfl).append hcarries'
    have hfits : (pushedBegin rs {}).Fits := pushedBegin_fits rs (by decide)
    have hall := active_of_acked channel hfits hgen hne (by decide) hsend hfresh
      (hsince.trans hsince') hcarries rfl rfl rfl haction hacked
    rw [hpushed]
    exact hall
  · rw [hcounts] at hsend hfull
    obtain ⟨rwires, swires, pwires, hr, hs, hp, hcarries⟩ := hfull hpos
    obtain ⟨hrmap, hrlen⟩ := map_ofWire_of_mapM (fun _ _ => ruleOfWire_eq) hr
    obtain ⟨hsmap, hslen⟩ := map_ofWire_of_mapM (fun _ _ => stepOfWire_eq) hs
    obtain ⟨hpmap, hplen⟩ := map_ofWire_of_mapM (fun _ _ => portOfWire_eq) hp
    have hfits := pushedBegin_fits rs hmax
    have hmode : mode.toNat < 4294967296 := lt_of_lt_of_le mode.toNat_lt (by decide)
    have hcarries'' := hcarries.append hcarries'
    rw [append_nil, append_nil, append_nil] at hcarries''
    have hall := active_of_acked channel hfits hgen hne hmode hsend hfresh
      (hsince.trans hsince') hcarries'' (hnr.trans hrlen.symm) (hns.trans hslen.symm)
      (hnp.trans hplen.symm) haction hacked
    have hflags : (UInt32.ofNat mode.toNat &&& JMX_V3_TX_MODE_MASK).toNat = mode.toNat := by
      have hall : ∀ n ≤ 2, (UInt32.ofNat n &&& JMX_V3_TX_MODE_MASK).toNat = n := by decide
      exact hall mode.toNat hok.2
    have hdigest : (pushedBegin rs c).catalogDigest = rs.catalogDigest.toList := if_pos hpos
    rw [hrmap, hsmap, hpmap, hflags, hdigest] at hall
    rw [hpushed]
    exact hall

end Channel

/-! ### The whole statement -/

/-- At some moment of the call from `w` to `w'` the active set had this generation and content. -/
def ExactDuring (w w' : World) (generation : ℕ) (content : Content) : Prop :=
  ∃ past set, w.history <+: past ∧ past <+: w'.history ∧
    (run rulesInit past).active = some set ∧ set.generation = generation ∧ set.content = content

/-- During the call from `w` to `w'` another sender committed a set of this generation. -/
def CommittedByOther (portid : ℕ) (w w' : World) (generation : ℕ) : Prop :=
  ∃ past e other, w.history <+: past ∧ past ++ [e] <+: w'.history ∧ other ≠ portid ∧
    Takes (run rulesInit past) e other generation .commit

/-- The kernel then answers every packet by a set of this content. -/
def Decides (past : List Event) (content : Content) : Prop :=
  ∃ set, set.content = content ∧ ∀ pkt,
    let answer := matchPayload (run rulesInit past).active pkt
    if answer.exhausted then answer.appid = 0 ∧ answer.priority = U32_MAX
    else IsBest (fun rule => rule ∈ set.rules ∧ Matches set pkt rule) answer.appid answer.priority

/-- A store with one active rule of one step. -/
def oneRuleStore (appid : UInt32) : ChainRuleSet where
  rules := [⟨5, appid, 10, 0x401, 0, 0, 1, 0, 0, 0, 0, 1⟩]
  steps := [{
    signatureRuleId := 5
    stepIndex := 0
    matcherType := 1
    condition := 1
    caseMode := 2
    inputView := 0
    positionFlags := 0
    numericEncoding := 0
    literalOption := 0
    depth := 0
    offset := 0
    distance := 0
    within := 0
    payloadLen := 1
    referenceSource := 0
    comparison := 0
    adjustMode := 0
    width := 0
    jumpMultiplier := 0
    inlineOperand := 0
    adjustmentOperand := 0
    jumpBase := 0
    payload := (Vector.replicate 64 0).set 0 65 }]
  ports := []
  catalogDigest := Vector.replicate 32 1

/-- A channel that delivers everything, to a daemon on port 7. -/
def reliable : ℕ → Exchange 7 := fun k => { delivered := some (.at 1000), reads := [k] }

/-- The daemon before its first push. -/
def freshWorld : World := { history := [], seq := 0 }

/-- The events of port 9 that load and commit a store of its own, as the kernel sees them. -/
def otherCommit : List Event :=
  let send (seq action flags recordSize count : ℕ) (payload : List UInt8) : Event :=
    .message (.at 9000) ⟨requestBytes action 1 flags recordSize count payload, 9, seq⟩
  let store := oneRuleStore 78
  [send 1 JMX_NL_ACT_RULESET_BEGIN_V3 1 sizeofBegin 1
      (NlBegin.toBytes ⟨1, 1, 0, 0x401, List.replicate 32 1⟩),
    send 2 JMX_NL_ACT_RULE_V3_BATCH 0 sizeofRule 1
      ((store.rules.filterMap v3RuleToWire).flatMap NlRule.toBytes),
    send 3 JMX_NL_ACT_STEP_V3_BATCH 0 sizeofStep 1
      ((store.steps.filterMap v3StepToWire).flatMap NlStep.toBytes),
    send 4 JMX_NL_ACT_RULESET_COMMIT_V3 0 0 0 []]

/-- A channel on which the COMMIT is lost while the transaction expires and port 9 commits. -/
def overtaken : ℕ → Exchange 7 := fun k =>
  if k < 3 then { delivered := some (.at 1000), reads := [k] }
  else if k = 3 then
    { before := (Event.tick 9000 :: otherCommit).filterMap fun e =>
        if h : e.Foreign 7 then some ⟨e, h⟩ else none
      delivered := none
      reads := [] }
  else { delivered := some (.at 9000), reads := [3] }

/-- The daemon after a push of the generation 1 and an explicit empty set of the generation 2, when
    the counter is about to wrap and the replies to the first push are still in the mailbox. -/
def wrappedWorld : World :=
  let first := (jmxNlPushChainRules reliable (oneRuleStore 77) 1 1 freshWorld).2
  let later : ℕ → Exchange 7 := fun k => { delivered := some (.at 1000), reads := [k + 4] }
  let second := (jmxNlPushChainRules later (oneRuleStore 77) 2 0 { first with requests := 0 }).2
  { history := second.history, seq := 4294967295, mailbox := first.mailbox }

/-- A channel that delivers nothing, while the daemon reads one old reply after the other. -/
def stale : ℕ → Exchange 7 := fun k => { delivered := none, reads := [k] }

/-- No moment of a call has this content, by checking all of them. -/
theorem not_exactDuring {generation : ℕ} {content : Content}
    (h : ∀ past ∈ w'.history.inits, w.history <+: past →
      (run rulesInit past).active.map RuleSet.content ≠ some content) :
    ¬ ExactDuring w w' generation content := by
  rintro ⟨past, set, hpre, hpast, hactive, -, hcontent⟩
  refine h past ((List.mem_inits past w'.history).mpr hpast) hpre ?_
  rw [hactive, map_some, hcontent]

end DreamingOS.V3
