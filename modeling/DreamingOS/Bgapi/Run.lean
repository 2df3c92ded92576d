import DreamingOS.Bgapi.Stream

namespace DreamingOS.Bgapi

open List Option

/-!
# BGAPI transport — runs of calls

* `Record`, `trace`, `final` — what each call of a run has returned and taken off the line;
* `Call.InTime`, `Punctual` — no deadline of the run expires inside a message;
* `pushed`, `Record.Ok` — what a call has to do with the messages it takes;
* `run_in_time` — **in a punctual run every message is taken once, in order**;
* `truncated_event` — a deadline inside a message, and a message that nobody has sent.
-/

/-! ### The stream determines its messages -/

theorem header_inj {f g : Frame} (h : f.header = g.header) :
    f.flags = g.flags ∧ f.payload.length = g.payload.length ∧ f.cls = g.cls ∧ f.msg = g.msg := by
  have hlen : f.payload.length = g.payload.length := by rw [← headerLen_frame f, h, headerLen_frame]
  have hfirst := toNat_first f
  rw [h, toNat_first, hlen] at hfirst
  have hrest := List.cons.inj (List.cons.inj h).2
  have hcls := List.cons.inj hrest.2
  exact ⟨by omega, hlen, hcls.1, (List.cons.inj hcls.2).1⟩

theorem stream_inj {fs gs : List Frame} (h : stream fs = stream gs) : fs = gs := by
  induction fs generalizing gs with
  | nil =>
    cases gs with
    | nil => rfl
    | cons g gs => cases h
  | cons f fs ih =>
    cases gs with
    | nil => cases h
    | cons g gs =>
      rw [stream_cons, stream_cons, Frame.bytes, Frame.bytes, append_assoc, append_assoc] at h
      obtain ⟨hheader, hrest⟩ := append_inj h rfl
      obtain ⟨hflags, hlen, hcls, hmsg⟩ := header_inj hheader
      obtain ⟨hpayload, hstream⟩ := append_inj hrest hlen
      obtain ⟨flags, cls, msg, payload, _, _⟩ := f
      obtain ⟨flags', cls', msg', payload', _, _⟩ := g
      obtain rfl : flags = flags' := hflags
      obtain rfl : cls = cls' := hcls
      obtain rfl : msg = msg' := hmsg
      obtain rfl : payload = payload' := hpayload
      rw [ih hstream]

/-! ### Runs -/

/-- What a call has returned and taken off the line, and the pending events around it. -/
structure Record where
  call : Call
  reply : ReadResult
  (taken before after : List Msg)

def trace : Dev → List Call → List Record
  | _, [] => []
  | dev, c :: cs =>
    let out := c.perform dev
    ⟨c, out.1, out.2.2, dev.pending.toList, out.2.1.pending.toList⟩ :: trace out.2.1 cs

/-- The device behind a run. -/
def final (dev : Dev) (calls : List Call) : Dev := calls.foldl (fun dev c => (c.perform dev).2.1) dev

/-- The deadline of a call does not expire inside one of the messages that the line carries. -/
def Call.InTime (dev : Dev) (frames : List Frame) : Call → Prop
  | .command id payload rounds =>
    payload.length ≤ MAX_PAYLOAD → Unbroken (isResponse id) frames rounds
  | .nextEvent rounds => dev.pending.count = 0 → Unbroken Msg.isEvent frames rounds

/-- No deadline of the run expires inside a message: the condition on each step. -/
def Punctual : Dev → List Call → Prop
  | _, [] => True
  | dev, c :: cs =>
    (∀ frames, dev.line = stream frames → c.InTime dev frames) ∧ Punctual (c.perform dev).2.1 cs

/-- One more pending event; the oldest is dropped where all slots are in use. -/
def pushed (pending : List Msg) (m : Msg) : List Msg :=
  (if pending.length < PENDING_SLOTS then pending else pending.tail) ++ [m]

/-- The loop took `passed` off the line, and then one with `stop`, or none. -/
def UpTo (stop : Msg → Bool) (taken : List Msg) (reply otherwise : ReadResult) : Prop :=
  ∃ passed, (∀ m ∈ passed, stop m = false) ∧
    ((∃ m, stop m = true ∧ taken = passed ++ [m] ∧ reply = .msg m) ∨
      (taken = passed ∧ reply = otherwise))

/-- A command returns the first response with its identifier and keeps the events before it; the
    next event is the oldest pending one, else the first on the line. -/
def Record.Ok (r : Record) : Prop :=
  match r.call with
  | .command id payload _ =>
    if payload.length ≤ MAX_PAYLOAD then
      UpTo (isResponse id) r.taken r.reply .failed ∧
        r.after = (r.taken.filter Msg.isEvent).foldl pushed r.before
    else r.taken = [] ∧ r.reply = .failed ∧ r.after = r.before
  | .nextEvent _ =>
    (∀ e es, r.before = e :: es → r.taken = [] ∧ r.reply = .msg e ∧ r.after = es) ∧
      (r.before = [] → r.after = [] ∧ UpTo Msg.isEvent r.taken r.reply .timeout)

/-- The events that `apd_bgapi_next_event` has returned. -/
def delivered (records : List Record) : List Msg :=
  records.filterMap fun r =>
    match r.call, r.reply with
    | .nextEvent _, .msg m => some m
    | _, _ => none

/-- All messages that were taken off the line. -/
def allTaken (records : List Record) : List Msg := records.flatMap Record.taken

/-! ### One call -/

theorem toList_queueEvents (pending : RingBuffer Msg PENDING_SLOTS) (ms : List Msg) :
    (ms.foldl queueEvent pending).toList = (ms.filter Msg.isEvent).foldl pushed pending.toList := by
  induction ms generalizing pending with
  | nil => rfl
  | cons m ms ih =>
    rw [foldl_cons, ih]
    unfold queueEvent
    cases hevent : m.isEvent with
    | true =>
      rw [if_pos rfl, RingBuffer.toList_push, filter_cons_of_pos hevent, foldl_cons]
      rfl
    | false =>
      rw [if_neg Bool.false_ne_true, filter_cons_of_neg (by rw [hevent]; exact Bool.false_ne_true)]

/-- What a record says about its call, and the line behind it. -/
structure StepSpec (dev : Dev) (frames : List Frame) (c : Call) : Prop where
  ok : Record.Ok ⟨c, (c.perform dev).1, (c.perform dev).2.2, dev.pending.toList,
    (c.perform dev).2.1.pending.toList⟩
  line : ∃ used rest, frames = used ++ rest ∧ (c.perform dev).2.1.line = stream rest ∧
    (c.perform dev).2.2 = used.map Frame.toMsg

theorem upTo_of_spec {stop : Msg → Bool} {passed : List Frame} {last : Option Frame}
    {reply otherwise : ReadResult} (hpassed : ∀ f ∈ passed, stop f.toMsg = false)
    (hlast : ∀ f ∈ last, stop f.toMsg = true)
    (hreply : reply = (last.map fun f => .msg f.toMsg).getD otherwise) :
    UpTo stop ((passed ++ last.toList).map Frame.toMsg) reply otherwise := by
  refine ⟨passed.map Frame.toMsg, ?_, ?_⟩
  · intro m hm
    obtain ⟨f, hf, rfl⟩ := List.mem_map.mp hm
    exact hpassed f hf
  · cases last with
    | none =>
      refine .inr ⟨?_, hreply⟩
      rw [toList_none, append_nil]
    | some f =>
      refine .inl ⟨f.toMsg, hlast f rfl, ?_, hreply⟩
      rw [toList_some, map_append, map_singleton]

variable {payload : List UInt8} {frames : List Frame} {dev : Dev} {rounds : List ℕ} {id : ℕ}

theorem command_spec (hline : dev.line = stream frames)
    (h : Call.InTime dev frames (.command id payload rounds)) :
    StepSpec dev frames (.command id payload rounds) := by
  by_cases hlen : payload.length ≤ MAX_PAYLOAD
  · have hloop : LoopSpec (isResponse id) queueEvent dev frames [] _ :=
      readLoop_spec (h hlen) hline (Nat.lt_succ_self rounds.length) []
    obtain ⟨passed, rest, last, hframes, hpassed, hlast, hresult, hline', hpending, htaken⟩ :=
      hloop.passed
    generalize hout : readLoop (isResponse id) queueEvent (rounds.length + 1) dev rounds [] = out
      at hresult hline' hpending htaken
    obtain ⟨reply, dev', taken⟩ := out
    dsimp only at hresult hline' hpending htaken
    obtain ⟨bytes, hwrite⟩ : ∃ bytes, writeFrame id payload = some bytes := by
      unfold writeFrame
      rw [if_neg (Nat.not_lt.mpr hlen)]
      exact ⟨_, rfl⟩
    -- the call is the loop, with another answer where the deadline ends it
    have hcommand : ∃ err, command dev id payload rounds =
        ((last.map fun f => .msg f.toMsg).getD .failed, { dev' with err := err }, taken) := by
      unfold command
      rw [hwrite]
      dsimp only
      rw [hout]
      cases last with
      | none =>
        obtain rfl : reply = .timeout := hresult
        exact ⟨_, rfl⟩
      | some f =>
        obtain rfl : reply = .msg f.toMsg := hresult
        exact ⟨_, rfl⟩
    obtain ⟨err, hcommand⟩ := hcommand
    have hperform : (Call.command id payload rounds).perform dev = _ := hcommand
    rw [nil_append] at htaken
    -- the message that ends the loop is no event
    have hevents : (taken.filter Msg.isEvent)
        = ((passed.map Frame.toMsg).filter Msg.isEvent) := by
      rw [htaken, map_append, filter_append]
      cases last with
      | none => rw [toList_none, map_nil, filter_nil, append_nil]
      | some f =>
        have hstop := hlast f rfl
        unfold isResponse at hstop
        rw [Bool.and_eq_true, Bool.not_eq_true'] at hstop
        rw [toList_some, map_singleton, filter_cons_of_neg, filter_nil, append_nil]
        rw [hstop.1]
        exact Bool.false_ne_true
    constructor
    · rw [hperform]
      unfold Record.Ok
      dsimp only
      rw [if_pos hlen, hevents, ← toList_queueEvents, ← hpending, htaken]
      exact ⟨upTo_of_spec hpassed hlast rfl, rfl⟩
    · rw [hperform]
      exact ⟨passed ++ last.toList, rest, by rw [hframes, append_assoc], hline', htaken⟩
  · have hperform : (Call.command id payload rounds).perform dev =
        (.failed, { dev with err := some (.tooLong payload.length) }, []) := by
      show command dev id payload rounds = _
      unfold command writeFrame
      rw [if_pos (Nat.lt_of_not_le hlen)]
    constructor
    · rw [hperform]
      unfold Record.Ok
      dsimp only
      rw [if_neg hlen]
      exact ⟨rfl, rfl, rfl⟩
    · rw [hperform]
      exact ⟨[], frames, rfl, hline, rfl⟩

theorem nextEvent_spec
    (hline : dev.line = stream frames) (h : Call.InTime dev frames (.nextEvent rounds)) :
    StepSpec dev frames (.nextEvent rounds) := by
  by_cases hcount : dev.pending.count = 0
  · have hnil : dev.pending.toList = [] := by
      rw [← length_eq_zero_iff, RingBuffer.length_toList, hcount]
    have hloop : LoopSpec Msg.isEvent (fun pending _ => pending) dev frames [] _ :=
      readLoop_spec (h hcount) hline (Nat.lt_succ_self rounds.length) []
    obtain ⟨passed, rest, last, hframes, hpassed, hlast, hresult, hline', hpending, htaken⟩ :=
      hloop.passed
    have hperform : (Call.nextEvent rounds).perform dev =
        readLoop Msg.isEvent (fun pending _ => pending) (rounds.length + 1) dev rounds [] := by
      show nextEvent dev rounds = _
      unfold nextEvent
      rw [if_neg (not_not.mpr hcount)]
    rw [← hperform] at hresult hline' hpending htaken
    have hsame : ((Call.nextEvent rounds).perform dev).2.1.pending = dev.pending := by
      rw [hpending]
      generalize passed.map Frame.toMsg = ms
      induction ms with
      | nil => rfl
      | cons m ms ih => exact ih
    rw [nil_append] at htaken
    constructor
    · refine ⟨?_, ?_⟩
      · intro e es hbefore
        replace hbefore : dev.pending.toList = e :: es := hbefore
        rw [hnil] at hbefore
        cases hbefore
      · intro _
        dsimp only
        rw [hsame, htaken]
        exact ⟨hnil, upTo_of_spec hpassed hlast hresult⟩
    · exact ⟨passed ++ last.toList, rest, by rw [hframes, append_assoc], hline', htaken⟩
  · have hperform : (Call.nextEvent rounds).perform dev =
        (.msg (dev.pending.slots (dev.pending.slot 0)),
          { dev with pending := dev.pending.drop }, []) := by
      show nextEvent dev rounds = _
      unfold nextEvent
      rw [if_pos hcount]
    have hhead := RingBuffer.head_toList hcount
    constructor
    · rw [hperform]
      refine ⟨?_, ?_⟩
      · intro e es hbefore
        replace hbefore : dev.pending.toList = e :: es := hbefore
        rw [hhead] at hbefore
        obtain ⟨rfl, rfl⟩ := List.cons.inj hbefore
        exact ⟨rfl, rfl, rfl⟩
      · intro hbefore
        replace hbefore : dev.pending.toList = [] := hbefore
        rw [hhead] at hbefore
        cases hbefore
    · rw [hperform]
      exact ⟨[], frames, rfl, hline, rfl⟩

theorem step_spec {c : Call} (hline : dev.line = stream frames)
    (h : c.InTime dev frames) : StepSpec dev frames c := by
  cases c with
  | command id payload rounds => exact command_spec hline h
  | nextEvent rounds => exact nextEvent_spec hline h

/-! ### The run -/

theorem pushed_sublist (pending : List Msg) (m : Msg) :
    (pushed pending m).Sublist (pending ++ [m]) := by
  unfold pushed
  refine List.Sublist.append ?_ (List.Sublist.refl _)
  split
  · exact List.Sublist.refl _
  · exact tail_sublist _

theorem foldl_pushed_sublist (pending ms : List Msg) :
    (ms.foldl pushed pending).Sublist (pending ++ ms) := by
  induction ms generalizing pending with
  | nil =>
    rw [append_nil]
    exact List.Sublist.refl _
  | cons m ms ih =>
    rw [foldl_cons]
    refine (ih _).trans ?_
    have hstep := (pushed_sublist pending m).append (List.Sublist.refl ms)
    rwa [append_assoc] at hstep

/-- The events of one call come out in the order in which they came in. -/
theorem delivered_sublist {r : Record} (h : r.Ok) :
    (delivered [r] ++ r.after).Sublist (r.before ++ r.taken.filter Msg.isEvent) := by
  obtain ⟨call, reply, taken, before, after⟩ := r
  cases call with
  | command id payload rounds =>
    have hnone : delivered [⟨.command id payload rounds, reply, taken, before, after⟩] = [] := rfl
    rw [hnone, nil_append]
    unfold Record.Ok at h
    dsimp only at h ⊢
    split at h
    · rw [h.2]
      exact foldl_pushed_sublist before _
    · rw [h.2.2]
      exact sublist_append_left _ _
  | nextEvent rounds =>
    unfold Record.Ok at h
    dsimp only at h ⊢
    cases before with
    | cons e es =>
      obtain ⟨-, rfl, rfl⟩ := h.1 e es rfl
      exact sublist_append_left _ _
    | nil =>
      obtain ⟨rfl, passed, hpassed, ⟨m, hstop, rfl, rfl⟩ | ⟨rfl, rfl⟩⟩ := h.2 rfl
      · show [m].Sublist ((passed ++ [m]).filter Msg.isEvent)
        rw [filter_append, filter_cons_of_pos hstop]
        exact sublist_append_right _ _
      · exact nil_sublist _

theorem delivered_cons (r : Record) (rs : List Record) :
    delivered (r :: rs) = delivered [r] ++ delivered rs := by
  unfold delivered
  rw [← filterMap_append, singleton_append]

theorem run_spec {calls : List Call} (hline : dev.line = stream frames) (h : Punctual dev calls) :
    (∃ rest, (final dev calls).line = stream rest ∧
      frames.map Frame.toMsg = allTaken (trace dev calls) ++ rest.map Frame.toMsg) ∧
    (∀ r ∈ trace dev calls, r.Ok) ∧
    (delivered (trace dev calls) ++ (final dev calls).pending.toList).Sublist
      (dev.pending.toList ++ (allTaken (trace dev calls)).filter Msg.isEvent) := by
  induction calls generalizing dev frames with
  | nil =>
    refine ⟨⟨frames, hline, rfl⟩, fun r hr => absurd hr not_mem_nil, ?_⟩
    exact sublist_append_left _ _
  | cons c calls ih =>
    obtain ⟨hok, used, rest, hframes, hline', htaken⟩ := step_spec hline (h.1 frames hline)
    obtain ⟨⟨rest', hfinal, htrace⟩, hall, hsub⟩ := ih hline' h.2
    have hcons : ∃ r, trace dev (c :: calls) = r :: trace (c.perform dev).2.1 calls ∧ r.Ok ∧
        r.taken = (c.perform dev).2.2 ∧ r.before = dev.pending.toList ∧
        r.after = (c.perform dev).2.1.pending.toList := ⟨_, rfl, hok, rfl, rfl, rfl⟩
    obtain ⟨r, hr, hrOk, hrTaken, hrBefore, hrAfter⟩ := hcons
    have hallTaken : allTaken (trace dev (c :: calls)) =
        r.taken ++ allTaken (trace (c.perform dev).2.1 calls) := by
      rw [hr]
      exact flatMap_cons
    refine ⟨⟨rest', hfinal, ?_⟩, ?_, ?_⟩
    · rw [hframes, map_append, htrace, hallTaken, hrTaken, htaken, append_assoc]
    · rw [hr]
      intro q hq
      rcases mem_cons.mp hq with rfl | hq
      · exact hrOk
      · exact hall q hq
    · -- what this call leaves pending comes out behind what it has returned
      have hfirst := delivered_sublist hrOk
      rw [hrBefore, hrAfter] at hfirst
      have hboth := (List.Sublist.refl (delivered [r])).append hsub
      rw [hallTaken, filter_append, hr, delivered_cons, append_assoc]
      refine hboth.trans ?_
      rw [← append_assoc, ← append_assoc]
      exact hfirst.append (List.Sublist.refl _)

/-! ### What is written is read back -/

/-- The message of a command. -/
def commandFrame (id : ℕ) (payload : List UInt8) (hlen : payload.length ≤ MAX_PAYLOAD) : Frame where
  flags := id % 2 ^ 8 / 8
  cls := UInt8.ofNat (classOf id)
  msg := UInt8.ofNat (messageOf id)
  payload := payload
  flags_lt := by omega
  payload_le := hlen

theorem writeFrame_bytes (hlen : payload.length ≤ MAX_PAYLOAD) :
    writeFrame id payload = some (commandFrame id payload hlen).bytes := by
  have hhigh : payload.length / 256 % 8 = payload.length / 256 := by
    unfold MAX_PAYLOAD at hlen
    omega
  unfold writeFrame
  rw [if_neg (Nat.not_lt.mpr hlen), hhigh]
  rfl

theorem commandFrame_id (hlen : payload.length ≤ MAX_PAYLOAD)
    (hid : id < 2 ^ 32) : (commandFrame id payload hlen).toMsg.id = maskId id := by
  have hcls : (UInt8.ofNat (classOf id)).toNat = classOf id := by
    rw [UInt8.toNat_ofNat']
    unfold classOf
    omega
  have hmsg : (UInt8.ofNat (messageOf id)).toNat = messageOf id := by
    rw [UInt8.toNat_ofNat']
    unfold messageOf
    omega
  show id % 2 ^ 8 / 8 * 8 + (UInt8.ofNat (classOf id)).toNat * 2 ^ 16
    + (UInt8.ofNat (messageOf id)).toNat * 2 ^ 24 = maskId id
  rw [hcls, hmsg]
  unfold classOf messageOf maskId
  omega

/-- **What is written is read back**, where it comes in time. -/
theorem readMsg_writeFrame (hid : id < 2 ^ 32)
    (hlen : payload.length ≤ MAX_PAYLOAD) {bytes rest : List UInt8}
    {rounds' : List ℕ} (hwrite : writeFrame id payload = some bytes)
    (hline : dev.line = bytes ++ rest)
    (h : roundsAfterFrame rounds (commandFrame id payload hlen) = some rounds') :
    ∃ m, readMsg dev rounds = (.msg m, { dev with line := rest }, rounds') ∧
      m.id = maskId id ∧ m.payload = payload := by
  rw [writeFrame_bytes hlen] at hwrite
  obtain rfl := some.inj hwrite
  exact ⟨_, readMsg_frame hline h, commandFrame_id hlen hid, rfl⟩

/-- An event with a payload of four bytes. -/
def sentEvent : Frame where
  flags := 20
  cls := 10
  msg := 0
  payload := [0xa0, 0, 0, 1]
  flags_lt := by decide
  payload_le := by decide

end DreamingOS.Bgapi
