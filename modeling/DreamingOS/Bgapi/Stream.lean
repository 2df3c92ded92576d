import DreamingOS.Bgapi.Transport

namespace DreamingOS.Bgapi

open List Option

/-!
# BGAPI transport — a stream of whole messages

* `Frame`, `Frame.bytes`, `Frame.toMsg` — a valid message, on the line and in memory;
* `roundsAfter` — the rounds that are left once a number of bytes is there;
* `Unbroken` — the deadline of a call does not expire inside a message;
* `readMsg_frame`, `readMsg_idle` — reading at the start of a message, with and without it coming
  in time;
* `readLoop_spec` — **a loop whose deadline breaks no message** takes whole messages off the line.
-/

/-! ### Messages -/

/-- A valid message: the five high bits of the first byte, the class, the message, the payload. -/
structure Frame where
  flags : ℕ
  (cls msg : UInt8)
  payload : List UInt8
  flags_lt : flags < 32
  payload_le : payload.length ≤ MAX_PAYLOAD

/-- The four bytes of the header. -/
def Frame.header (f : Frame) : List UInt8 :=
  [UInt8.ofNat (f.flags * 8 + f.payload.length / 256), UInt8.ofNat (f.payload.length % 256),
    f.cls, f.msg]

/-- The bytes on the line. -/
def Frame.bytes (f : Frame) : List UInt8 := f.header ++ f.payload

/-- The message in memory. -/
def Frame.toMsg (f : Frame) : Msg where
  id := f.flags * 8 + f.cls.toNat * 2 ^ 16 + f.msg.toNat * 2 ^ 24
  cls := f.cls
  msg := f.msg
  isEvent := 16 ≤ f.flags
  payload := f.payload

/-- The bytes of a run of messages. -/
def stream (frames : List Frame) : List UInt8 := frames.flatMap Frame.bytes

theorem stream_cons (f : Frame) (frames : List Frame) :
    stream (f :: frames) = f.bytes ++ stream frames := flatMap_cons

theorem toNat_first (f : Frame) :
    (headerByte f.header 0).toNat = f.flags * 8 + f.payload.length / 256 := by
  have hflags := f.flags_lt
  have hlen := f.payload_le
  unfold MAX_PAYLOAD at hlen
  show (UInt8.ofNat _).toNat = _
  rw [UInt8.toNat_ofNat']
  omega

theorem toNat_second (f : Frame) : (headerByte f.header 1).toNat = f.payload.length % 256 := by
  show (UInt8.ofNat _).toNat = _
  rw [UInt8.toNat_ofNat']
  omega

theorem headerLen_frame (f : Frame) : headerLen f.header = f.payload.length := by
  have hlen := f.payload_le
  unfold MAX_PAYLOAD at hlen
  unfold headerLen
  rw [toNat_first, toNat_second]
  omega

theorem msgOf_frame (f : Frame) : msgOf f.header f.payload = f.toMsg := by
  have hlen := f.payload_le
  unfold MAX_PAYLOAD at hlen
  have hid : (headerByte f.header 0).toNat / 8 * 8 = f.flags * 8 := by
    rw [toNat_first]
    omega
  have hevent : decide (0x80 ≤ (headerByte f.header 0).toNat) = decide (16 ≤ f.flags) := by
    rw [toNat_first]
    apply decide_eq_decide.mpr
    omega
  unfold msgOf Frame.toMsg
  rw [hid, hevent]
  rfl

/-! ### Rounds -/

/-- The rounds that are left once `n` bytes are there. -/
def roundsAfter : List ℕ → ℕ → Option (List ℕ)
  | rounds, 0 => some rounds
  | [], _ + 1 => none
  | k :: rounds, n + 1 => roundsAfter rounds (n + 1 - k)

theorem roundsAfter_zero (rounds : List ℕ) : roundsAfter rounds 0 = some rounds := by
  cases rounds <;> rfl

/-- No byte comes before the deadline. -/
def Idle (rounds : List ℕ) : Prop := ∀ k ∈ rounds, k = 0

variable {len : ℕ} {rounds' : List ℕ} {rest : List UInt8}

theorem readExact_some {rounds : List ℕ} {got part : List UInt8}
    (hlen : got.length + part.length = len) (h : roundsAfter rounds part.length = some rounds') :
    readExact len rounds (part ++ rest) got = (some (got ++ part), rest, rounds') := by
  induction rounds generalizing got part with
  | nil =>
    cases part with
    | nil =>
      obtain rfl := some.inj h
      unfold readExact
      rw [if_neg (by rw [← hlen]; exact Nat.lt_irrefl _), append_nil]
      rfl
    | cons b part => cases h
  | cons k rounds ih =>
    cases part with
    | nil =>
      obtain rfl := some.inj h
      unfold readExact
      rw [if_neg (by rw [← hlen]; exact Nat.lt_irrefl _), append_nil]
      rfl
    | cons b part =>
      generalize hpart : b :: part = q at hlen h ⊢
      have hpos : 0 < q.length := by
        rw [← hpart]
        exact Nat.succ_pos _
      have hneed : len - got.length = q.length := by omega
      have hrounds : roundsAfter rounds (q.length - k) = some rounds' := by
        rw [← hpart] at h ⊢
        exact h
      have hdrop : (q ++ rest).drop (min k q.length) = q.drop k ++ rest := by
        rw [drop_append_of_le_length (Nat.min_le_right _ _)]
        congr 1
        rcases Nat.le_total k q.length with hk | hk
        · rw [Nat.min_eq_left hk]
        · rw [Nat.min_eq_right hk, drop_length, drop_of_length_le hk]
      have htake : (q ++ rest).take (min k q.length) = q.take k := by
        rw [take_append_of_le_length (Nat.min_le_right _ _)]
        rcases Nat.le_total k q.length with hk | hk
        · rw [Nat.min_eq_left hk]
        · rw [Nat.min_eq_right hk, take_length, take_of_length_le hk]
      unfold readExact
      rw [if_pos (by omega), hneed]
      dsimp only
      rw [hdrop, htake, ih, append_assoc, take_append_drop]
      · rw [length_append, length_take, length_drop]
        omega
      · rw [length_drop]
        exact hrounds

variable {rounds : List ℕ}

theorem readExact_idle {line : List UInt8} (hlen : 0 < len)
    (h : Idle rounds) : (readExact len rounds line []).1 = none ∧
      (readExact len rounds line []).2.1 = line := by
  have hneed : ([] : List UInt8).length < len := hlen
  induction rounds with
  | nil =>
    unfold readExact
    rw [if_pos hneed]
    exact ⟨rfl, rfl⟩
  | cons k rounds ih =>
    obtain rfl : k = 0 := h k mem_cons_self
    unfold readExact
    rw [if_pos hneed, Nat.zero_min]
    exact ih fun n hn => h n (mem_cons_of_mem _ hn)

theorem readExact_silent (hlen : 0 < len) (rounds : List ℕ) :
    (readExact len rounds [] []).1 = none ∧ (readExact len rounds [] []).2.1 = [] := by
  have hneed : ([] : List UInt8).length < len := hlen
  induction rounds with
  | nil =>
    unfold readExact
    rw [if_pos hneed]
    exact ⟨rfl, rfl⟩
  | cons k rounds ih =>
    unfold readExact
    rw [if_pos hneed]
    dsimp only
    rw [take_nil, drop_nil, append_nil]
    exact ih

theorem roundsAfter_length {rounds : List ℕ} {n : ℕ} (h : roundsAfter rounds n = some rounds') :
    rounds'.length ≤ rounds.length ∧ (0 < n → rounds'.length < rounds.length) := by
  induction rounds generalizing n with
  | nil =>
    cases n with
    | zero =>
      obtain rfl := some.inj h
      exact ⟨Nat.le_refl _, fun h => absurd h (Nat.lt_irrefl _)⟩
    | succ n => cases h
  | cons k rounds ih =>
    cases n with
    | zero =>
      obtain rfl := some.inj h
      exact ⟨Nat.le_refl _, fun h => absurd h (Nat.lt_irrefl _)⟩
    | succ n =>
      have hle := (ih h).1
      rw [length_cons]
      exact ⟨by omega, fun _ => by omega⟩

/-! ### One message -/

/-- The rounds that are left once a message is there. -/
def roundsAfterFrame (rounds : List ℕ) (f : Frame) : Option (List ℕ) :=
  (roundsAfter rounds HEADER_LEN).bind fun rounds => roundsAfter rounds f.payload.length

variable {dev : Dev}

theorem readMsg_frame {f : Frame} {rounds : List ℕ}
    (hline : dev.line = f.bytes ++ rest) (h : roundsAfterFrame rounds f = some rounds') :
    readMsg dev rounds = (.msg f.toMsg, { dev with line := rest }, rounds') := by
  obtain ⟨rounds₁, hheader, hpayload⟩ := bind_eq_some_iff.mp h
  have hread : readExact HEADER_LEN rounds (f.header ++ (f.payload ++ rest)) [] =
      (some f.header, f.payload ++ rest, rounds₁) := readExact_some rfl hheader
  have hlen : ¬ headerLen f.header > MAX_PAYLOAD := by
    rw [headerLen_frame]
    exact Nat.not_lt.mpr f.payload_le
  unfold readMsg
  rw [hline, Frame.bytes, append_assoc, hread]
  dsimp only
  rw [if_neg hlen]
  unfold readPayload
  rw [headerLen_frame]
  split
  · next hzero =>
    have hnil := length_eq_zero_iff.mp hzero
    rw [hzero, roundsAfter_zero] at hpayload
    obtain rfl := some.inj hpayload
    rw [← hnil, msgOf_frame, hnil, nil_append]
  · rw [readExact_some (by rw [length_nil, Nat.zero_add]) hpayload]
    dsimp only
    rw [nil_append, msgOf_frame]

theorem readMsg_idle (h : Idle rounds ∨ dev.line = []) :
    (readMsg dev rounds).1 = .timeout ∧ (readMsg dev rounds).2.1 = dev := by
  have hread : (readExact HEADER_LEN rounds dev.line []).1 = none ∧
      (readExact HEADER_LEN rounds dev.line []).2.1 = dev.line := by
    rcases h with h | h
    · exact readExact_idle (by decide) h
    · rw [h]
      exact readExact_silent (by decide) rounds
  unfold readMsg
  generalize readExact HEADER_LEN rounds dev.line [] = result at hread ⊢
  obtain ⟨bytes, line, rounds'⟩ := result
  obtain ⟨rfl, rfl⟩ := hread
  exact ⟨rfl, rfl⟩

/-! ### The loop -/

/-- The deadline of a loop does not expire inside one of the messages: it expires between two of
    them, or not before the one that stops the loop. -/
inductive Unbroken (stop : Msg → Bool) : List Frame → List ℕ → Prop
  | silent (rounds : List ℕ) : Unbroken stop [] rounds
  | idle (frames : List Frame) (rounds : List ℕ) (h : Idle rounds) : Unbroken stop frames rounds
  | last (f : Frame) (frames : List Frame) (rounds rounds' : List ℕ)
    (h : roundsAfterFrame rounds f = some rounds') (hstop : stop f.toMsg = true) :
    Unbroken stop (f :: frames) rounds
  | next (f : Frame) (frames : List Frame) (rounds rounds' : List ℕ)
    (h : roundsAfterFrame rounds f = some rounds') (hstop : stop f.toMsg = false)
    (hrest : Unbroken stop frames rounds') : Unbroken stop (f :: frames) rounds

variable {stop : Msg → Bool}
  {skip : RingBuffer Msg PENDING_SLOTS → Msg → RingBuffer Msg PENDING_SLOTS}

/-- What a loop has done: it has passed the messages `passed`, none of which stops it, and then one
    that stops it, or the deadline. -/
structure LoopSpec (stop : Msg → Bool)
    (skip : RingBuffer Msg PENDING_SLOTS → Msg → RingBuffer Msg PENDING_SLOTS) (dev : Dev)
    (frames : List Frame) (taken : List Msg) (out : ReadResult × Dev × List Msg) : Prop where
  passed : ∃ (passed rest : List Frame) (last : Option Frame),
    frames = passed ++ (last.toList ++ rest) ∧
    (∀ f ∈ passed, stop f.toMsg = false) ∧ (∀ f ∈ last, stop f.toMsg = true) ∧
    out.1 = (last.map fun f => .msg f.toMsg).getD .timeout ∧
    out.2.1.line = stream rest ∧
    out.2.1.pending = (passed.map Frame.toMsg).foldl skip dev.pending ∧
    out.2.2 = taken ++ (passed ++ last.toList).map Frame.toMsg

theorem readLoop_timeout {frames : List Frame} {fuel : ℕ}
    (hline : dev.line = stream frames) (h : Idle rounds ∨ dev.line = []) (taken : List Msg) :
    LoopSpec stop skip dev frames taken (readLoop stop skip (fuel + 1) dev rounds taken) := by
  obtain ⟨hresult, hdev⟩ := readMsg_idle h
  unfold readLoop
  generalize readMsg dev rounds = result at hresult hdev ⊢
  obtain ⟨result, dev', rounds'⟩ := result
  obtain rfl : result = .timeout := hresult
  obtain rfl : dev' = dev := hdev
  exact ⟨[], frames, none, rfl, nofun, nofun, rfl, hline, rfl, by simp⟩

/-- **The loop takes whole messages off the line**, up to the first that stops it or to the deadline
    between two of them. -/
theorem readLoop_spec {frames : List Frame} {fuel : ℕ}
    (h : Unbroken stop frames rounds) (hline : dev.line = stream frames)
    (hfuel : rounds.length < fuel) (taken : List Msg) :
    LoopSpec stop skip dev frames taken (readLoop stop skip fuel dev rounds taken) := by
  induction h generalizing dev fuel taken with
  | silent rounds =>
    obtain ⟨fuel, rfl⟩ := Nat.exists_eq_succ_of_ne_zero (Nat.ne_of_gt (Nat.zero_lt_of_lt hfuel))
    exact readLoop_timeout hline (.inr hline) taken
  | idle frames rounds h =>
    obtain ⟨fuel, rfl⟩ := Nat.exists_eq_succ_of_ne_zero (Nat.ne_of_gt (Nat.zero_lt_of_lt hfuel))
    exact readLoop_timeout hline (.inl h) taken
  | last f frames rounds rounds' h hstop =>
    obtain ⟨fuel, rfl⟩ := Nat.exists_eq_succ_of_ne_zero (Nat.ne_of_gt (Nat.zero_lt_of_lt hfuel))
    unfold readLoop
    rw [readMsg_frame (hline.trans (stream_cons f frames)) h]
    dsimp only
    rw [if_pos hstop]
    refine ⟨[], frames, some f, rfl, nofun, ?_, rfl, rfl, rfl, rfl⟩
    rintro g ⟨⟩
    exact hstop
  | next f frames rounds rounds' h hstop hrest ih =>
    obtain ⟨fuel, rfl⟩ := Nat.exists_eq_succ_of_ne_zero (Nat.ne_of_gt (Nat.zero_lt_of_lt hfuel))
    -- the message took at least one round
    have hlt : rounds'.length < rounds.length := by
      obtain ⟨rounds₁, hheader, hpayload⟩ := bind_eq_some_iff.mp h
      have h₁ := (roundsAfter_length hheader).2 (by decide)
      have h₂ := (roundsAfter_length hpayload).1
      omega
    unfold readLoop
    rw [readMsg_frame (hline.trans (stream_cons f frames)) h]
    dsimp only
    rw [if_neg (by rw [hstop]; exact Bool.false_ne_true)]
    have hrest' := @ih { dev with line := stream frames, pending := skip dev.pending f.toMsg } fuel
      rfl (by omega) (taken ++ [f.toMsg])
    obtain ⟨passed, rest, last, hframes, hpassed, hlast, hresult, hline', hpending, htaken⟩ :=
      hrest'.passed
    refine ⟨f :: passed, rest, last, ?_, ?_, hlast, hresult, hline', hpending, ?_⟩
    · rw [hframes]
      rfl
    · intro g hg
      rcases mem_cons.mp hg with rfl | hg
      · exact hstop
      · exact hpassed g hg
    · rw [htaken, append_assoc]
      rfl

end DreamingOS.Bgapi
