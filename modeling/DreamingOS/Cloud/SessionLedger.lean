import DreamingOS.Cloud.SessionInv

namespace DreamingOS.Cloud

open Slots Option

/-!
# Cloud session — accounts over whole runs

What a run has accepted, against the windows and the credit it was granted.

* `Session.total`, `Session.lifetime` — a quantity summed over the accepted operations of a run,
  and over those until a stream id is opened again;
* `StreamStep`, `next_stream` — **what one operation does to one stream**, said once;
* `lifetime_le` — a budget rule: what a step takes from a stream's budget bounds what its lifetime
  takes;
* `run_conn`, `lifetime_bytes`, `lifetime_responses` — flow control on the connection and on a
  stream, and that a stream gets one response.
-/

/-! ### Quantities -/

/-- The bytes an operation carries in direction `d`. -/
def Event.bytes (d : Dir) : Event → ℕ
  | .data _ dir n _ => if toDir dir = some d then n.toNat else 0
  | _ => 0

/-- The credit it grants the connection in direction `d`. -/
def Event.connCredit (d : Dir) : Event → ℕ
  | .window id dir credit => if id = 0 ∧ toDir dir = some d then credit.toNat else 0
  | _ => 0

/-- The bytes it carries on stream `id`. -/
def Event.streamBytes (id : UInt32) (d : Dir) : Event → ℕ
  | .data id' dir n _ => if id' = id ∧ toDir dir = some d then n.toNat else 0
  | _ => 0

/-- The credit it grants stream `id`. -/
def Event.streamCredit (id : UInt32) (d : Dir) : Event → ℕ
  | .window id' dir credit => if id' = id ∧ toDir dir = some d then credit.toNat else 0
  | _ => 0

/-- One, for a response on stream `id`. -/
def Event.responses (id : UInt32) : Event → ℕ
  | .resp id' => if id' = id then 1 else 0
  | _ => 0

/-- The operation opens stream `id`. -/
def Event.opens (id : UInt32) : Event → Bool
  | .opened id' _ => id' = id
  | _ => false

/-- The operation finishes direction `d` of stream `id`. -/
def Event.finishes (id : UInt32) (d : Dir) : Event → Bool
  | .data id' dir _ ends => id' = id ∧ toDir dir = some d ∧ ends
  | .fin id' dir => id' = id ∧ toDir dir = some d
  | _ => false

/-- What an operation counts for: nothing, unless it is accepted. -/
def Session.counted (s : Session) (f : Event → ℕ) (e : Event) : ℕ := if s.accepts e then f e else 0

/-- A quantity over the accepted operations of a run. -/
def Session.total (f : Event → ℕ) : Session → List Event → ℕ
  | _, [] => 0
  | s, e :: es => s.counted f e + total f (s.next e) es

/-- A quantity over the accepted operations until stream `id` is opened again. -/
def Session.lifetime (id : UInt32) (f : Event → ℕ) : Session → List Event → ℕ
  | _, [] => 0
  | s, e :: es =>
    if s.accepts e && e.opens id then 0
    else s.counted f e + lifetime id f (s.next e) es

/-! ### The connection -/

/-- One operation on the connection window: credit in, bytes out. -/
theorem next_conn (s : Session) (e : Event) (d : Dir) :
    s.counted (Event.bytes d) e + ((s.next e).connWin.get d).toNat =
      (s.connWin.get d).toNat + s.counted (Event.connCredit d) e := by
  rcases step_cases s e with ⟨hacc, haccepted⟩ | ⟨hrej, hstate⟩
  case inr =>
    have hconn : (s.refused e).connWin = s.connWin := by
      cases e <;> rfl
    simp only [Session.counted, hrej, hstate, hconn]
    simp
  simp only [Session.counted, hacc, if_true]
  generalize hnext : s.next e = s' at haccepted
  cases haccepted with
  | services _ _ => simp [Event.bytes, Event.connCredit]
  | opened _ _ _ _ _ _ _ _ => simp [Event.bytes, Event.connCredit, Session.openSlot, Session.put]
  | resp _ _ _ => simp [Event.bytes, Event.connCredit, Session.write]
  | @data id n dir fin d' i st hdir _ _ _ _ _ hconn =>
    by_cases hd : d = d'
    · subst hd
      have hspend := spend_toNat hconn
      simp only [Event.bytes, Event.connCredit, hdir, if_true, Session.write]
      omega
    · have hne : ¬ toDir dir = some d := by
        rw [hdir]
        exact fun h => hd (some.inj h).symm
      simp [Event.bytes, Event.connCredit, hne, Session.write, spend_get_ne hd]
  | fin _ _ _ _ => simp [Event.bytes, Event.connCredit, Session.write]
  | reset _ => simp [Event.bytes, Event.connCredit, Session.write]
  | gone _ => simp [Event.bytes, Event.connCredit]
  | @connWindow dir credit window d' hdir hadd =>
    have hsum := (windowAdd_toNat hadd).2
    by_cases hd : d = d'
    · subst hd
      simp [Event.bytes, Event.connCredit, hdir, hsum]
    have hne : ¬ toDir dir = some d := by
      rw [hdir]
      exact fun h => hd (some.inj h).symm
    simp [Event.bytes, Event.connCredit, hne, PerDir.get_set_ne _ _ hd]
  | window _ hid _ _ => simp [Event.bytes, Event.connCredit, Session.write, hid]
  | supersede _ => simp [Event.bytes, Event.connCredit, Session.closeAll]
  | revoke => simp [Event.bytes, Event.connCredit, Session.closeAll]

/-- **The connection window is exact over a run**: what was there and granted is what was spent and
    is left. -/
theorem run_conn (s : Session) (es : List Event) (d : Dir) :
    s.total (Event.bytes d) es + ((s.run es).connWin.get d).toNat =
      (s.connWin.get d).toNat + s.total (Event.connCredit d) es := by
  induction es generalizing s with
  | nil => simp [Session.total]
  | cons e es ih =>
    have hstep := next_conn s e d
    have hrest := ih (s.next e)
    rw [Session.run_cons, Session.total, Session.total]
    omega

/-! ### One stream -/

/-- The operation is one of stream `id` that needs the stream. -/
def Event.uses (id : UInt32) : Event → Bool
  | .resp id' => id' = id
  | .data id' _ _ _ => id' = id
  | .fin id' _ => id' = id
  | .window id' _ _ => id' = id
  | _ => false

/-- The operation closes every stream. -/
def Event.closes : Event → Bool
  | .supersede _ => true
  | .revoke => true
  | _ => false

/-- What a slot with this content is to its id. -/
def Stream.alive (b : Stream) : Option Stream := if b.inUse then some b else none

/-- What an accepted operation does to stream `id`, which is in use as `st`. -/
inductive StreamStep (id : UInt32) (st : Stream) : Event → Option Stream → Prop
  | other {e : Event} (huses : e.uses id = false) (hreset : e ≠ .reset id)
      (hcloses : e.closes = false) (hopens : e.opens id = false) : StreamStep id st e (some st)
  | resp (hfirst : st.respSeen = false) :
      StreamStep id st (.resp id) (some { st with respSeen := true })
  | data {dir : ℤ} {d : Dir} {n : UInt32} {last : Bool} (hdir : toDir dir = some d)
      (hfin : st.fin.get d = false) (hwin : n ≤ st.win.get d) :
      StreamStep id st (.data id dir n last)
        (if last then (st.spend d n).finished d else st.spend d n).alive
  | fin {dir : ℤ} {d : Dir} (hdir : toDir dir = some d) (hfin : st.fin.get d = false) :
      StreamStep id st (.fin id dir) (st.finished d).alive
  | reset : StreamStep id st (.reset id) none
  | window {dir : ℤ} {d : Dir} {credit window : UInt32} (hdir : toDir dir = some d)
      (hadd : windowAdd (st.win.get d) credit = some window) :
      StreamStep id st (.window id dir credit) (some { st with win := st.win.set d window })
  | closed {e : Event} (hcloses : e.closes = true) : StreamStep id st e none

variable {id : UInt32} {s : Session}

/-- The stream of an operation that found a slot is the one looked up. -/
theorem find_lookup {i : ℕ} {st st' : Stream}
    (hfind : s.findSlot id = some (i, st')) (hlookup : s.lookup id = some st) : st' = st := by
  rw [(findSlot_some hfind).2.2.2] at hlookup
  exact some.inj hlookup

theorem alive_of_inUse {b : Stream} (h : b.inUse = true) : b.alive = some b := if_pos h

variable {e : Event} {st : Stream}

/-- **One operation on one stream.** -/
theorem next_stream (hinv : Inv s) (hlookup : s.lookup id = some st) (hacc : s.accepts e = true) :
    StreamStep id st e ((s.next e).lookup id) := by
  have huse : st.inUse = true := by
    obtain ⟨i, -, hkey⟩ := lookup_some hlookup
    exact (key_eq_some.mp hkey).1
  rcases step_cases s e with ⟨-, haccepted⟩ | ⟨hrej, -⟩
  case inr => rw [hacc] at hrej; cases hrej
  -- a slot of another id leaves this stream alone
  have hwrite : ∀ {id' : UInt32} {i : ℕ} {st' b : Stream} {conn : PerDir UInt32},
      s.findSlot id' = some (i, st') → Rewrites s i st' b →
      (id = id' → st' = st → StreamStep id st e b.alive) →
      (id ≠ id' → StreamStep id st e (some st)) →
      StreamStep id st e ((s.write i b conn).lookup id) := by
    intro id' i st' b conn hfind hrew hself hother
    rw [lookup_write hinv hrew, (findSlot_some hfind).2.2.1, hlookup]
    by_cases hid : id = id'
    · rw [if_pos hid]
      subst hid
      exact hself rfl (find_lookup hfind hlookup)
    · rw [if_neg hid]
      exact hother hid
  generalize hnext : s.next e = s' at haccepted
  cases haccepted with
  | services _ _ =>
    exact hlookup ▸ .other rfl (fun h => nomatch h) rfl rfl
  | @opened id' service i a _ _ _ hnew _ _ hget hfree =>
    have hne : id ≠ id' := by
      rintro rfl
      rw [hnew] at hlookup
      cases hlookup
    rw [lookup_openSlot hinv hget hfree hnew, if_neg hne, hlookup]
    exact .other rfl (fun h => nomatch h) rfl (by simpa [Event.opens] using Ne.symm hne)
  | @resp id' i st' hfind hfirst _ =>
    refine hwrite hfind (rewrites_resp hinv hfind) ?_ fun hid => ?_
    · rintro rfl rfl
      rw [alive_of_inUse (by exact huse)]
      exact .resp hfirst
    · exact .other (by simpa [Event.uses] using Ne.symm hid) (fun h => nomatch h) rfl rfl
  | @data id' n dir last d i st' hdir hfind hfin _ _ hwin _ =>
    refine hwrite hfind (rewrites_data hinv hfind hwin last) ?_ fun hid => ?_
    · rintro rfl rfl
      exact .data hdir hfin hwin
    · exact .other (by simpa [Event.uses] using Ne.symm hid) (fun h => nomatch h) rfl rfl
  | @fin id' dir d i st' hdir hfind hfin _ =>
    refine hwrite hfind (rewrites_fin hinv hfind d) ?_ fun hid => ?_
    · rintro rfl rfl
      exact .fin hdir hfin
    · exact .other (by simpa [Event.uses] using Ne.symm hid) (fun h => nomatch h) rfl rfl
  | @reset id' i st' hfind =>
    refine hwrite hfind (rewrites_free hfind) ?_ fun hid => ?_
    · rintro rfl -
      exact .reset
    · exact .other rfl (by simpa using Ne.symm hid) rfl rfl
  | @gone id' hfind =>
    have hne : id ≠ id' := by
      rintro rfl
      rw [hinv.findSlot_none hfind] at hlookup
      cases hlookup
    rw [hlookup]
    exact .other rfl (by simpa using Ne.symm hne) rfl rfl
  | @connWindow dir credit window d hdir hadd =>
    have hne : id ≠ 0 := by
      rintro rfl
      rw [hinv.lookup_zero] at hlookup
      cases hlookup
    exact hlookup ▸ .other (by simpa [Event.uses] using Ne.symm hne) (fun h => nomatch h) rfl rfl
  | @window id' credit window dir d i st' hdir _ hfind hadd =>
    refine hwrite hfind (rewrites_window hinv hfind hadd) ?_ fun hid => ?_
    · rintro rfl rfl
      rw [alive_of_inUse (by exact huse)]
      exact .window hdir hadd
    · exact .other (by simpa [Event.uses] using Ne.symm hid) (fun h => nomatch h) rfl rfl
  | supersede _ =>
    have hnone := closeAll_lookup s id
    exact hnone ▸ .closed rfl
  | revoke =>
    have hnone := closeAll_lookup s id
    exact hnone ▸ .closed rfl

/-- An operation on a stream that is not there: it opens it, or is none that needs it. -/
theorem next_absent (hinv : Inv s) (hid : id ≠ 0)
    (hnone : s.lookup id = none) (hacc : s.accepts e = true) :
    e.opens id = true ∨ (e.uses id = false ∧ (s.next e).lookup id = none) := by
  rcases step_cases s e with ⟨-, haccepted⟩ | ⟨hrej, -⟩
  case inr => rw [hacc] at hrej; cases hrej
  have hne : ∀ {id' : UInt32} {i : ℕ} {st' : Stream}, s.findSlot id' = some (i, st') → id ≠ id' := by
    rintro id' i st' hfind rfl
    rw [(findSlot_some hfind).2.2.2] at hnone
    cases hnone
  have hwrite : ∀ {id' : UInt32} {i : ℕ} {st' b : Stream} {conn : PerDir UInt32},
      s.findSlot id' = some (i, st') → Rewrites s i st' b →
      (s.write i b conn).lookup id = none := by
    intro id' i st' b conn hfind hrew
    rw [lookup_write hinv hrew, (findSlot_some hfind).2.2.1, if_neg (hne hfind), hnone]
  generalize hnext : s.next e = s' at haccepted
  cases haccepted with
  | services _ _ => exact .inr ⟨rfl, hnone⟩
  | @opened id' service i a _ _ _ hnew _ _ hget hfree =>
    by_cases hid' : id' = id
    · exact .inl (by simpa [Event.opens] using hid')
    · rw [lookup_openSlot hinv hget hfree hnew, if_neg (Ne.symm hid')]
      exact .inr ⟨rfl, hnone⟩
  | resp hfind _ _ =>
    exact .inr ⟨by simpa [Event.uses] using (hne hfind).symm,
      hwrite hfind (rewrites_resp hinv hfind)⟩
  | data _ hfind _ _ _ hwin _ =>
    exact .inr ⟨by simpa [Event.uses] using (hne hfind).symm,
      hwrite hfind (rewrites_data hinv hfind hwin _)⟩
  | fin _ hfind _ _ =>
    exact .inr ⟨by simpa [Event.uses] using (hne hfind).symm,
      hwrite hfind (rewrites_fin hinv hfind _)⟩
  | reset hfind => exact .inr ⟨rfl, hwrite hfind (rewrites_free hfind)⟩
  | gone _ => exact .inr ⟨rfl, hnone⟩
  | connWindow _ _ => exact .inr ⟨by simpa [Event.uses] using hid.symm, hnone⟩
  | window _ _ hfind hadd =>
    exact .inr ⟨by simpa [Event.uses] using (hne hfind).symm,
      hwrite hfind (rewrites_window hinv hfind hadd)⟩
  | supersede _ => exact .inr ⟨rfl, closeAll_lookup s id⟩
  | revoke => exact .inr ⟨rfl, closeAll_lookup s id⟩

theorem refused_lookup (s : Session) (e : Event) (id : UInt32) :
    (s.refused e).lookup id = s.lookup id := by
  cases e <;> rfl

/-- **The budget rule.**  If every operation takes `f` from the budget `φ` of a stream and adds no
    more than `g` to it, a lifetime takes no more than the budget and what is added. -/
theorem lifetime_le {φ : Stream → ℕ} {f g : Event → ℕ} (hid : id ≠ 0)
    (hother : ∀ e : Event, e.uses id = false → f e = 0)
    (hstep : ∀ st e next, StreamStep id st e next → f e + next.elim 0 φ ≤ φ st + g e)
    (hinv : Inv s) (es : List Event) :
    s.lifetime id f es ≤ (s.lookup id).elim 0 φ + s.lifetime id g es := by
  induction es generalizing s with
  | nil => exact Nat.zero_le _
  | cons e es ih =>
    have hrest := ih (hinv.next e)
    rw [Session.lifetime, Session.lifetime]
    cases hacc : s.accepts e with
    | false =>
      rcases step_cases s e with ⟨hacc', -⟩ | ⟨-, hstate⟩
      · rw [hacc] at hacc'
        cases hacc'
      rw [hstate, refused_lookup] at hrest
      simp only [Bool.false_and, Bool.false_eq_true, if_false, Session.counted, hacc, hstate]
      omega
    | true =>
      by_cases hopens : e.opens id = true
      · rw [Bool.true_and, if_pos hopens]
        exact Nat.zero_le _
      rw [Bool.true_and, if_neg hopens, if_neg hopens]
      simp only [Session.counted, hacc, if_true]
      cases hlookup : s.lookup id with
      | none =>
        rcases next_absent hinv hid hlookup hacc with h | ⟨huses, hnone⟩
        · exact absurd h hopens
        rw [hnone] at hrest
        have hzero := hother e huses
        simp only [elim_none] at hrest ⊢
        omega
      | some st =>
        have hbudget := hstep st e _ (next_stream hinv hlookup hacc)
        simp only [elim_some]
        omega

theorem alive_elim_le (b : Stream) (φ : Stream → ℕ) : b.alive.elim 0 φ ≤ φ b := by
  unfold Stream.alive
  split
  · exact Nat.le_refl _
  · exact Nat.zero_le _

/-- Finishing a direction gives no credit. -/
theorem finished_win_le (st : Stream) (d e : Dir) :
    ((st.finished d).win.get e).toNat ≤ (st.win.get e).toNat := by
  unfold Stream.finished
  split
  · cases e <;> exact Nat.zero_le _
  · exact Nat.le_refl _

/-- What the window of a stream loses and gains in one operation. -/
theorem StreamStep.bytes_le {next : Option Stream} (h : StreamStep id st e next) (d : Dir) :
    e.streamBytes id d + next.elim 0 (fun b => (b.win.get d).toNat) ≤
      (st.win.get d).toNat + e.streamCredit id d := by
  cases h with
  | other huses _ _ _ =>
    have hzero : e.streamBytes id d = 0 := by
      cases e <;> simp_all [Event.uses, Event.streamBytes]
    rw [hzero, elim_some]
    omega
  | resp _ => simp [Event.streamBytes, Event.streamCredit]
  | @data dir d' n last hdir _ hwin =>
    -- the slot that is left holds no more than the window after the chunk
    have hnext : (if last then (st.spend d' n).finished d' else st.spend d' n).alive.elim 0
        (fun b => (b.win.get d).toNat) ≤ ((st.spend d' n).win.get d).toNat := by
      refine Nat.le_trans (alive_elim_le _ _) ?_
      cases last with
      | true => exact finished_win_le _ _ _
      | false => exact Nat.le_refl _
    have hspend : (if d = d' then n.toNat else 0) + ((st.spend d' n).win.get d).toNat =
        (st.win.get d).toNat := by
      by_cases hd : d = d'
      · subst hd
        have := spend_toNat hwin
        rw [if_pos rfl, Nat.add_comm]
        exact this
      · rw [if_neg hd, Nat.zero_add]
        exact congrArg _ (spend_get_ne hd)
    have hbytes : (Event.data id dir n last).streamBytes id d = if d = d' then n.toNat else 0 := by
      simp only [Event.streamBytes, true_and, hdir, Option.some.injEq]
      exact if_congr eq_comm rfl rfl
    rw [hbytes]
    omega
  | @fin dir d' _ _ =>
    have hnext := Nat.le_trans (alive_elim_le (st.finished d') fun b => (b.win.get d).toNat)
      (finished_win_le st d' d)
    simp only [Event.streamBytes, Event.streamCredit]
    omega
  | reset => simp [Event.streamBytes]
  | @window dir d' credit window hdir hadd =>
    have hsum := (windowAdd_toNat hadd).2
    by_cases hd : d = d'
    · subst hd
      simp [Event.streamBytes, Event.streamCredit, hdir, hsum]
    · simp [Event.streamBytes, PerDir.get_set_ne _ _ hd]
  | closed hcloses =>
    have hzero : e.streamBytes id d = 0 := by
      cases e <;> first | rfl | exact absurd hcloses Bool.false_ne_true
    rw [hzero, elim_none]
    omega

/-- **Flow control on a stream**: what its lifetime carries is within its window and its credit. -/
theorem lifetime_bytes (hinv : Inv s) (hid : id ≠ 0) (d : Dir) (es : List Event) :
    s.lifetime id (Event.streamBytes id d) es ≤
      (s.lookup id).elim 0 (fun st => (st.win.get d).toNat) +
        s.lifetime id (Event.streamCredit id d) es := by
  refine lifetime_le hid (fun e huses => ?_) (fun st e next h => h.bytes_le d) hinv es
  cases e <;> simp_all [Event.uses, Event.streamBytes]

theorem lifetime_zero (s : Session) (id : UInt32) (es : List Event) :
    s.lifetime id (fun _ => 0) es = 0 := by
  induction es generalizing s with
  | nil => rfl
  | cons e es ih =>
    rw [Session.lifetime, ih]
    split
    · rfl
    · simp [Session.counted]

/-- The responses a stream may still get. -/
def Stream.awaited (st : Stream) : ℕ := if st.respSeen then 0 else 1

theorem finished_awaited_le (st : Stream) (d : Dir) :
    (st.finished d).alive.elim 0 Stream.awaited ≤ st.awaited := by
  unfold Stream.finished
  split
  · exact Nat.zero_le _
  · exact alive_elim_le (st.finish d) Stream.awaited

theorem StreamStep.responses_le {next : Option Stream} (h : StreamStep id st e next) :
    e.responses id + next.elim 0 Stream.awaited ≤ st.awaited + 0 := by
  cases h with
  | other huses _ _ _ =>
    have hzero : e.responses id = 0 := by
      cases e <;> simp_all [Event.uses, Event.responses]
    rw [hzero, elim_some]
    omega
  | resp hfirst => simp [Event.responses, Stream.awaited, hfirst]
  | @data dir d' n last _ _ _ =>
    simp only [Event.responses, Nat.zero_add, Nat.add_zero]
    cases last with
    | true => exact finished_awaited_le (st.spend d' n) d'
    | false => exact alive_elim_le (st.spend d' n) Stream.awaited
  | @fin dir d' _ _ =>
    simp only [Event.responses, Nat.zero_add, Nat.add_zero]
    exact finished_awaited_le st d'
  | reset => simp [Event.responses]
  | window _ _ => simp [Event.responses, Stream.awaited]
  | closed hcloses =>
    have hzero : e.responses id = 0 := by
      cases e <;> first | rfl | exact absurd hcloses Bool.false_ne_true
    rw [hzero, elim_none]
    omega

/-- **No response is accepted twice** in a lifetime. -/
theorem lifetime_responses (hinv : Inv s) (hid : id ≠ 0)
    (es : List Event) : s.lifetime id (Event.responses id) es ≤ 1 := by
  have hbudget := lifetime_le hid (fun e huses => by
    cases e <;> simp_all [Event.uses, Event.responses])
    (fun st e next (h : StreamStep id st e next) => h.responses_le) hinv es
  rw [lifetime_zero] at hbudget
  have hone : (s.lookup id).elim 0 Stream.awaited ≤ 1 := by
    cases s.lookup id with
    | none => exact Nat.zero_le _
    | some st =>
      show st.awaited ≤ 1
      unfold Stream.awaited
      split <;> omega
  omega

end DreamingOS.Cloud
