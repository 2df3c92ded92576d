import DreamingOS.Cloud.Wire
import DreamingOS.Lib.Slots
import Mathlib.Data.Int.Notation

namespace DreamingOS.Cloud

/-!
# Cloud session — the stream machine of one tunnel

`session.c`: streams are opened, carry data in both directions within credit windows, and are
closed; a session is superseded by a newer generation, or revoked.

* `Stream`, `Session` — the state, with windows as the 32-bit counters of the source;
* `sessionOpen` … `sessionRevoke` — the operations, each with the code it returns;
* `sessionOnData_judged` and its like — what an operation can do, said once: it rejects and leaves
  the session as it was, or its conditions held and this is the new state;
* `Event`, `Session.step`, `Session.run` — a run is any sequence of operations.
-/

/-! ### Directions -/

/-- `enum cw_dir`: from the gateway to the device, and back. -/
inductive Dir
  | up
  | down
  deriving DecidableEq

/-- The direction of a C argument; any other number is a usage error. -/
def toDir (dir : ℤ) : Option Dir :=
  if dir = 0 then some .up else if dir = 1 then some .down else none

/-- A value for each direction. -/
structure PerDir (α : Type) where
  (up down : α)
  deriving DecidableEq

namespace PerDir

variable {α : Type}

def get (p : PerDir α) : Dir → α
  | .up => p.up
  | .down => p.down

def set (p : PerDir α) (d : Dir) (a : α) : PerDir α :=
  match d with
  | .up => { p with up := a }
  | .down => { p with down := a }

@[simp] theorem get_set_self (p : PerDir α) (d : Dir) (a : α) : (p.set d a).get d = a := by
  cases d <;> rfl

theorem get_set_ne (p : PerDir α) {d e : Dir} (a : α) (h : e ≠ d) :
    (p.set d a).get e = p.get e := by
  cases d <;> cases e <;> first | rfl | exact absurd rfl h

end PerDir

/-! ### State -/

/-- `CW_WIRE_MAX_STREAMS`. -/
def maxStreamsLimit : UInt32 := 128

/-- `CW_WIRE_WINDOW_MAX`. -/
def windowMax : UInt32 := 0x7fffffff

/-- `struct cw_stream`. -/
structure Stream where
  id : UInt32
  win : PerDir UInt32
  (inUse respSeen : Bool)
  fin : PerDir Bool
  deriving DecidableEq

/-- A zeroed slot. -/
def Stream.free : Stream := ⟨0, ⟨0, 0⟩, false, false, ⟨false, false⟩⟩

/-- The key of a slot: its stream id, while it is in use. -/
def Stream.key (st : Stream) : Option UInt32 := if st.inUse then some st.id else none

/-- A service id, as the bytes of its C string. -/
abbrev ServiceId := List UInt8

/-- `struct cw_session`. -/
structure Session where
  (generation maxStreams initStreamWindow : UInt32)
  connWin : PerDir UInt32
  (revoked superseded : Bool)
  nActive : ℕ
  services : List ServiceId
  streams : List Stream

/-! ### Return codes -/

def errUsage : ℤ := -1
def errProtocol : ℤ := 1
def errFrameTooBig : ℤ := 2
def errFlowControl : ℤ := 3
def errStreamLimit : ℤ := 4
def errGeneration : ℤ := 5
def errRevoked : ℤ := 6
def errService : ℤ := 7

/-! ### The code -/

/-- `find_slot`. -/
def Session.findSlot (s : Session) (id : UInt32) : Option (ℕ × Stream) :=
  if id = 0 then none
  else Slots.find (fun st => st.inUse && st.id = id) s.streams

/-- `alloc_slot`. -/
def Session.allocSlot (s : Session) : Option (ℕ × Stream) :=
  Slots.find (fun st => !st.inUse) s.streams

/-- Writing a slot. -/
def Session.put (s : Session) (i : ℕ) (st : Stream) : Session :=
  { s with streams := s.streams.set i st }

/-- `close_stream` on slot `i`, which holds `st`. -/
def Session.closeStream (s : Session) (i : ℕ) (st : Stream) : Session :=
  if !st.inUse then s
  else { s.put i .free with nActive := if s.nActive > 0 then s.nActive - 1 else s.nActive }

/-- The lower of two bounds forced on an argument, then the upper. -/
def clamp (lower upper value : UInt32) : UInt32 :=
  let value := if value < lower then lower else value
  if value > upper then upper else value

/-- `cw_session_init`. -/
def sessionInit (generation maxStreams streamWindow connWindow : UInt32) : Session :=
  let streamWindow := clamp 1 windowMax streamWindow
  let connWindow := clamp streamWindow windowMax connWindow
  { generation := if generation < 1 then 1 else generation
    maxStreams := clamp 1 maxStreamsLimit maxStreams
    initStreamWindow := streamWindow
    connWin := ⟨connWindow, connWindow⟩
    revoked := false
    superseded := false
    nActive := 0
    services := []
    streams := List.replicate 128 .free }

def isAlnum (c : UInt8) : Bool := (0x61 ≤ c && c ≤ 0x7a) || (0x30 ≤ c && c ≤ 0x39)

/-- `valid_service_id`: letters, digits and hyphens, no hyphen at either end. -/
def validServiceId (id : ServiceId) : Bool :=
  1 ≤ id.length && id.length ≤ 63 && id.all (fun c => isAlnum c || c = 0x2d) &&
    id.head?.any isAlnum && id.getLast?.any isAlnum

/-- `cw_session_set_services`; `none` is a negative count or a missing array.  The registry is
    cleared first, so a refused manifest leaves none. -/
def sessionSetServices (s : Session) (ids : Option (List ServiceId)) : ℤ × Session :=
  let s := { s with services := [] }
  match ids with
  | none => (errUsage, s)
  | some ids =>
    if ids.length > 64 then (errUsage, s)
    else if ids.all validServiceId ∧ ids.Nodup then (0, { s with services := ids })
    else (errUsage, s)

/-- `cw_session_has_service`. -/
def Session.hasService (s : Session) (service : ServiceId) : Bool := s.services.contains service

/-- A new stream, with the same window in both directions. -/
def Stream.opened (id window : UInt32) : Stream :=
  ⟨id, ⟨window, window⟩, true, false, ⟨false, false⟩⟩

/-- A new stream in slot `i`, with the initial window. -/
def Session.openSlot (s : Session) (i : ℕ) (id : UInt32) : Session :=
  { s.put i (.opened id s.initStreamWindow) with nActive := s.nActive + 1 }

/-- `cw_session_open`. -/
def sessionOpen (s : Session) (id : UInt32) (service : ServiceId) : ℤ × Session :=
  if s.superseded then (errGeneration, s)
  else if s.revoked then (errRevoked, s)
  else if id = 0 then (errProtocol, s)
  else if (s.findSlot id).isSome then (errProtocol, s)
  else if !s.hasService service then (errService, s)
  else if s.nActive ≥ s.maxStreams.toNat then (errStreamLimit, s)
  else match s.allocSlot with
    | none => (errStreamLimit, s)
    | some (i, _) => (0, s.openSlot i id)

/-- `cw_session_on_resp`. -/
def sessionOnResp (s : Session) (id : UInt32) : ℤ × Session :=
  match s.findSlot id with
  | none => (errProtocol, s)
  | some (i, st) =>
    if st.respSeen then (errProtocol, s)
    else if st.fin.get .down then (errProtocol, s)
    else (0, s.put i { st with respSeen := true })

/-- Marking one direction finished. -/
def Stream.finish (st : Stream) (d : Dir) : Stream := { st with fin := st.fin.set d true }

/-- Marking one direction of slot `i` finished; the stream is closed once both are. -/
def Session.finish (s : Session) (i : ℕ) (st : Stream) (d : Dir) : Session :=
  let s := s.put i (st.finish d)
  if (st.finish d).fin.get .up && (st.finish d).fin.get .down then s.closeStream i (st.finish d)
  else s

/-- Spending `n` bytes of a direction. -/
def spend (window : PerDir UInt32) (d : Dir) (n : UInt32) : PerDir UInt32 :=
  window.set d (window.get d - n)

def Stream.spend (st : Stream) (d : Dir) (n : UInt32) : Stream :=
  { st with win := Cloud.spend st.win d n }

/-- `cw_session_on_data`. -/
def sessionOnData (s : Session) (id : UInt32) (dir : ℤ) (n : UInt32) (fin : Bool) : ℤ × Session :=
  match toDir dir with
  | none => (errUsage, s)
  | some d =>
    match s.findSlot id with
    | none => (errProtocol, s)
    | some (i, st) =>
      if st.fin.get d then (errProtocol, s)
      else if d = .down ∧ !st.respSeen then (errProtocol, s)
      else if n.toNat > frameMax then (errFrameTooBig, s)
      else if n > st.win.get d ∨ n > s.connWin.get d then (errFlowControl, s)
      else
        let s := { s.put i (st.spend d n) with connWin := spend s.connWin d n }
        (0, if fin then s.finish i (st.spend d n) d else s)

/-- `cw_session_on_fin`. -/
def sessionOnFin (s : Session) (id : UInt32) (dir : ℤ) : ℤ × Session :=
  match toDir dir with
  | none => (errUsage, s)
  | some d =>
    match s.findSlot id with
    | none => (errProtocol, s)
    | some (i, st) =>
      if st.fin.get d then (errProtocol, s)
      else if d = .down ∧ !st.respSeen then (errProtocol, s)
      else (0, s.finish i st d)

/-- `cw_session_on_reset`. -/
def sessionOnReset (s : Session) (id : UInt32) : ℤ × Session :=
  match s.findSlot id with
  | none => (0, s)
  | some (i, st) => (0, s.closeStream i st)

/-- `cw_wire_window_add`; `none` is its `-1`. -/
def windowAdd (window credit : UInt32) : Option UInt32 :=
  if credit > windowMax then none
  else if window > windowMax - credit then none
  else some (window + credit)

/-- `cw_session_on_window`. -/
def sessionOnWindow (s : Session) (id : UInt32) (dir : ℤ) (credit : UInt32) : ℤ × Session :=
  match toDir dir with
  | none => (errUsage, s)
  | some d =>
    if id = 0 then
      match windowAdd (s.connWin.get d) credit with
      | none => (errFlowControl, s)
      | some window => (0, { s with connWin := s.connWin.set d window })
    else
      match s.findSlot id with
      | none => (errProtocol, s)
      | some (i, st) =>
        match windowAdd (st.win.get d) credit with
        | none => (errFlowControl, s)
        | some window => (0, s.put i { st with win := st.win.set d window })

/-- Every slot is zeroed. -/
def Session.closeAll (s : Session) : Session :=
  { s with streams := s.streams.map fun _ => .free, nActive := 0 }

/-- `cw_session_supersede`. -/
def sessionSupersede (s : Session) (generation : UInt32) : ℤ × Session :=
  if generation ≤ s.generation then (errProtocol, s)
  else (0, { s.closeAll with generation := generation, superseded := true })

/-- `cw_session_revoke`, which returns the number of streams it closed. -/
def sessionRevoke (s : Session) : ℤ × Session := (s.nActive, { s.closeAll with revoked := true })

/-! ### Runs -/

/-- The operations on a session. -/
inductive Event
  | services (ids : Option (List ServiceId))
  | opened (id : UInt32) (service : ServiceId)
  | resp (id : UInt32)
  | data (id : UInt32) (dir : ℤ) (n : UInt32) (fin : Bool)
  | fin (id : UInt32) (dir : ℤ)
  | reset (id : UInt32)
  | window (id : UInt32) (dir : ℤ) (credit : UInt32)
  | supersede (generation : UInt32)
  | revoke
  deriving DecidableEq

/-- One operation: its code and the state behind it. -/
def Session.step (s : Session) : Event → ℤ × Session
  | .services ids => sessionSetServices s ids
  | .opened id service => sessionOpen s id service
  | .resp id => sessionOnResp s id
  | .data id dir n fin => sessionOnData s id dir n fin
  | .fin id dir => sessionOnFin s id dir
  | .reset id => sessionOnReset s id
  | .window id dir credit => sessionOnWindow s id dir credit
  | .supersede generation => sessionSupersede s generation
  | .revoke => sessionRevoke s

/-- The state after an operation. -/
def Session.next (s : Session) (e : Event) : Session := (s.step e).2

/-- An operation is accepted when it returns zero; revoking returns a count and is never
    refused. -/
def Session.accepts (s : Session) (e : Event) : Bool := e = .revoke || (s.step e).1 = 0

/-- The state after a sequence of operations. -/
def Session.run (s : Session) (events : List Event) : Session := events.foldl Session.next s

@[simp] theorem Session.run_nil (s : Session) : s.run [] = s := rfl

@[simp] theorem Session.run_cons (s : Session) (e : Event) (es : List Event) :
    s.run (e :: es) = (s.next e).run es := rfl

theorem Session.run_append (s : Session) (es es' : List Event) :
    s.run (es ++ es') = (s.run es).run es' :=
  List.foldl_append

/-! ### What an operation can do -/

/-- The stream of an id. -/
def Session.lookup (s : Session) (id : UInt32) : Option Stream :=
  Slots.lookup Stream.key s.streams id

/-- Slot `i`, which is in use, now holds `b`; a stream that ends is no longer counted. -/
def Session.write (s : Session) (i : ℕ) (b : Stream) (connWin : PerDir UInt32) : Session :=
  { s with
    connWin := connWin
    nActive := if b.inUse then s.nActive else s.nActive - 1
    streams := s.streams.set i b }

/-- What is left of a stream when a direction finishes: nothing, once both have. -/
def Stream.finished (st : Stream) (d : Dir) : Stream :=
  if (st.finish d).fin.get .up && (st.finish d).fin.get .down then .free else st.finish d

variable {st : Stream}
variable {id : UInt32}

theorem key_eq_some : st.key = some id ↔ st.inUse = true ∧ st.id = id := by
  unfold Stream.key
  cases st.inUse <;> simp

theorem find_eq (s : Session) (id : UInt32) :
    Slots.find (fun st => st.inUse && st.id = id) s.streams =
      Slots.find (fun st => st.key = some id) s.streams := by
  congr 1
  funext st
  rw [Bool.eq_iff_iff]
  simp [key_eq_some]

variable {s : Session}
variable {i : ℕ}

theorem findSlot_some (h : s.findSlot id = some (i, st)) :
    s.streams[i]? = some st ∧ st.inUse = true ∧ st.id = id ∧ s.lookup id = some st := by
  unfold Session.findSlot at h
  by_cases hid : id = 0
  · rw [if_pos hid] at h
    cases h
  rw [if_neg hid, find_eq] at h
  obtain ⟨hget, hkey⟩ := Slots.find_some h
  obtain ⟨huse, heq⟩ := key_eq_some.mp (by simpa using hkey)
  exact ⟨hget, huse, heq, by rw [Session.lookup, Slots.lookup, h]; rfl⟩

theorem findSlot_none (h : s.findSlot id = none) : id = 0 ∨ s.lookup id = none := by
  unfold Session.findSlot at h
  by_cases hid : id = 0
  · exact .inl hid
  rw [if_neg hid, find_eq] at h
  exact .inr (by rw [Session.lookup, Slots.lookup, h]; rfl)

theorem put_eq_write {b : Stream} (huse : b.inUse = true) : s.put i b = s.write i b s.connWin := by
  rw [Session.write, if_pos huse]
  rfl

/-- Closing the stream of a slot in use. -/
theorem closeStream_eq (huse : st.inUse = true) :
    s.closeStream i st = s.write i .free s.connWin := by
  have hpred : (if s.nActive > 0 then s.nActive - 1 else s.nActive) = s.nActive - 1 := by
    split <;> omega
  rw [Session.closeStream, huse, if_neg (by decide), hpred]
  rfl

theorem finish_eq (huse : st.inUse = true) (d : Dir) :
    s.finish i st d = s.write i (st.finished d) s.connWin := by
  have huse' : (st.finish d).inUse = true := huse
  unfold Session.finish Stream.finished
  by_cases hboth : ((st.finish d).fin.get .up && (st.finish d).fin.get .down) = true
  · rw [if_pos hboth, if_pos hboth, closeStream_eq huse']
    simp only [Session.write, Session.put, List.set_set]
  · rw [if_neg hboth, if_neg hboth]
    simp only [Session.write, Session.put, huse', if_true]

/-- What an accepted operation requires, and the state it leaves. -/
inductive Accepted (s : Session) : Event → Session → Prop
  | services {ids : List ServiceId} (hlen : ids.length ≤ 64)
      (hids : ids.all validServiceId = true ∧ ids.Nodup) :
      Accepted s (.services (some ids)) { s with services := ids }
  | opened {id : UInt32} {service : ServiceId} {i : ℕ} {a : Stream}
      (hsuperseded : s.superseded = false) (hrevoked : s.revoked = false) (hid : id ≠ 0)
      (hnew : s.lookup id = none) (hservice : s.hasService service = true)
      (hroom : s.nActive < s.maxStreams.toNat) (hget : s.streams[i]? = some a)
      (hfree : a.inUse = false) :
      Accepted s (.opened id service) (s.openSlot i id)
  | resp {id : UInt32} {i : ℕ} {st : Stream} (hfind : s.findSlot id = some (i, st))
      (hfirst : st.respSeen = false) (hfin : st.fin.get .down = false) :
      Accepted s (.resp id) (s.write i { st with respSeen := true } s.connWin)
  | data {id n : UInt32} {dir : ℤ} {fin : Bool} {d : Dir} {i : ℕ} {st : Stream}
      (hdir : toDir dir = some d) (hfind : s.findSlot id = some (i, st))
      (hfin : st.fin.get d = false) (hresp : d = .down → st.respSeen = true)
      (hmax : n.toNat ≤ frameMax) (hwin : n ≤ st.win.get d) (hconn : n ≤ s.connWin.get d) :
      Accepted s (.data id dir n fin)
        (s.write i (if fin then (st.spend d n).finished d else st.spend d n)
          (spend s.connWin d n))
  | fin {id : UInt32} {dir : ℤ} {d : Dir} {i : ℕ} {st : Stream}
      (hdir : toDir dir = some d) (hfind : s.findSlot id = some (i, st))
      (hfin : st.fin.get d = false) (hresp : d = .down → st.respSeen = true) :
      Accepted s (.fin id dir) (s.write i (st.finished d) s.connWin)
  | reset {id : UInt32} {i : ℕ} {st : Stream} (hfind : s.findSlot id = some (i, st)) :
      Accepted s (.reset id) (s.write i .free s.connWin)
  | gone {id : UInt32} (hfind : s.findSlot id = none) : Accepted s (.reset id) s
  | connWindow {dir : ℤ} {credit window : UInt32} {d : Dir} (hdir : toDir dir = some d)
      (hadd : windowAdd (s.connWin.get d) credit = some window) :
      Accepted s (.window 0 dir credit) { s with connWin := s.connWin.set d window }
  | window {id credit window : UInt32} {dir : ℤ} {d : Dir} {i : ℕ} {st : Stream}
      (hdir : toDir dir = some d) (hid : id ≠ 0) (hfind : s.findSlot id = some (i, st))
      (hadd : windowAdd (st.win.get d) credit = some window) :
      Accepted s (.window id dir credit)
        (s.write i { st with win := st.win.set d window } s.connWin)
  | supersede {generation : UInt32} (hnewer : s.generation < generation) :
      Accepted s (.supersede generation)
        { s.closeAll with generation := generation, superseded := true }
  | revoke : Accepted s .revoke { s.closeAll with revoked := true }

/-- The state a refused operation leaves: the same one, but for the registry, which a refused
    manifest clears. -/
def Session.refused (s : Session) : Event → Session
  | .services _ => { s with services := [] }
  | _ => s

/-- A code with the state behind it is an acceptance of `e`, or a refusal. -/
def Judged (s : Session) (e : Event) (result : ℤ × Session) : Prop :=
  (result.1 = 0 ∧ Accepted s e result.2) ∨ (result.1 ≠ 0 ∧ result.2 = s.refused e)

theorem accept {s s' : Session} {e : Event} (h : Accepted s e s') : Judged s e (0, s') :=
  Or.inl ⟨rfl, h⟩

theorem refuse {s s' : Session} {e : Event} {code : ℤ} (hcode : code ≠ 0)
    (hstate : s' = s.refused e) : Judged s e (code, s') :=
  Or.inr ⟨hcode, hstate⟩

/-- A check that refuses. -/
theorem Judged.check {s s' : Session} {e : Event} {code : ℤ} {result : ℤ × Session} {P : Prop}
    [Decidable P] (hcode : code ≠ 0) (hstate : s' = s.refused e) (h : ¬P → Judged s e result) :
    Judged s e (if P then (code, s') else result) := by
  split
  · exact refuse hcode hstate
  · next hP => exact h hP

theorem sessionSetServices_judged (s : Session) (ids : Option (List ServiceId)) :
    Judged s (.services ids) (sessionSetServices s ids) := by
  unfold sessionSetServices
  cases ids with
  | none =>
    dsimp only
    exact refuse (by decide) rfl
  | some ids =>
    dsimp only
    refine .check (by decide) rfl fun hlen => ?_
    by_cases hids : ids.all validServiceId = true ∧ ids.Nodup
    · rw [if_pos hids]
      exact accept (.services (Nat.le_of_not_lt hlen) hids)
    · rw [if_neg hids]
      exact refuse (by decide) rfl

theorem sessionOpen_judged (s : Session) (id : UInt32) (service : ServiceId) :
    Judged s (.opened id service) (sessionOpen s id service) := by
  unfold sessionOpen
  refine .check (by decide) rfl fun hsuperseded => ?_
  refine .check (by decide) rfl fun hrevoked => ?_
  refine .check (by decide) rfl fun hid => ?_
  refine .check (by decide) rfl fun hfind => ?_
  refine .check (by decide) rfl fun hservice => ?_
  refine .check (by decide) rfl fun hroom => ?_
  cases halloc : s.allocSlot with
  | none => exact refuse (by decide) rfl
  | some slot =>
    obtain ⟨hget, hfree⟩ := Slots.find_some halloc
    have hnew : s.lookup id = none :=
      (findSlot_none (Option.not_isSome_iff_eq_none.mp hfind)).resolve_left hid
    exact accept (.opened (eq_false_of_ne_true hsuperseded)
      (eq_false_of_ne_true hrevoked) hid hnew (by simpa using hservice)
      (Nat.lt_of_not_le hroom) hget (by simpa using hfree))

theorem sessionOnResp_judged (s : Session) (id : UInt32) :
    Judged s (.resp id) (sessionOnResp s id) := by
  unfold sessionOnResp
  cases hfind : s.findSlot id with
  | none => exact refuse (by decide) rfl
  | some slot =>
    obtain ⟨i, st⟩ := slot
    dsimp only
    refine .check (by decide) rfl fun hfirst => ?_
    refine .check (by decide) rfl fun hfin => ?_
    have huse : st.inUse = true := (findSlot_some hfind).2.1
    rw [put_eq_write (by exact huse)]
    exact accept (.resp hfind (eq_false_of_ne_true hfirst)
      (eq_false_of_ne_true hfin))

theorem sessionOnData_judged (s : Session) (id : UInt32) (dir : ℤ) (n : UInt32) (fin : Bool) :
    Judged s (.data id dir n fin) (sessionOnData s id dir n fin) := by
  unfold sessionOnData
  cases hdir : toDir dir with
  | none => exact refuse (by decide) rfl
  | some d =>
    cases hfind : s.findSlot id with
    | none => exact refuse (by decide) rfl
    | some slot =>
      obtain ⟨i, st⟩ := slot
      have huse : (st.spend d n).inUse = true := (findSlot_some hfind).2.1
      dsimp only
      refine .check (by decide) rfl fun hfin => ?_
      refine .check (by decide) rfl fun hresp => ?_
      refine .check (by decide) rfl fun hmax => ?_
      refine .check (by decide) rfl fun hflow => ?_
      obtain ⟨hwin, hconn⟩ := not_or.mp hflow
      have hstate : (if fin then
            ({ s.put i (st.spend d n) with connWin := spend s.connWin d n } : Session).finish i
              (st.spend d n) d
          else { s.put i (st.spend d n) with connWin := spend s.connWin d n }) =
          s.write i (if fin then (st.spend d n).finished d else st.spend d n)
            (spend s.connWin d n) := by
        cases fin with
        | true =>
          rw [if_pos rfl, if_pos rfl, finish_eq huse]
          simp only [Session.write, Session.put, List.set_set]
        | false =>
          rw [if_neg (by decide), if_neg (by decide), Session.write, if_pos huse]
          rfl
      rw [hstate]
      refine accept (.data hdir hfind (eq_false_of_ne_true hfin) ?_ (Nat.le_of_not_lt hmax)
        (UInt32.not_lt.mp hwin) (UInt32.not_lt.mp hconn))
      intro hdown
      by_contra hseen
      exact hresp ⟨hdown, by simpa using hseen⟩

theorem sessionOnFin_judged (s : Session) (id : UInt32) (dir : ℤ) :
    Judged s (.fin id dir) (sessionOnFin s id dir) := by
  unfold sessionOnFin
  cases hdir : toDir dir with
  | none => exact refuse (by decide) rfl
  | some d =>
    cases hfind : s.findSlot id with
    | none => exact refuse (by decide) rfl
    | some slot =>
      obtain ⟨i, st⟩ := slot
      dsimp only
      refine .check (by decide) rfl fun hfin => ?_
      refine .check (by decide) rfl fun hresp => ?_
      rw [finish_eq (findSlot_some hfind).2.1]
      refine accept (.fin hdir hfind (eq_false_of_ne_true hfin) ?_)
      intro hdown
      by_contra hseen
      exact hresp ⟨hdown, by simpa using hseen⟩

theorem sessionOnReset_judged (s : Session) (id : UInt32) :
    Judged s (.reset id) (sessionOnReset s id) := by
  unfold sessionOnReset
  cases hfind : s.findSlot id with
  | none => exact accept (.gone hfind)
  | some slot =>
    obtain ⟨i, st⟩ := slot
    dsimp only
    rw [closeStream_eq (findSlot_some hfind).2.1]
    exact accept (.reset hfind)

theorem sessionOnWindow_judged (s : Session) (id : UInt32) (dir : ℤ) (credit : UInt32) :
    Judged s (.window id dir credit) (sessionOnWindow s id dir credit) := by
  unfold sessionOnWindow
  cases hdir : toDir dir with
  | none => exact refuse (by decide) rfl
  | some d =>
    dsimp only
    by_cases hid : id = 0
    · rw [if_pos hid]
      subst hid
      cases hadd : windowAdd (s.connWin.get d) credit with
      | none => exact refuse (by decide) rfl
      | some window => exact accept (.connWindow hdir hadd)
    · rw [if_neg hid]
      cases hfind : s.findSlot id with
      | none => exact refuse (by decide) rfl
      | some slot =>
        obtain ⟨i, st⟩ := slot
        dsimp only
        cases hadd : windowAdd (st.win.get d) credit with
        | none => exact refuse (by decide) rfl
        | some window =>
          have huse : st.inUse = true := (findSlot_some hfind).2.1
          dsimp only
          rw [put_eq_write (by exact huse)]
          exact accept (.window hdir hid hfind hadd)

theorem sessionSupersede_judged (s : Session) (generation : UInt32) :
    Judged s (.supersede generation) (sessionSupersede s generation) := by
  unfold sessionSupersede
  by_cases hle : generation ≤ s.generation
  · rw [if_pos hle]
    exact refuse (by decide) rfl
  · rw [if_neg hle]
    exact accept (.supersede (UInt32.not_le.mp hle))

/-- **Every operation is accepted or refused.**  An accepted one met its conditions and left the
    state it is to leave; a refused one left the session as it was, but for the registry. -/
theorem step_cases (s : Session) (e : Event) : (s.accepts e = true ∧ Accepted s e (s.next e)) ∨
      (s.accepts e = false ∧ s.next e = s.refused e) := by
  by_cases hrevoke : e = .revoke
  · subst hrevoke
    exact .inl ⟨by simp [Session.accepts], .revoke⟩
  have hjudged : Judged s e (s.step e) := by
    cases e with
    | services ids => exact sessionSetServices_judged s ids
    | opened id service => exact sessionOpen_judged s id service
    | resp id => exact sessionOnResp_judged s id
    | data id dir n fin => exact sessionOnData_judged s id dir n fin
    | fin id dir => exact sessionOnFin_judged s id dir
    | reset id => exact sessionOnReset_judged s id
    | window id dir credit => exact sessionOnWindow_judged s id dir credit
    | supersede generation => exact sessionSupersede_judged s generation
    | revoke => exact absurd rfl hrevoke
  rcases hjudged with ⟨hcode, haccepted⟩ | ⟨hcode, hstate⟩
  · exact .inl ⟨by simp [Session.accepts, hcode], haccepted⟩
  · exact .inr ⟨by simp [Session.accepts, hcode, hrevoke], hstate⟩

end DreamingOS.Cloud
