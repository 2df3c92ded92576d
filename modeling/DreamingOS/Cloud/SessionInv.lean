import DreamingOS.Cloud.Session

namespace DreamingOS.Cloud

open Slots List

/-!
# Cloud session — what holds in every state

The invariant of the stream machine, kept by every operation and so by every run.

* `lookup_write`, `lookup_openSlot` — which stream an id finds after a slot is written;
* `spend_toNat`, `windowAdd_toNat` — the 32-bit window arithmetic does not wrap;
* `Inv.next`, `Inv.run` — **the invariant is preserved**, by one operation and by a run.
-/

/-! ### Windows -/

variable {d : Dir} {n : UInt32}

/-- Spending no more than there is. -/
theorem spend_toNat {window : PerDir UInt32} (h : n ≤ window.get d) :
    ((spend window d n).get d).toNat + n.toNat = (window.get d).toNat := by
  have hle := UInt32.le_iff_toNat_le.mp h
  rw [spend, PerDir.get_set_self, UInt32.toNat_sub_of_le _ _ h]
  omega

theorem spend_get_ne {window : PerDir UInt32} {d e : Dir} (h : e ≠ d) :
    (spend window d n).get e = window.get e :=
  PerDir.get_set_ne _ _ h

theorem spend_le {window : PerDir UInt32} (h : n ≤ window.get d) (e : Dir) :
    (spend window d n).get e ≤ window.get e := by
  by_cases he : e = d
  · subst he
    have := spend_toNat h
    rw [UInt32.le_iff_toNat_le]
    omega
  · rw [spend_get_ne he]
    exact UInt32.le_refl _

/-- Granting credit stays below the ceiling, and adds the credit. -/
theorem windowAdd_toNat {window credit window' : UInt32}
    (h : windowAdd window credit = some window') :
    window' ≤ windowMax ∧ window'.toNat = window.toNat + credit.toNat := by
  unfold windowAdd at h
  by_cases hcredit : credit > windowMax
  · rw [if_pos hcredit] at h
    cases h
  by_cases hwindow : window > windowMax - credit
  · rw [if_neg hcredit, if_pos hwindow] at h
    cases h
  rw [if_neg hcredit, if_neg hwindow] at h
  obtain rfl := Option.some.inj h
  have hle : credit ≤ windowMax := UInt32.not_lt.mp hcredit
  have hmax : windowMax.toNat = 0x7fffffff := rfl
  have hcredit' := UInt32.le_iff_toNat_le.mp hle
  have hwindow' := UInt32.le_iff_toNat_le.mp (UInt32.not_lt.mp hwindow)
  rw [UInt32.toNat_sub_of_le _ _ hle] at hwindow'
  have hsum : (window + credit).toNat = window.toNat + credit.toNat := by
    rw [UInt32.toNat_add]
    omega
  exact ⟨by rw [UInt32.le_iff_toNat_le]; omega, hsum⟩

theorem set_le {window : PerDir UInt32} {w bound : UInt32} (hw : w ≤ bound)
    (h : ∀ e, window.get e ≤ bound) (e : Dir) : (window.set d w).get e ≤ bound := by
  by_cases he : e = d
  · rw [he, PerDir.get_set_self]
    exact hw
  · rw [PerDir.get_set_ne _ _ he]
    exact h e

/-! ### The invariant -/

/-- A stream in use: it has an id, its windows are below the ceiling, and one direction at least is
    not finished. -/
structure Stream.Ok (st : Stream) : Prop where
  id_ne : st.id ≠ 0
  win_le : ∀ d, st.win.get d ≤ windowMax
  unfinished : ∃ d, st.fin.get d = false

/-- What holds in every state of a session. -/
structure Inv (s : Session) : Prop where
  distinct : Distinct Stream.key s.streams
  ok : ∀ st ∈ s.streams, st.inUse = true → st.Ok
  active : s.nActive = used Stream.key s.streams
  active_le : s.nActive ≤ s.maxStreams.toNat
  max_le : s.maxStreams ≤ maxStreamsLimit
  init_le : s.initStreamWindow ≤ windowMax
  conn_le : ∀ d, s.connWin.get d ≤ windowMax
  closed : s.revoked = true ∨ s.superseded = true → s.nActive = 0

theorem isSome_key (st : Stream) : st.key.isSome = st.inUse := by
  unfold Stream.key
  cases st.inUse <;> rfl

variable {s : Session}

/-- The id zero finds nothing. -/
theorem Inv.lookup_zero (hinv : Inv s) : s.lookup 0 = none := by
  rw [Session.lookup, lookup_eq_none]
  intro st hst hkey
  obtain ⟨huse, hid⟩ := key_eq_some.mp hkey
  exact (hinv.ok st hst huse).id_ne hid

variable {id : UInt32}

theorem Inv.findSlot_none (hinv : Inv s) (h : s.findSlot id = none) : s.lookup id = none := by
  rcases Cloud.findSlot_none h with rfl | hnone
  · exact hinv.lookup_zero
  · exact hnone

/-- What slot `i`, which held `st`, may be written with: a free slot, or a stream of the same id. -/
structure Rewrites (s : Session) (i : ℕ) (st b : Stream) : Prop where
  get : s.streams[i]? = some st
  inUse : st.inUse = true
  same : b.inUse = true → b.id = st.id ∧ b.Ok

variable {i : ℕ}

theorem Rewrites.key {st b : Stream} (h : Rewrites s i st b) : b.key = st.key ∨ b.key = none := by
  unfold Stream.key
  by_cases hb : b.inUse = true
  · rw [if_pos hb, if_pos h.inUse, (h.same hb).1]
    exact .inl rfl
  · rw [if_neg hb]
    exact .inr rfl

theorem Rewrites.distinct {st b : Stream} (h : Rewrites s i st b)
    (hinv : Inv s) : Distinct Stream.key (s.streams.set i b) :=
  hinv.distinct.set_same h.get h.key

/-- Which stream an id finds after the slot of another stream, or its own, is written. -/
theorem lookup_write {st b : Stream} (hinv : Inv s) (h : Rewrites s i st b)
    (connWin : PerDir UInt32) (id : UInt32) :
    (s.write i b connWin).lookup id =
      if id = st.id then (if b.inUse then some b else none) else s.lookup id := by
  have hkey : st.key = some id ↔ id = st.id := by
    rw [key_eq_some]
    exact ⟨fun hk => hk.2.symm, fun hid => ⟨h.inUse, hid.symm⟩⟩
  have hlookup := lookup_set hinv.distinct h.get (h.distinct hinv) id
  show Slots.lookup Stream.key (s.streams.set i b) id = _
  rw [hlookup]
  by_cases hb : b.inUse = true
  · have hbkey : b.key = some id ↔ id = st.id := by
      rw [key_eq_some, (h.same hb).1]
      exact ⟨fun hk => hk.2.symm, fun hid => ⟨hb, hid.symm⟩⟩
    by_cases hid : id = st.id
    · rw [if_pos (hbkey.mpr hid), if_pos hid, if_pos hb]
    · rw [if_neg (fun hk => hid (hbkey.mp hk)), if_neg (fun hk => hid (hkey.mp hk)), if_neg hid]
      rfl
  · have hbkey : ¬ b.key = some id := fun hk => hb (key_eq_some.mp hk).1
    by_cases hid : id = st.id
    · rw [if_neg hbkey, if_pos (hkey.mpr hid), if_pos hid, if_neg hb]
    · rw [if_neg hbkey, if_neg (fun hk => hid (hkey.mp hk)), if_neg hid]
      rfl

theorem key_opened (id window : UInt32) : (Stream.opened id window).key = some id := rfl

variable {st : Stream}

theorem key_of_not_inUse (h : st.inUse = false) : st.key = none := by
  rw [Stream.key, h]
  rfl

theorem opened_distinct (hinv : Inv s) {new : UInt32} (hnew : s.lookup new = none)
    (i : ℕ) (window : UInt32) :
    Distinct Stream.key (s.streams.set i (.opened new window)) :=
  hinv.distinct.set_new (key_opened new window) hnew

/-- Which stream an id finds after a stream is opened. -/
theorem lookup_openSlot {a : Stream} {new : UInt32} (hinv : Inv s)
    (hget : s.streams[i]? = some a) (hfree : a.inUse = false) (hnew : s.lookup new = none)
    (id : UInt32) :
    (s.openSlot i new).lookup id =
      if id = new then some (.opened new s.initStreamWindow) else s.lookup id := by
  have hlookup := lookup_set hinv.distinct hget (opened_distinct hinv hnew i s.initStreamWindow) id
  refine Eq.trans hlookup ?_
  rw [key_opened, key_of_not_inUse hfree]
  by_cases hid : id = new
  · rw [if_pos (by rw [hid]), if_pos hid]
  · rw [if_neg (fun h => hid (Option.some.inj h).symm), if_neg (by simp), if_neg hid]
    rfl

/-- The invariant after a slot in use is written. -/
theorem Inv.write {st b : Stream} (hinv : Inv s) (h : Rewrites s i st b)
    {connWin : PerDir UInt32} (hconn : ∀ d, connWin.get d ≤ windowMax) :
    Inv (s.write i b connWin) := by
  have hused := @used_set _ _ Stream.key _ _ _ b h.get
  rw [isSome_key, isSome_key, h.inUse] at hused
  have hcount : (s.write i b connWin).nActive = used Stream.key (s.streams.set i b) := by
    have hactive := hinv.active
    show (if b.inUse then s.nActive else s.nActive - 1) = _
    cases hb : b.inUse <;> rw [hb] at hused <;> simp only [Bool.toNat_true, Bool.toNat_false] at hused
    · rw [if_neg (by decide)]
      omega
    · rw [if_pos rfl]
      omega
  have hle : (s.write i b connWin).nActive ≤ s.nActive := by
    show (if b.inUse then s.nActive else s.nActive - 1) ≤ _
    split <;> omega
  exact
    { distinct := h.distinct hinv
      ok := fun c hc huse => by
        rcases mem_or_eq_of_mem_set hc with hc | rfl
        · exact hinv.ok c hc huse
        · exact (h.same huse).2
      active := hcount
      active_le := Nat.le_trans hle hinv.active_le
      max_le := hinv.max_le
      init_le := hinv.init_le
      conn_le := hconn
      closed := fun hflag => by
        have := hinv.closed hflag
        omega }

theorem Inv.openSlot {a : Stream} (hinv : Inv s)
    (hget : s.streams[i]? = some a) (hfree : a.inUse = false) (hnew : s.lookup id = none)
    (hid : id ≠ 0) (hroom : s.nActive < s.maxStreams.toNat)
    (hopen : s.superseded = false ∧ s.revoked = false) : Inv (s.openSlot i id) := by
  have hused := @used_set _ _ Stream.key _ _ _ (Stream.opened id s.initStreamWindow) hget
  rw [key_opened, key_of_not_inUse hfree] at hused
  exact
    { distinct := opened_distinct hinv hnew i s.initStreamWindow
      ok := fun c hc huse => by
        rcases mem_or_eq_of_mem_set hc with hc | rfl
        · exact hinv.ok c hc huse
        · exact ⟨hid, fun d => by cases d <;> exact hinv.init_le, .up, rfl⟩
      active := by
        have hactive := hinv.active
        show s.nActive + 1 = used Stream.key (s.streams.set i (.opened id s.initStreamWindow))
        simp only [Option.isSome_none, Option.isSome_some, Bool.toNat_false,
          Bool.toNat_true] at hused
        omega
      active_le := hroom
      max_le := hinv.max_le
      init_le := hinv.init_le
      conn_le := hinv.conn_le
      closed := fun hflag => by
        rcases hflag with h | h
        · exact absurd h (by rw [show (s.openSlot i id).revoked = s.revoked from rfl, hopen.2]; simp)
        · exact absurd h (by
            rw [show (s.openSlot i id).superseded = s.superseded from rfl, hopen.1]; simp) }

/-- No slot is in use when all are zeroed. -/
theorem closeAll_free (h : st ∈ s.closeAll.streams) : st.inUse = false := by
  obtain ⟨-, -, rfl⟩ := List.mem_map.mp h
  rfl

theorem closeAll_lookup (s : Session) (id : UInt32) : s.closeAll.lookup id = none := by
  rw [Session.lookup, lookup_eq_none]
  intro st hst
  rw [key_of_not_inUse (closeAll_free hst)]
  simp

theorem Inv.closeAll (hinv : Inv s) (generation : UInt32) (revoked superseded : Bool) :
    Inv { s.closeAll with
      generation := generation, revoked := revoked, superseded := superseded } where
  distinct := by
    intro i j a b k ha _ hka
    rw [key_of_not_inUse (closeAll_free (mem_of_getElem? ha))] at hka
    cases hka
  ok := fun st hst huse => by
    rw [closeAll_free hst] at huse
    cases huse
  active := by
    have hzero : used Stream.key s.closeAll.streams = 0 := by
      rw [used, countP_eq_zero]
      intro st hst
      rw [key_of_not_inUse (closeAll_free hst)]
      simp
    exact hzero.symm
  active_le := Nat.zero_le _
  max_le := hinv.max_le
  init_le := hinv.init_le
  conn_le := hinv.conn_le
  closed := fun _ => rfl

/-! ### Preservation -/

theorem Stream.Ok.spend (h : st.Ok) (hn : n ≤ st.win.get d) : (st.spend d n).Ok where
  id_ne := h.id_ne
  win_le := fun e => UInt32.le_trans (spend_le hn e) (h.win_le e)
  unfinished := h.unfinished

/-- A stream that is not closed when a direction finishes has the other one open. -/
theorem Stream.Ok.finished (h : st.Ok) (huse : (st.finished d).inUse = true) :
    (st.finished d).id = st.id ∧ (st.finished d).Ok := by
  unfold Stream.finished at huse ⊢
  by_cases hboth : ((st.finish d).fin.get .up && (st.finish d).fin.get .down) = true
  · rw [if_pos hboth] at huse
    cases huse
  rw [if_neg hboth]
  refine ⟨rfl, h.id_ne, h.win_le, ?_⟩
  by_cases hup : (st.finish d).fin.get .up = true
  · exact ⟨.down, by simpa [hup] using hboth⟩
  · exact ⟨.up, eq_false_of_ne_true hup⟩

theorem Stream.Ok.window {st : Stream} (h : st.Ok) {d : Dir} {window : UInt32}
    (hwindow : window ≤ windowMax) : ({ st with win := st.win.set d window } : Stream).Ok where
  id_ne := h.id_ne
  win_le := set_le hwindow h.win_le
  unfinished := h.unfinished

theorem Inv.stream_ok (hinv : Inv s) (h : s.findSlot id = some (i, st)) : st.Ok :=
  hinv.ok st (mem_of_getElem? (findSlot_some h).1) (findSlot_some h).2.1

theorem rewrites_of_find {st b : Stream}
    (h : s.findSlot id = some (i, st)) (hsame : b.inUse = true → b.id = st.id ∧ b.Ok) :
    Rewrites s i st b :=
  ⟨(findSlot_some h).1, (findSlot_some h).2.1, hsame⟩

theorem rewrites_free (h : s.findSlot id = some (i, st)) : Rewrites s i st .free :=
  rewrites_of_find h fun huse => nomatch huse

/-- The slot an accepted chunk leaves. -/
theorem rewrites_data (hinv : Inv s) {id n : UInt32}
    (h : s.findSlot id = some (i, st)) (hn : n ≤ st.win.get d) (fin : Bool) :
    Rewrites s i st (if fin then (st.spend d n).finished d else st.spend d n) := by
  have hok := (hinv.stream_ok h).spend hn
  apply rewrites_of_find h
  cases fin with
  | true => exact fun huse => hok.finished huse
  | false => exact fun _ => ⟨rfl, hok⟩

theorem rewrites_fin (hinv : Inv s)
    (h : s.findSlot id = some (i, st)) (d : Dir) : Rewrites s i st (st.finished d) :=
  rewrites_of_find h fun huse => (hinv.stream_ok h).finished huse

theorem rewrites_resp (hinv : Inv s)
    (h : s.findSlot id = some (i, st)) : Rewrites s i st { st with respSeen := true } :=
  rewrites_of_find h fun _ => ⟨rfl, (hinv.stream_ok h).id_ne, (hinv.stream_ok h).win_le,
    (hinv.stream_ok h).unfinished⟩

theorem rewrites_window (hinv : Inv s) {id credit window : UInt32}
    (h : s.findSlot id = some (i, st))
    (hadd : windowAdd (st.win.get d) credit = some window) :
    Rewrites s i st { st with win := st.win.set d window } :=
  rewrites_of_find h fun _ => ⟨rfl, (hinv.stream_ok h).window (windowAdd_toNat hadd).1⟩

theorem Inv.accepted {s s' : Session} {e : Event} (hinv : Inv s) (h : Accepted s e s') :
    Inv s' := by
  cases h with
  | services _ _ => exact { hinv with }
  | opened hsuperseded hrevoked hid hnew _ hroom hget hfree =>
    exact hinv.openSlot hget hfree hnew hid hroom ⟨hsuperseded, hrevoked⟩
  | resp hfind _ _ => exact hinv.write (rewrites_resp hinv hfind) hinv.conn_le
  | data _ hfind _ _ _ hwin hconn =>
    exact hinv.write (rewrites_data hinv hfind hwin _) fun e =>
      UInt32.le_trans (spend_le hconn e) (hinv.conn_le e)
  | fin _ hfind _ _ => exact hinv.write (rewrites_fin hinv hfind _) hinv.conn_le
  | reset hfind => exact hinv.write (rewrites_free hfind) hinv.conn_le
  | gone _ => exact hinv
  | connWindow _ hadd =>
    exact { hinv with conn_le := set_le (windowAdd_toNat hadd).1 hinv.conn_le }
  | window _ _ hfind hadd => exact hinv.write (rewrites_window hinv hfind hadd) hinv.conn_le
  | supersede _ => exact hinv.closeAll _ s.revoked true
  | revoke => exact hinv.closeAll s.generation true s.superseded

theorem Inv.refused (hinv : Inv s) (e : Event) : Inv (s.refused e) := by
  cases e with
  | services ids => exact { hinv with }
  | _ => exact hinv

/-- **One operation keeps the invariant**, accepted or not. -/
theorem Inv.next (hinv : Inv s) (e : Event) : Inv (s.next e) := by
  rcases step_cases s e with ⟨-, haccepted⟩ | ⟨-, hstate⟩
  · exact hinv.accepted haccepted
  · rw [hstate]
    exact hinv.refused e

/-- **A run keeps the invariant.** -/
theorem Inv.run (hinv : Inv s) (es : List Event) : Inv (s.run es) := by
  induction es generalizing s with
  | nil => exact hinv
  | cons e es ih => exact ih (hinv.next e)

theorem clamp_bounds {lower upper : UInt32} (h : lower ≤ upper) (value : UInt32) :
    lower ≤ clamp lower upper value ∧ clamp lower upper value ≤ upper := by
  unfold clamp
  rw [UInt32.le_iff_toNat_le] at h
  simp only [UInt32.le_iff_toNat_le, UInt32.lt_iff_toNat_lt, gt_iff_lt]
  split <;> split <;> omega

/-- A fresh session satisfies the invariant, whatever its arguments. -/
theorem inv_init (generation maxStreams streamWindow connWindow : UInt32) :
    Inv (sessionInit generation maxStreams streamWindow connWindow) := by
  have hstream := clamp_bounds (show (1 : UInt32) ≤ windowMax by decide) streamWindow
  have hconn := clamp_bounds hstream.2 connWindow
  have hfree : ∀ st ∈ List.replicate 128 Stream.free, st.inUse = false := fun st hst => by
    rw [eq_of_mem_replicate hst]
    rfl
  exact
    { distinct := by
        intro i j a b k ha _ hka
        rw [key_of_not_inUse (hfree a (mem_of_getElem? ha))] at hka
        cases hka
      ok := fun st hst huse => by
        rw [hfree st hst] at huse
        cases huse
      active := by
        show 0 = used Stream.key (List.replicate 128 Stream.free)
        decide
      active_le := Nat.zero_le _
      max_le := (clamp_bounds (show (1 : UInt32) ≤ maxStreamsLimit by decide) maxStreams).2
      init_le := hstream.2
      conn_le := fun d => by cases d <;> exact hconn.2
      closed := fun _ => rfl }

end DreamingOS.Cloud
