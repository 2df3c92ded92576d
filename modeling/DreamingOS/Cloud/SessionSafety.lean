import DreamingOS.Cloud.SessionLedger

namespace DreamingOS.Cloud

open Slots

/-!
# Cloud session — the guarantees of a session

When a stream ends, what a closed session refuses, and everything that holds of every run.

* `released_iff` — **when a stream is released**;
* `closed_run` — **a closed session stays closed**;
* `SessionHolds`, `session_holds` — the guarantees together, for every sequence of operations.
-/

/-! ### Ends -/

/-- The stream of a slot that was closed because a direction finished had finished the other one
    before. -/
theorem finished_alive_none {st : Stream} (huse : st.inUse = true) (d : Dir) :
    (st.finished d).alive = none ↔ ∀ e, st.fin.get e = true ∨ e = d := by
  have hget : ∀ e, (st.finish d).fin.get e = true ↔ st.fin.get e = true ∨ e = d := by
    intro e
    unfold Stream.finish
    by_cases he : e = d
    · simp [he]
    · rw [PerDir.get_set_ne _ _ he]
      simp [he]
  have hboth : ((st.finish d).fin.get .up && (st.finish d).fin.get .down) = true ↔
      ∀ e, st.fin.get e = true ∨ e = d := by
    rw [Bool.and_eq_true, hget, hget]
    exact ⟨fun h e => by cases e; exacts [h.1, h.2], fun h => ⟨h .up, h .down⟩⟩
  unfold Stream.finished
  by_cases h : ((st.finish d).fin.get .up && (st.finish d).fin.get .down) = true
  · rw [if_pos h]
    exact iff_of_true rfl (hboth.mp h)
  · rw [if_neg h, alive_of_inUse (by exact huse)]
    exact iff_of_false (by simp) fun hall => h (hboth.mpr hall)

/-- Why a stream ends with an accepted operation: both directions are finished, it is reset, or
    every stream is closed. -/
def Event.ends (id : UInt32) (st : Stream) (e : Event) : Prop :=
  (∀ d, st.fin.get d = true ∨ e.finishes id d = true) ∨ e = .reset id ∨ e.closes = true

variable {s : Session} {id : UInt32} {st : Stream}

/-- **When a stream is released.** -/
theorem released_iff (hinv : Inv s) (hlookup : s.lookup id = some st) (e : Event) :
    (s.next e).lookup id = none ↔ s.accepts e = true ∧ e.ends id st := by
  obtain ⟨i, hget, hkey⟩ := lookup_some hlookup
  have huse : st.inUse = true := (key_eq_some.mp hkey).1
  obtain ⟨u, hu⟩ := (hinv.ok st (List.mem_of_getElem? hget) huse).unfinished
  cases hacc : s.accepts e with
  | false =>
    rcases step_cases s e with ⟨hacc', -⟩ | ⟨-, hstate⟩
    · rw [hacc] at hacc'
      cases hacc'
    rw [hstate, refused_lookup, hlookup]
    simp
  | true =>
    have hstep := next_stream hinv hlookup hacc
    -- a stream stays where an end of it is left open
    have hkeep : ∀ {e : Event} {kept : Stream}, (∀ d, e.finishes id d = false) → e ≠ .reset id →
        e.closes = false → (some kept = none ↔ true = true ∧
          ((∀ d, st.fin.get d = true ∨ e.finishes id d = true) ∨ e = .reset id ∨
            e.closes = true)) := by
      intro e kept hnone hreset hcloses
      refine ⟨fun h => absurd h (Option.some_ne_none _), ?_⟩
      rintro ⟨-, h | h | h⟩
      · rcases h u with h | h
        · rw [hu] at h
          cases h
        · rw [hnone u] at h
          cases h
      · exact absurd h hreset
      · rw [hcloses] at h
        cases h
    generalize (s.next e).lookup id = next at hstep
    unfold Event.ends
    cases hstep with
    | other huses hreset hcloses _ =>
      have hfinishes : ∀ d, e.finishes id d = false := by
        intro d
        cases e <;> simp_all [Event.uses, Event.finishes]
      exact hkeep hfinishes hreset hcloses
    | resp _ => exact hkeep (fun _ => rfl) (by rintro ⟨⟩) rfl
    | @data dir d n last hdir _ _ =>
      cases last with
      | true =>
        have hfinishes : ∀ e, (Event.data id dir n true).finishes id e = true ↔ e = d := by
          intro e
          simp only [Event.finishes, hdir, decide_eq_true_eq, Option.some.injEq, true_and, and_true]
          exact eq_comm
        have hnone := @finished_alive_none (st.spend d n) huse d
        simp only [if_true, hfinishes]
        refine ⟨fun h => ⟨trivial, .inl (hnone.mp h)⟩, ?_⟩
        rintro ⟨-, h | h | h⟩
        · exact hnone.mpr h
        · cases h
        · cases h
      | false =>
        rw [if_neg (by decide), alive_of_inUse (by exact huse)]
        exact hkeep (fun e => by simp [Event.finishes]) (by rintro ⟨⟩) rfl
    | @fin dir d hdir _ =>
      have hfinishes : ∀ e, (Event.fin id dir).finishes id e = true ↔ e = d := by
        intro e
        simp only [Event.finishes, hdir, decide_eq_true_eq, Option.some.injEq, true_and]
        exact eq_comm
      have hnone := finished_alive_none huse d
      simp only [hfinishes]
      refine ⟨fun h => ⟨trivial, .inl (hnone.mp h)⟩, ?_⟩
      rintro ⟨-, h | h | h⟩
      · exact hnone.mpr h
      · cases h
      · cases h
    | reset => simp
    | @window dir _ credit _ _ _ =>
      exact hkeep (fun _ => rfl) (by rintro ⟨⟩) rfl
    | closed hcloses => simp [hcloses]

/-- A session with no active stream has no slot in use. -/
theorem Inv.no_stream (hinv : Inv s) (hactive : s.nActive = 0)
    (h : st ∈ s.streams) : st.inUse = false := by
  have hzero := hinv.active.symm.trans hactive
  have hnone := List.countP_eq_zero.mp hzero st h
  rw [isSome_key] at hnone
  exact eq_false_of_ne_true hnone

/-- The flags of a closed session are never cleared, and the generation never decreases. -/
theorem next_flags (s : Session) (e : Event) : (s.revoked = true → (s.next e).revoked = true) ∧
      (s.superseded = true → (s.next e).superseded = true) ∧
      s.generation ≤ (s.next e).generation ∧
      (s.next e).maxStreams = s.maxStreams ∧
      (s.next e).initStreamWindow = s.initStreamWindow := by
  have hsame := UInt32.le_refl s.generation
  rcases step_cases s e with ⟨-, haccepted⟩ | ⟨-, hstate⟩
  · generalize s.next e = s' at haccepted
    cases haccepted with
    | supersede hnewer => exact ⟨id, fun _ => rfl, UInt32.le_of_lt hnewer, rfl, rfl⟩
    | revoke => exact ⟨fun _ => rfl, id, hsame, rfl, rfl⟩
    | _ => exact ⟨id, id, hsame, rfl, rfl⟩
  · rw [hstate]
    cases e <;> exact ⟨id, id, hsame, rfl, rfl⟩

theorem run_flags (s : Session) (es : List Event) : (s.revoked = true → (s.run es).revoked = true) ∧
      (s.superseded = true → (s.run es).superseded = true) ∧
      s.generation ≤ (s.run es).generation ∧
      (s.run es).maxStreams = s.maxStreams ∧
      (s.run es).initStreamWindow = s.initStreamWindow := by
  induction es generalizing s with
  | nil => exact ⟨id, id, UInt32.le_refl _, rfl, rfl⟩
  | cons e es ih =>
    obtain ⟨hr, hs, hg, hm, hw⟩ := next_flags s e
    obtain ⟨hr', hs', hg', hm', hw'⟩ := ih (s.next e)
    exact ⟨fun h => hr' (hr h), fun h => hs' (hs h), UInt32.le_trans hg hg', hm'.trans hm,
      hw'.trans hw⟩

/-- A session that is revoked or superseded opens no stream. -/
theorem open_refused (h : s.revoked = true ∨ s.superseded = true) (id : UInt32)
    (service : ServiceId) : s.accepts (.opened id service) = false := by
  rcases step_cases s (.opened id service) with ⟨-, haccepted⟩ | ⟨hrej, -⟩
  · generalize s.next (.opened id service) = s' at haccepted
    cases haccepted with
    | opened hsuperseded hrevoked _ _ _ _ _ _ =>
      rw [hsuperseded, hrevoked] at h
      simp at h
  · exact hrej

/-- **A closed session stays closed**: after it is revoked or superseded no stream is active and
    none is opened, whatever follows. -/
theorem closed_run (hinv : Inv s) {e : Event} (hacc : s.accepts e = true)
    (hcloses : e.closes = true) (es : List Event) :
    (∀ st ∈ ((s.next e).run es).streams, st.inUse = false) ∧
      ∀ id service, ((s.next e).run es).accepts (.opened id service) = false := by
  have hflag : (s.next e).revoked = true ∨ (s.next e).superseded = true := by
    rcases step_cases s e with ⟨-, haccepted⟩ | ⟨hrej, -⟩
    · generalize s.next e = s' at haccepted
      cases haccepted with
      | supersede _ => exact .inr rfl
      | revoke => exact .inl rfl
      | _ => cases hcloses
    · rw [hacc] at hrej
      cases hrej
  obtain ⟨hr, hs, -, -, -⟩ := run_flags (s.next e) es
  have hflag' := hflag.imp hr hs
  have hinv' := (hinv.next e).run es
  exact ⟨fun st hst => hinv'.no_stream (hinv'.closed hflag') hst, open_refused hflag'⟩

/-! ### Every run -/

/-- What holds after the operations `es` on a session that began as `s₀`. -/
structure SessionHolds (s₀ : Session) (es : List Event) : Prop where
  /-- The counter is the number of slots in use, and within the limit. -/
  active : (s₀.run es).nActive = (s₀.run es).streams.countP Stream.inUse ∧
    (s₀.run es).nActive ≤ (s₀.run es).maxStreams.toNat ∧ (s₀.run es).maxStreams.toNat ≤ 128
  /-- Streams in use have different ids, and none has the id zero. -/
  ids : ∀ (i j : ℕ) (a b : Stream), (s₀.run es).streams[i]? = some a →
    (s₀.run es).streams[j]? = some b → a.inUse = true → b.inUse = true →
    a.id ≠ 0 ∧ (a.id = b.id → i = j)
  /-- Every window is at most the ceiling; one that fell below zero would be above it. -/
  windows : (∀ d, ((s₀.run es).connWin.get d).toNat ≤ 0x7fffffff) ∧
    ∀ st ∈ (s₀.run es).streams, st.inUse = true → ∀ d, (st.win.get d).toNat ≤ 0x7fffffff
  /-- The bytes accepted on the connection are within its window and its credit, and what is left
      is the difference. -/
  connection : ∀ d, s₀.total (Event.bytes d) es + ((s₀.run es).connWin.get d).toNat =
    (s₀.connWin.get d).toNat + s₀.total (Event.connCredit d) es
  /-- From its opening on, a stream carries no more than the initial window and its credit, and
      gets at most one response. -/
  stream : ∀ (es₁ es₂ : List Event) (id : UInt32) (service : ServiceId),
    es = es₁ ++ .opened id service :: es₂ → (s₀.run es₁).accepts (.opened id service) = true →
    (∀ d, ((s₀.run es₁).next (.opened id service)).lifetime id (Event.streamBytes id d) es₂ ≤
      s₀.initStreamWindow.toNat +
        ((s₀.run es₁).next (.opened id service)).lifetime id (Event.streamCredit id d) es₂) ∧
    ((s₀.run es₁).next (.opened id service)).lifetime id (Event.responses id) es₂ ≤ 1
  /-- A stream is released iff both directions are finished, it is reset, or the session is
      revoked or superseded. -/
  released : ∀ (id : UInt32) (st : Stream) (e : Event), (s₀.run es).lookup id = some st →
    (((s₀.run es).next e).lookup id = none ↔ (s₀.run es).accepts e = true ∧ e.ends id st)
  /-- After a session is revoked or superseded no stream is active and none is opened. -/
  closed : ∀ (es₁ es₂ : List Event) (e : Event), es = es₁ ++ e :: es₂ → e.closes = true →
    (s₀.run es₁).accepts e = true → (∀ st ∈ (s₀.run es).streams, st.inUse = false) ∧
      ∀ id service, (s₀.run es).accepts (.opened id service) = false
  /-- The generation never decreases. -/
  generation : ∀ e, (s₀.run es).generation ≤ ((s₀.run es).next e).generation
  /-- A refused operation leaves the session as it was, but for a cleared registry. -/
  refused : ∀ e, (s₀.run es).accepts e = false → (s₀.run es).next e = (s₀.run es).refused e

/-- The stream that an accepted opening leaves. -/
theorem opened_lookup (hinv : Inv s) {service : ServiceId}
    (hacc : s.accepts (.opened id service) = true) :
    id ≠ 0 ∧ (s.next (.opened id service)).lookup id = some (.opened id s.initStreamWindow) := by
  rcases step_cases s (.opened id service) with ⟨-, haccepted⟩ | ⟨hrej, -⟩
  · generalize s.next (.opened id service) = s' at haccepted
    cases haccepted with
    | opened _ _ hid hnew _ _ hget hfree =>
      exact ⟨hid, by rw [lookup_openSlot hinv hget hfree hnew, if_pos rfl]⟩
  · rw [hacc] at hrej
    cases hrej

/-- **The guarantees of a session**, from any initialisation and for every sequence of
    operations. -/
theorem session_holds (generation maxStreams streamWindow connWindow : UInt32)
    (es : List Event) :
    SessionHolds (sessionInit generation maxStreams streamWindow connWindow) es := by
  have hinit := inv_init generation maxStreams streamWindow connWindow
  generalize sessionInit generation maxStreams streamWindow connWindow = s₀ at hinit
  have hinv := hinit.run es
  have hmax : windowMax.toNat = 0x7fffffff := rfl
  exact
    { active := by
        have hcount : used Stream.key (s₀.run es).streams =
            (s₀.run es).streams.countP Stream.inUse := by
          simp only [used, isSome_key]
        exact ⟨hinv.active.trans hcount, hinv.active_le, UInt32.le_iff_toNat_le.mp hinv.max_le⟩
      ids := fun i j a b ha hb hua hub =>
        ⟨(hinv.ok a (List.mem_of_getElem? ha) hua).id_ne, fun heq =>
          hinv.distinct i j a b a.id ha hb (key_eq_some.mpr ⟨hua, rfl⟩)
            (key_eq_some.mpr ⟨hub, heq.symm⟩)⟩
      windows := ⟨fun d => UInt32.le_iff_toNat_le.mp (hinv.conn_le d), fun st hst huse d =>
        UInt32.le_iff_toNat_le.mp ((hinv.ok st hst huse).win_le d)⟩
      connection := fun d => run_conn s₀ es d
      stream := fun es₁ es₂ id service _ hacc => by
        have hinv₁ := hinit.run es₁
        obtain ⟨hid, hlookup⟩ := opened_lookup hinv₁ hacc
        obtain ⟨-, -, -, -, hwindow⟩ := run_flags s₀ es₁
        refine ⟨fun d => ?_, lifetime_responses (hinv₁.next _) hid es₂⟩
        have hbytes := lifetime_bytes (hinv₁.next (.opened id service)) hid d es₂
        rw [hlookup, Option.elim_some, hwindow] at hbytes
        have hwin : (Stream.opened id s₀.initStreamWindow).win.get d = s₀.initStreamWindow := by
          cases d <;> rfl
        rw [hwin] at hbytes
        exact hbytes
      released := fun id st e hlookup => released_iff hinv hlookup e
      closed := fun es₁ es₂ e hes hcloses hacc => by
        rw [hes, Session.run_append, Session.run_cons]
        exact closed_run (hinit.run es₁) hacc hcloses es₂
      generation := fun e => (next_flags _ e).2.2.1
      refused := fun e hrej => by
        rcases step_cases (s₀.run es) e with ⟨hacc, -⟩ | ⟨-, hstate⟩
        · rw [hrej] at hacc
          cases hacc
        · exact hstate }

/-- A service of one letter. -/
def service : ServiceId := [0x61]

/-- A stream that nobody finished or reset ends when the session is revoked. -/
theorem revoked_released :
    ¬ ∀ (generation maxStreams streamWindow connWindow : UInt32) (es : List Event) (id : UInt32)
        (st : Stream) (e : Event),
      ((sessionInit generation maxStreams streamWindow connWindow).run es).lookup id = some st →
      ((((sessionInit generation maxStreams streamWindow connWindow).run es).next e).lookup id =
          none ↔
        ((sessionInit generation maxStreams streamWindow connWindow).run es).accepts e = true ∧
          ((∀ d, st.fin.get d = true ∨ e.finishes id d = true) ∨ e = .reset id)) := by
  intro h
  have hrevoke := h 1 1 1 1 [.services (some [service]), .opened 1 service] 1 (.opened 1 1) .revoke
    (by decide +kernel)
  rcases (hrevoke.mp (by decide +kernel)).2 with hall | hreset
  · exact absurd (hall .up) (by decide)
  · cases hreset

end DreamingOS.Cloud
