import DreamingOS.Lib.Table
import Mathlib.Algebra.Group.Int.Defs

namespace DreamingOS.WebSession

open List

/-!
# Web sessions — the table and its statements

The rows of `web_sessions` and the SQL of `webd_session_idle.c`.

* `Row`, `Family` — a token, and the session its access and refresh tokens share;
* `revokeFamily`, `touchFamily`, `consumeRefresh`, `insertRow`, `gcRows` — the writes.
-/

/-- `enum webd_session_idle_result`. -/
inductive Result where
  | ok
  | tokenInvalid
  | timeout
  | userNotFound
  | reused
  | invalidArgument
  | dbError
deriving DecidableEq

/-- The column `type`. -/
inductive Kind where
  | access
  | refresh
deriving DecidableEq

/-- The tokens of one login. -/
structure Family where
  (username sessionId : String)
deriving DecidableEq

/-- A row of `web_sessions`. -/
structure Row where
  token : String
  family : Family
  kind : Kind
  (createdAt expiresAt : ℤ)
  revoked : Bool := false
  lastActivityAt : ℤ
  refreshConsumedAt : ℤ := 0
  replacedBy : String := ""
deriving DecidableEq

/-- The table; its primary key is the token. -/
abbrev Sessions := Table Row.token

/-- `idle_text_ok`. -/
def idleTextOk (value : String) (maxLen : ℕ) : Bool := value ≠ "" && value.utf8ByteSize ≤ maxLen

/-- The names of a family fit into the fields of `struct webd_session_row`. -/
def Family.textOk (f : Family) : Bool := idleTextOk f.username 64 && idleTextOk f.sessionId 128

/-! ### Idle time -/

def INT64_MAX : ℤ := 2 ^ 63 - 1
def WEBD_SESSION_IDLE_TOUCH_INTERVAL_S : ℤ := 30

/-- `idle_deadline`. -/
def idleDeadline (lastActivityAt timeoutMin : ℤ) : ℤ :=
  if lastActivityAt > INT64_MAX - timeoutMin * 60 then INT64_MAX
  else lastActivityAt + timeoutMin * 60

/-- `idle_is_expired`. -/
def idleIsExpired (now lastActivityAt timeoutMin : ℤ) : Bool :=
  if lastActivityAt ≤ 0 ∨ now < lastActivityAt then false
  else now ≥ idleDeadline lastActivityAt timeoutMin

/-! ### Reads -/

/-- `struct webd_session_row`. -/
structure SessionRow where
  family : Family
  (lastActivityAt createdAt expiresAt : ℤ)

/-- The rows of a family. -/
def familyRows (db : Sessions) (f : Family) : List Row := db.rows.filter fun r => r.family = f

/-- The latest activity of the unrevoked rows of a family, 0 counting for a revoked one. -/
def familyActivity (db : Sessions) (f : Family) : ℤ :=
  (((familyRows db f).map fun r => if r.revoked then 0 else r.lastActivityAt).max?).getD 0

/-- `idle_session_read`. -/
def sessionRead (db : Sessions) (token : String) (kind : Kind) (now : ℤ) :
    Except Result SessionRow :=
  match db.find token with
  | none => .error .tokenInvalid
  | some s =>
    if s.kind ≠ kind ∨ s.revoked ∨ !s.family.textOk ∨ s.expiresAt ≤ now then .error .tokenInvalid
    else
      let last := familyActivity db s.family
      .ok
        { family := s.family
          lastActivityAt := if last ≤ 0 then s.createdAt else last
          createdAt := s.createdAt
          expiresAt := s.expiresAt }

/-- `idle_consumed_refresh_read`: the family of a refresh token that a rotation has consumed. -/
def consumedRefreshRead (db : Sessions) (token : String) : Option Family :=
  match db.find token with
  | none => none
  | some s =>
    if s.kind = .refresh ∧ s.revoked ∧ s.refreshConsumedAt > 0 ∧ s.family.textOk then some s.family
    else none

/-! ### Writes -/

/-- `idle_family_update` with `revoke` set. -/
def revokeFamily (db : Sessions) (f : Family) : Sessions :=
  db.update (fun r => r.family = f && !r.revoked) (fun r => { r with revoked := true })
    fun _ => rfl

/-- `idle_family_update` without `revoke`. -/
def touchFamily (db : Sessions) (f : Family) (now : ℤ) : Sessions :=
  db.update (fun r => r.family = f && !r.revoked && r.lastActivityAt < now)
    (fun r => { r with lastActivityAt := now }) fun _ => rfl

/-- The update that consumes a refresh token. -/
def consumeRefresh (db : Sessions) (token newRefresh : String) (now : ℤ) : Sessions :=
  db.update (fun r => r.token = token && r.kind = .refresh && !r.revoked)
    (fun r => { r with revoked := true, refreshConsumedAt := now, replacedBy := newRefresh })
    fun _ => rfl

/-- `idle_insert_row`; the insertion fails when the token exists. -/
def insertRow (db : Sessions) (r : Row) : Option Sessions :=
  if h : r.token ∉ db.rows.map Row.token then some (db.insert r h) else none

/-- The rows that `webd_session_idle_gc` deletes. -/
def gcSelect (db : Sessions) (now retentionS : ℤ) (limit : ℕ) : List Row :=
  ((db.rows.filter fun r =>
      (r.expiresAt ≤ now && r.expiresAt ≤ now - retentionS) ||
        (r.revoked && r.createdAt ≤ now - retentionS)).mergeSort
    fun a b => a.expiresAt ≤ b.expiresAt).take limit

def gcRows (db : Sessions) (now retentionS : ℤ) (limit : ℕ) : Sessions :=
  db.delete fun r => r ∈ gcSelect db now retentionS limit

/-! ### What the statements leave -/

/-- A row that an update has left of another one: only its activity, its revocation and what is
    noted of its consumption may differ, and a revoked row stays as it is. -/
structure Row.LeftOf (r' r : Row) : Prop where
  token : r'.token = r.token
  family : r'.family = r.family
  kind : r'.kind = r.kind
  expiresAt : r'.expiresAt = r.expiresAt
  activity : r.lastActivityAt ≤ r'.lastActivityAt
  revoked : r.revoked = true → r' = r

theorem Row.LeftOf.refl (r : Row) : r.LeftOf r := ⟨rfl, rfl, rfl, rfl, Int.le_refl _, fun _ => rfl⟩

variable {r : Row}

theorem Row.LeftOf.trans {r' r'' : Row} (h : r''.LeftOf r') (h' : r'.LeftOf r) : r''.LeftOf r := by
  refine ⟨h.token.trans h'.token, h.family.trans h'.family, h.kind.trans h'.kind,
    h.expiresAt.trans h'.expiresAt, Int.le_trans h'.activity h.activity, ?_⟩
  intro hrev
  have hsame := h'.revoked hrev
  rw [h.revoked (by rw [hsame]; exact hrev), hsame]

theorem Row.LeftOf.live {r' : Row} (h : r'.LeftOf r) (hlive : r'.revoked = false) :
    r.revoked = false := by
  cases hrev : r.revoked with
  | false => rfl
  | true =>
    rw [h.revoked hrev, hrev] at hlive
    cases hlive

variable {db : Sessions} {p : Row → Bool}

/-- An update keeps a row for every token. -/
theorem exists_update {f : Row → Row} {hf : ∀ r, (f r).token = r.token} (h : r ∈ db.rows) :
    ∃ r' ∈ (db.update p f hf).rows, r'.token = r.token := by
  refine ⟨if p r then f r else r, List.mem_map.mpr ⟨r, h, rfl⟩, ?_⟩
  split
  · exact hf r
  · rfl

variable {r' : Row}

/-- A row of an updated table comes from a row of the table, changed if it was selected. -/
theorem mem_update {f : Row → Row} {hf : ∀ r, (f r).token = r.token}
    (h : r' ∈ (db.update p f hf).rows) :
    ∃ r ∈ db.rows, (p r = true ∧ r' = f r) ∨ (p r = false ∧ r' = r) := by
  obtain ⟨r, hr, rfl⟩ := List.mem_map.mp h
  refine ⟨r, hr, ?_⟩
  cases hp : p r with
  | true => exact .inl ⟨rfl, if_pos rfl⟩
  | false => exact .inr ⟨rfl, if_neg Bool.false_ne_true⟩

variable {f : Family}

theorem mem_revokeFamily (h : r' ∈ (revokeFamily db f).rows) :
    ∃ r ∈ db.rows, r'.LeftOf r ∧ r'.refreshConsumedAt = r.refreshConsumedAt ∧
      r'.lastActivityAt = r.lastActivityAt ∧
      (r'.revoked = false → r' = r) ∧ (r'.family = f → r'.revoked = true) := by
  obtain ⟨r, hr, ⟨hp, rfl⟩ | ⟨hp, rfl⟩⟩ := mem_update h
  · rw [Bool.and_eq_true, Bool.not_eq_true'] at hp
    refine ⟨r, hr, ⟨rfl, rfl, rfl, rfl, Int.le_refl _, ?_⟩, rfl, rfl, nofun, fun _ => rfl⟩
    intro hrev
    rw [hp.2] at hrev
    cases hrev
  · refine ⟨r', hr, Row.LeftOf.refl r', rfl, rfl, fun _ => rfl, ?_⟩
    intro hf
    simpa [hf] using hp

variable {now : ℤ}

theorem mem_touchFamily (h : r' ∈ (touchFamily db f now).rows) :
    ∃ r ∈ db.rows, r'.LeftOf r ∧ r'.refreshConsumedAt = r.refreshConsumedAt ∧
      r'.revoked = r.revoked := by
  obtain ⟨r, hr, ⟨hp, rfl⟩ | ⟨-, rfl⟩⟩ := mem_update h
  · simp only [Bool.and_eq_true, Bool.not_eq_true', decide_eq_true_eq] at hp
    refine ⟨r, hr, ⟨rfl, rfl, rfl, rfl, Int.le_of_lt hp.2, ?_⟩, rfl, rfl⟩
    intro hrev
    rw [hp.1.2] at hrev
    cases hrev
  · exact ⟨r', hr, Row.LeftOf.refl r', rfl, rfl⟩

theorem mem_consumeRefresh {token newRefresh : String}
    (h : r' ∈ (consumeRefresh db token newRefresh now).rows) :
    ∃ r ∈ db.rows, r'.LeftOf r ∧
      ((r.token = token ∧ r.kind = .refresh ∧ r.revoked = false ∧ r'.revoked = true ∧
          r'.refreshConsumedAt = now) ∨
        (¬ (r.token = token ∧ r.kind = .refresh ∧ r.revoked = false) ∧ r' = r)) := by
  obtain ⟨r, hr, ⟨hp, rfl⟩ | ⟨hp, rfl⟩⟩ := mem_update h
  · simp only [Bool.and_eq_true, Bool.not_eq_true', decide_eq_true_eq] at hp
    refine ⟨r, hr, ⟨rfl, rfl, rfl, rfl, Int.le_refl _, ?_⟩, .inl ⟨hp.1.1, hp.1.2, hp.2, rfl, rfl⟩⟩
    intro hrev
    rw [hp.2] at hrev
    cases hrev
  · refine ⟨r', hr, Row.LeftOf.refl r', .inr ⟨?_, rfl⟩⟩
    rintro ⟨htoken, hkind, hrev⟩
    rw [htoken, hkind, hrev] at hp
    simp at hp

theorem mem_insertRow {db db' : Sessions} {new : Row} (h : insertRow db new = some db') :
    (∀ r ∈ db.rows, r.token ≠ new.token) ∧ ∀ r', r' ∈ db'.rows ↔ r' ∈ db.rows ∨ r' = new := by
  unfold insertRow at h
  split at h
  case isTrue hnew =>
    obtain rfl := Option.some.inj h
    refine ⟨fun r hr heq => hnew (List.mem_map.mpr ⟨r, hr, heq⟩), fun r' => ?_⟩
    show r' ∈ db.rows ++ [new] ↔ _
    rw [mem_append, mem_singleton]
  case isFalse => cases h

theorem mem_gcRows {now retentionS : ℤ} {limit : ℕ}
    (h : r ∈ (gcRows db now retentionS limit).rows) : r ∈ db.rows := mem_of_mem_filter h

/-! ### What the reads say -/

variable {token : String} {kind : Kind}

theorem sessionRead_ok {row : SessionRow} (h : sessionRead db token kind now = .ok row) :
    ∃ s ∈ db.rows, s.token = token ∧ s.kind = kind ∧ s.revoked = false ∧ s.family.textOk = true ∧
      now < s.expiresAt ∧ row.family = s.family ∧ row.expiresAt = s.expiresAt ∧
      row.lastActivityAt =
        if familyActivity db s.family ≤ 0 then s.createdAt else familyActivity db s.family := by
  unfold sessionRead at h
  cases hfind : db.find token with
  | none => rw [hfind] at h; cases h
  | some s =>
    rw [hfind] at h
    dsimp only at h
    split at h
    case isTrue => cases h
    case isFalse hs =>
      obtain ⟨hmem, htoken⟩ := Table.find_eq_some.mp hfind
      obtain rfl := Except.ok.inj h
      simp only [not_or, ne_eq, Decidable.not_not, Bool.not_eq_true, Bool.not_eq_true',
        Bool.not_eq_false, Int.not_le] at hs
      exact ⟨s, hmem, htoken, hs.1, hs.2.1, hs.2.2.1, hs.2.2.2, rfl, rfl, rfl⟩

theorem sessionRead_error {e : Result}
    (h : sessionRead db token kind now = .error e) : e = .tokenInvalid := by
  unfold sessionRead at h
  split at h
  · exact (Except.error.inj h).symm
  · split at h
    · exact (Except.error.inj h).symm
    · cases h

theorem consumedRefreshRead_some : consumedRefreshRead db token = some f ↔
      ∃ s ∈ db.rows, s.token = token ∧ s.kind = .refresh ∧ s.revoked = true ∧
        s.refreshConsumedAt > 0 ∧ s.family.textOk = true ∧ s.family = f := by
  unfold consumedRefreshRead
  constructor
  · intro h
    cases hfind : db.find token with
    | none => rw [hfind] at h; cases h
    | some s =>
      rw [hfind] at h
      dsimp only at h
      obtain ⟨hmem, htoken⟩ := Table.find_eq_some.mp hfind
      split at h
      case isTrue hs => exact ⟨s, hmem, htoken, hs.1, hs.2.1, hs.2.2.1, hs.2.2.2, Option.some.inj h⟩
      case isFalse => cases h
  · rintro ⟨s, hmem, rfl, hkind, hrev, hconsumed, htext, rfl⟩
    rw [Table.find_eq_some.mpr ⟨hmem, rfl⟩]
    dsimp only
    rw [if_pos ⟨hkind, hrev, hconsumed, htext⟩]

/-- Some unrevoked row has the activity of its family. -/
theorem familyActivity_pos (h : 0 < familyActivity db f) :
    ∃ r ∈ db.rows, r.family = f ∧ r.revoked = false ∧ r.lastActivityAt = familyActivity db f := by
  have hmax : ((familyRows db f).map fun r => if r.revoked then 0 else r.lastActivityAt).max? =
      some (familyActivity db f) := by
    unfold familyActivity at h ⊢
    cases hm : ((familyRows db f).map fun r => if r.revoked then 0 else r.lastActivityAt).max? with
    | none => rw [hm] at h; exact absurd h (Int.lt_irrefl 0)
    | some m => rfl
  obtain ⟨hmem, -⟩ := max?_eq_some_iff.mp hmax
  obtain ⟨r, hr, heq⟩ := List.mem_map.mp hmem
  obtain ⟨hrow, hfam⟩ := mem_filter.mp hr
  cases hrev : r.revoked with
  | true =>
    rw [hrev, if_pos rfl] at heq
    omega
  | false =>
    rw [hrev, if_neg Bool.false_ne_true] at heq
    exact ⟨r, hrow, of_decide_eq_true hfam, hrev, heq⟩

theorem le_familyActivity (h : r ∈ db.rows) (hrev : r.revoked = false) :
    r.lastActivityAt ≤ familyActivity db r.family := by
  have hmem : r.lastActivityAt ∈
      (familyRows db r.family).map fun r => if r.revoked then 0 else r.lastActivityAt := by
    apply List.mem_map.mpr
    refine ⟨r, mem_filter.mpr ⟨h, decide_eq_true rfl⟩, ?_⟩
    rw [hrev, if_neg Bool.false_ne_true]
  unfold familyActivity
  cases hm : ((familyRows db r.family).map fun r =>
      if r.revoked then 0 else r.lastActivityAt).max? with
  | none =>
    rw [max?_eq_none_iff] at hm
    rw [hm] at hmem
    cases hmem
  | some m => exact (max?_eq_some_iff.mp hm).2 _ hmem

end DreamingOS.WebSession
