import DreamingOS.WebSession.Calls

namespace DreamingOS.WebSession

open Option

/-!
# Web sessions — what a step of a call can do

* `Comes` — a call that goes on: the timeout it has read, or the family it is about to revoke;
* `Admits` — a token that is read as valid, of a family that is not idle;
* `Move`, `callStep_move` — the outcomes of a step;
* `rotate_reused` — a rotation that presents a consumed token.
-/

/-- The timeout that a call has read before its transaction. -/
def Phase.timeout : Phase → Option ℤ
  | .recheck t => some t
  | .touch t => some t
  | .issue t => some t
  | .rotate t => some t
  | _ => none

/-- The phases that a call of each kind comes to. -/
def Phase.fits : Op → Phase → Bool
  | _, .read => true
  | .accessCheck _, .recheckRead => true
  | .accessCheck _, .recheck _ => true
  | .accessCheck _, .touchRead => true
  | .accessCheck _, .touch _ => true
  | .refreshIssue _ _, .issue _ => true
  | .refreshRotate _ _ _, .rotate _ => true
  | .refreshRotate _ _ _, .consumedRead => true
  | .refreshRotate _ _ _, .revoke _ => true
  | _, _ => false

/-- What a call knows when it goes on. -/
structure Comes (users : Users) (db : Sessions) (c : Call) (ph' : Phase) : Prop where
  fits : ph'.fits c.op = true
  timeout : ∀ t, ph'.timeout = some t → ∃ s ∈ db.rows, s.token = c.token ∧ s.revoked = false ∧
    ∃ n : ℕ, users s.family.username = some n ∧ t = n
  revoke : ∀ f, ph' = .revoke f → consumedRefreshRead db c.token = some f

/-- The token is read as valid, and the timeout, from before or read now, is not over. -/
structure Admits (users : Users) (db : Sessions) (c : Call) (ph : Phase) (kind : Kind)
    (row : SessionRow) : Prop where
  read : sessionRead db c.token kind c.now = .ok row
  fresh : ∃ t, (ph.timeout = some t ∨ ∃ n : ℕ, users row.family.username = some n ∧ t = n) ∧
    idleIsExpired c.now row.lastActivityAt t = false

/-- The outcomes of a step of a call. -/
inductive Move (users : Users) (db : Sessions) (c : Call) (ph : Phase) : Outcome → Prop
  | goes (ph' : Phase) (h : Comes users db c ph') : Move users db c ph (db, .inl ph')
  | refused (r : Result) (h : r ≠ .ok ∧ r ≠ .timeout ∧ r ≠ .reused) :
      Move users db c ph (db, .inr r)
  | timedOut (f : Family) : Move users db c ph (revokeFamily db f, .inr .timeout)
  | reused (f : Family) : Move users db c ph (revokeFamily db f, .inr .reused)
  | checked (recordActivity : Bool) (row : SessionRow) (hop : c.op = .accessCheck recordActivity)
      (h : Admits users db c ph .access row) : Move users db c ph (db, .inr .ok)
  | touched (recordActivity : Bool) (row : SessionRow) (hop : c.op = .accessCheck recordActivity)
      (h : Admits users db c ph .access row) :
      Move users db c ph (touchFamily db row.family c.now, .inr .ok)
  | issued (newAccess : String) (accessExpiresAt t : ℤ) (row : SessionRow) (db' : Sessions)
      (hph : ph = .issue t) (hop : c.op = .refreshIssue newAccess accessExpiresAt)
      (h : Admits users db c ph .refresh row)
      (hins : insertRows db (touchFamily db row.family c.now)
        [newRow newAccess row.family .access c.now accessExpiresAt] = (db', .ok)) :
      Move users db c ph (db', .inr .ok)
  | rotated (newAccess newRefresh : String) (accessExpiresAt t : ℤ) (row : SessionRow)
      (db' : Sessions) (hph : ph = .rotate t)
      (hop : c.op = .refreshRotate newAccess newRefresh accessExpiresAt)
      (h : Admits users db c ph .refresh row)
      (hins : insertRows db
        (touchFamily (consumeRefresh db c.token newRefresh c.now) row.family c.now)
        [newRow newAccess row.family .access c.now accessExpiresAt,
          newRow newRefresh row.family .refresh c.now row.expiresAt] = (db', .ok)) :
      Move users db c ph (db', .inr .ok)

variable {users : Users} {db : Sessions} {c : Call} {ph : Phase}

/-! ### The parts of a step -/

/-- Insertions succeed, or they leave nothing. -/
theorem insertRows_cases (db db' : Sessions) (rows : List Row) :
    (insertRows db db' rows).2 = .ok ∨ insertRows db db' rows = (db, .dbError) := by
  induction rows generalizing db' with
  | nil => exact .inl rfl
  | cons r rows ih =>
    unfold insertRows
    split
    · exact .inr rfl
    · exact ih _

variable {kind : Kind}

theorem Comes.read {row : SessionRow} {n : ℕ} {ph' : Phase}
    (hread : sessionRead db c.token kind c.now = .ok row)
    (husers : users row.family.username = some n) (hfits : ph'.fits c.op = true)
    (htimeout : ∀ t, ph'.timeout = some t → t = n) (hrevoke : ∀ f, ph' ≠ .revoke f) :
    Comes users db c ph' := by
  obtain ⟨s, hs, htoken, -, hlive, -, -, hfam, -, -⟩ := sessionRead_ok hread
  refine ⟨hfits, ?_, fun f hf => absurd hf (hrevoke f)⟩
  intro t ht
  exact ⟨s, hs, htoken, hlive, n, hfam ▸ husers, htimeout t ht⟩

/-- A read with its timeout, when the move is known for every row that can be read. -/
theorem move_readTimeout {next : SessionRow → ℕ → Phase ⊕ Result}
    (h : ∀ row n, sessionRead db c.token kind c.now = .ok row →
      users row.family.username = some n → Move users db c ph (db, next row n)) :
    Move users db c ph (db, readTimeout users db c kind next) := by
  unfold readTimeout
  split
  case h_1 e he =>
    obtain rfl := sessionRead_error he
    exact Move.refused _ ⟨nofun, nofun, nofun⟩
  case h_2 row hread =>
    split
    case h_1 => exact Move.refused _ ⟨nofun, nofun, nofun⟩
    case h_2 n hn => exact h row n hread hn

variable {t : ℤ}

/-- A transaction, when the move is known for a row that is not idle. -/
theorem move_transact {live : SessionRow → Sessions × Result} (ht : ph.timeout = some t)
    (h : ∀ row, Admits users db c ph kind row →
      Move users db c ph ((live row).1, .inr (live row).2)) :
    Move users db c ph ((transact db c kind t live).1, .inr (transact db c kind t live).2) := by
  unfold transact
  split
  case h_1 e he =>
    obtain rfl := sessionRead_error he
    exact Move.refused _ ⟨nofun, nofun, nofun⟩
  case h_2 row hread =>
    split
    case isTrue => exact Move.timedOut _
    case isFalse hidle =>
      exact h row ⟨hread, t, .inl ht, Bool.eq_false_iff.mpr hidle⟩

variable {db' : Sessions}

theorem move_insertRows {rows : List Row}
    (h : ∀ db'', insertRows db db' rows = (db'', .ok) → Move users db c ph (db'', .inr .ok)) :
    Move users db c ph ((insertRows db db' rows).1, .inr (insertRows db db' rows).2) := by
  obtain hok | hfail := insertRows_cases db db' rows
  · rw [hok]
    exact h _ (Prod.ext rfl hok)
  · rw [hfail]
    exact Move.refused _ ⟨nofun, nofun, nofun⟩

variable {accessExpiresAt : ℤ} {newAccess : String}

/-- The transaction of an issue revokes the family of a token consumed meanwhile. -/
theorem move_issue (hop : c.op = .refreshIssue newAccess accessExpiresAt) (hph : ph = .issue t) :
    Move users db c ph ((issueTransaction db c newAccess accessExpiresAt t).1,
      .inr (issueTransaction db c newAccess accessExpiresAt t).2) := by
  unfold issueTransaction
  split
  · exact Move.reused _
  apply move_transact (by rw [hph]; rfl)
  intro row hrow
  exact move_insertRows fun db' hins =>
    Move.issued newAccess accessExpiresAt t row db' hph hop hrow hins

theorem move_read (hph : ph = .read) : Move users db c ph (callStep users db c ph false) := by
  subst hph
  cases hop : c.op with
  | accessCheck recordActivity =>
    simp only [callStep, hop, Bool.false_eq_true, if_false]
    apply move_readTimeout
    intro row n hread hn
    split
    · refine Move.goes _ (Comes.read hread hn ?_ nofun nofun)
      rw [hop]
      rfl
    rename_i hidle
    split
    · refine Move.goes _ (Comes.read hread hn ?_ nofun nofun)
      rw [hop]
      rfl
    · exact Move.checked recordActivity row hop
        ⟨hread, n, .inr ⟨n, hn, rfl⟩, Bool.eq_false_iff.mpr hidle⟩
  | refreshIssue newAccess accessExpiresAt =>
    simp only [callStep, hop, Bool.false_eq_true, if_false]
    apply move_readTimeout
    intro row n hread hn
    refine Move.goes _ (Comes.read hread hn ?_ (fun t ht => (some.inj ht).symm) nofun)
    rw [hop]
    rfl
  | refreshRotate newAccess newRefresh accessExpiresAt =>
    simp only [callStep, hop, Bool.false_eq_true, if_false, rotateRead]
    split
    · refine Move.goes _ ⟨?_, nofun, nofun⟩
      rw [hop]
      rfl
    apply move_readTimeout
    intro row n hread hn
    refine Move.goes _ (Comes.read hread hn ?_ (fun t ht => (some.inj ht).symm) nofun)
    rw [hop]
    rfl

/-- **What a step can do**: every outcome is one of the moves. -/
theorem callStep_move (hfits : ph.fits c.op = true) (fails : Bool) :
    Move users db c ph (callStep users db c ph fails) := by
  cases fails with
  | true => exact Move.refused _ ⟨nofun, nofun, nofun⟩
  | false =>
    cases hph : ph with
    | read => exact move_read rfl
    | recheckRead =>
      apply move_readTimeout
      intro row n hread hn
      refine Move.goes _ (Comes.read hread hn ?_ (fun t ht => (some.inj ht).symm) nofun)
      cases hop : c.op <;> rw [hph, hop] at hfits <;> first | rfl | cases hfits
    | touchRead =>
      apply move_readTimeout
      intro row n hread hn
      refine Move.goes _ (Comes.read hread hn ?_ (fun t ht => (some.inj ht).symm) nofun)
      cases hop : c.op <;> rw [hph, hop] at hfits <;> first | rfl | cases hfits
    | recheck t =>
      cases hop : c.op with
      | accessCheck recordActivity =>
        exact move_transact rfl fun row hrow => Move.checked recordActivity row hop hrow
      | _ => rw [hph, hop] at hfits; cases hfits
    | touch t =>
      cases hop : c.op with
      | accessCheck recordActivity =>
        apply move_transact rfl
        intro row hrow
        split
        · exact Move.touched recordActivity row hop hrow
        · exact Move.checked recordActivity row hop hrow
      | _ => rw [hph, hop] at hfits; cases hfits
    | issue t =>
      cases hop : c.op with
      | refreshIssue newAccess accessExpiresAt =>
        simp only [callStep, hop, Bool.false_eq_true, if_false]
        exact move_issue hop rfl
      | _ => rw [hph, hop] at hfits; cases hfits
    | consumedRead =>
      simp only [callStep, Bool.false_eq_true, if_false]
      cases hread : consumedRefreshRead db c.token with
      | none => exact Move.refused _ ⟨nofun, nofun, nofun⟩
      | some f =>
        refine Move.goes _ ⟨?_, nofun, ?_⟩
        · cases hop : c.op <;> rw [hph, hop] at hfits <;> first | rfl | cases hfits
        · intro f' hf'
          cases hf'
          exact hread
    | revoke f => exact Move.reused f
    | rotate t =>
      cases hop : c.op with
      | refreshRotate newAccess newRefresh accessExpiresAt =>
        simp only [callStep, hop, Bool.false_eq_true, if_false, rotateTransaction]
        apply move_transact rfl
        intro row hrow
        exact move_insertRows fun db' hins =>
          Move.rotated newAccess newRefresh accessExpiresAt t row db' rfl hop hrow hins
      | _ => rw [hph, hop] at hfits; cases hfits

/-! ### A rotation with a consumed token -/

/-- A token whose rows are all revoked is not read as valid. -/
theorem sessionRead_revoked {token : String} {now : ℤ}
    (h : ∀ r ∈ db.rows, r.token = token → r.revoked = true) :
    sessionRead db token kind now = .error .tokenInvalid := by
  cases hread : sessionRead db token kind now with
  | error e => rw [sessionRead_error hread]
  | ok row =>
    obtain ⟨s, hs, htoken, -, hlive, -⟩ := sessionRead_ok hread
    rw [h s hs htoken] at hlive
    cases hlive

/-- A rotation that returns for a consumed token has revoked its family, unless the token was
    consumed after the first read, or its row has been deleted. -/
theorem rotate_reused {newRefresh : String} {f : Family} {r : Result}
    (hop : c.op = .refreshRotate newAccess newRefresh accessExpiresAt)
    (hfits : ph.fits c.op = true)
    (hrows : ∀ s ∈ db.rows, s.token = c.token →
      s.kind = .refresh ∧ s.revoked = true ∧ 0 < s.refreshConsumedAt ∧ s.family = f)
    (htext : f.textOk = true) (hrotate : ∀ t, ph ≠ .rotate t)
    (hkept : ph = .consumedRead → ∃ s ∈ db.rows, s.token = c.token)
    (hrevoke : ∀ f', ph = .revoke f' → f' = f)
    (h : callStep users db c ph false = (db', .inr r)) :
    r = .reused ∧ db' = revokeFamily db f := by
  rw [hop] at hfits
  cases ph with
  | read =>
    have hread : sessionRead db c.token .refresh c.now = .error .tokenInvalid :=
      sessionRead_revoked fun s hs htoken => (hrows s hs htoken).2.1
    simp only [callStep, hop, Bool.false_eq_true, if_false, rotateRead, readTimeout, hread] at h
    cases h
  | consumedRead =>
    obtain ⟨s, hs, htoken⟩ := hkept rfl
    obtain ⟨hkind, hrev, hconsumed, hfam⟩ := hrows s hs htoken
    have hread : consumedRefreshRead db c.token = some f := consumedRefreshRead_some.mpr
      ⟨s, hs, htoken, hkind, hrev, hconsumed, hfam ▸ htext, hfam⟩
    simp only [callStep, Bool.false_eq_true, if_false, hread] at h
    cases h
  | revoke f' =>
    obtain rfl := hrevoke f' rfl
    obtain ⟨rfl, h2⟩ := Prod.mk.inj h
    exact ⟨(Sum.inr.inj h2).symm, rfl⟩
  | rotate t => exact absurd rfl (hrotate t)
  | recheckRead => cases hfits
  | recheck t => cases hfits
  | touchRead => cases hfits
  | touch t => cases hfits
  | issue t => cases hfits

end DreamingOS.WebSession
