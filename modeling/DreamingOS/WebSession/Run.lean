import DreamingOS.WebSession.Safety

namespace DreamingOS.WebSession

open List

/-!
# Web sessions — single use and revocation, over every run

* `Accepted`, `StepSafe` — what the next step of a system must keep to;
* `sessions_run` — in every run under the condition;
* `lost_race` — a rotation that loses the race leaves the family alive.
-/

variable {users : Users} {σ : Sys}

/-! ### What a step keeps to -/

def Op.kind : Op → Kind
  | .accessCheck _ => .access
  | .refreshIssue _ _ => .refresh
  | .refreshRotate _ _ _ => .refresh

def Op.isRotate : Op → Bool
  | .refreshRotate _ _ _ => true
  | _ => false

/-- The token may be accepted: it is neither revoked nor expired, and its family has been active
    within the timeout of the user. -/
def Accepted (users : Users) (db : Sessions) (c : Call) : Prop :=
  ∃ r ∈ db.rows, r.token = c.token ∧ r.kind = c.op.kind ∧ r.revoked = false ∧
    c.now < r.expiresAt ∧ ∃ n : ℕ, users r.family.username = some n ∧
      ∃ s ∈ db.rows, s.family = r.family ∧ s.revoked = false ∧ c.now < s.lastActivityAt + n * 60

/-- A step of the system: errors leave the table as it was; what succeeds was acceptable; and a
    rotation that returns for a token rotated before, of a living family, has revoked the family. -/
structure StepSafe (users : Users) (σ : Sys) (a : Action) : Prop where
  frame : (sysStep users σ a).2 ≠ some .ok → (sysStep users σ a).2 ≠ some .timeout →
    (sysStep users σ a).2 ≠ some .reused → (sysStep users σ a).1.db = σ.db
  accepted : ∀ i fails c ph, a = .advance i fails → σ.callAt i = some (c, ph) →
    (sysStep users σ a).2 = some .ok → Accepted users σ.db c
  reuse : ∀ i c ph f r, a = .advance i false → σ.callAt i = some (c, ph) →
    c.op.isRotate = true → (c.token, f) ∈ σ.rotated → ¬ Dead σ.db f →
    (sysStep users σ a).2 = some r → r = .reused ∧ Dead (sysStep users σ a).1.db f

theorem advanced_db (σ : Sys) (i : ℕ) (c : Call) (out : Outcome) :
    (σ.advanced i c out).db = out.1 := by
  unfold Sys.advanced
  split <;> rfl

variable {ph : Phase} {c : Call}
variable {i : ℕ} {fails : Bool}

theorem sysStep_advance (h : σ.callAt i = some (c, ph)) :
    sysStep users σ (.advance i fails) = (σ.advanced i c (callStep users σ.db c ph fails),
        (callStep users σ.db c ph fails).2.getRight?) := by
  simp only [sysStep, Sys.callAt_eq_some.mp h]

theorem sysStep_none (h : σ.callAt i = none) : sysStep users σ (.advance i fails) = (σ, none) := by
  simp only [sysStep]
  split
  · next c ph hcall =>
    rw [Sys.callAt_eq_some.mpr hcall] at h
    cases h
  · rfl

theorem Sys.callAt_mem (h : σ.callAt i = some (c, ph)) :
    (c, some ph) ∈ σ.calls := mem_of_getElem? (Sys.callAt_eq_some.mp h)

/-- The timeout is not over, for an activity that has a time. -/
theorem lt_of_idleIsExpired {now last : ℤ} {n : ℕ} (hlast : 0 < last)
    (h : idleIsExpired now last n = false) : now < last + n * 60 := by
  unfold idleIsExpired idleDeadline at h
  split at h
  · omega
  · rw [decide_eq_false_iff_not] at h
    split at h <;> omega

/-- A token that a call admits may be accepted. -/
theorem accepted_of_admits {row : SessionRow} (h : Inv users σ)
    (hc : CallInv users σ c ph) (hrow : Admits users σ.db c ph c.op.kind row) :
    Accepted users σ.db c := by
  obtain ⟨s, hs, htoken, hkind, hlive, -, hexp, hfam, -, hlast⟩ := sessionRead_ok hrow.read
  have hact : 0 < familyActivity σ.db s.family :=
    Int.lt_of_lt_of_le (h.db.live s hs hlive).2.2 (le_familyActivity hs hlive)
  rw [if_neg (Int.not_le.mpr hact)] at hlast
  have htimeout : ∃ n : ℕ, users s.family.username = some n ∧
      idleIsExpired c.now row.lastActivityAt n = false := by
    obtain ⟨t, ht | ⟨n, hn, rfl⟩, hidle⟩ := hrow.fresh
    · obtain ⟨n, hn, rfl⟩ := (hc.timeout t ht).2 s hs htoken hlive
      exact ⟨n, hn, hidle⟩
    · exact ⟨n, hfam ▸ hn, hidle⟩
  obtain ⟨n, hn, hidle⟩ := htimeout
  obtain ⟨r, hr, hrf, hrl, hra⟩ := familyActivity_pos hact
  refine ⟨s, hs, htoken, hkind, hlive, hexp, n, hn, r, hr, hrf, hrl, ?_⟩
  rw [hra, ← hlast]
  exact lt_of_idleIsExpired (hlast ▸ hact) hidle

variable {out : Outcome}

theorem move_accepted (h : Inv users σ)
    (hc : CallInv users σ c ph) (hmove : Move users σ.db c ph out) (hok : out.2 = .inr .ok) :
    Accepted users σ.db c := by
  cases hmove with
  | goes _ _ => cases hok
  | refused r hr => exact absurd (Sum.inr.inj hok) hr.1
  | timedOut _ => cases hok
  | reused _ => cases hok
  | checked _ row hop hrow => exact accepted_of_admits h hc (by rw [hop]; exact hrow)
  | touched _ row hop hrow => exact accepted_of_admits h hc (by rw [hop]; exact hrow)
  | issued _ _ _ row _ _ hop hrow _ => exact accepted_of_admits h hc (by rw [hop]; exact hrow)
  | rotated _ _ _ _ row _ _ hop hrow _ => exact accepted_of_admits h hc (by rw [hop]; exact hrow)

variable {db : Sessions}

theorem move_frame
    (hmove : Move users db c ph out) (hok : out.2 ≠ .inr .ok) (htimeout : out.2 ≠ .inr .timeout)
    (hreused : out.2 ≠ .inr .reused) : out.1 = db := by
  cases hmove with
  | goes _ _ => rfl
  | refused _ _ => rfl
  | timedOut _ => exact absurd rfl htimeout
  | reused _ => exact absurd rfl hreused
  | checked _ _ _ _ => rfl
  | touched _ _ _ _ => exact absurd rfl hok
  | issued _ _ _ _ _ _ _ _ _ => exact absurd rfl hok
  | rotated _ _ _ _ _ _ _ _ _ _ => exact absurd rfl hok

variable {f : Family}

/-- A rotation that returns for a token rotated before, of a living family. -/
theorem reuse_advance {r : Result}
    (h : Inv users σ) (hs : PhaseSound σ c ph) (hget : σ.callAt i = some (c, ph))
    (hop : c.op.isRotate = true) (hrotated : (c.token, f) ∈ σ.rotated) (halive : ¬ Dead σ.db f)
    (hout : (callStep users σ.db c ph false).2 = .inr r) :
    r = .reused ∧ (callStep users σ.db c ph false).1 = revokeFamily σ.db f := by
  have hc := h.calls c ph (Sys.callAt_mem hget)
  obtain ⟨-, hf, hrows⟩ := h.db.rotation _ _ hrotated
  obtain ⟨newAccess, newRefresh, expiresAt, hop'⟩ : ∃ newAccess newRefresh expiresAt,
      c.op = .refreshRotate newAccess newRefresh expiresAt := by
    cases hop' : c.op with
    | refreshRotate a b e => exact ⟨a, b, e, rfl⟩
    | accessCheck _ => rw [hop'] at hop; cases hop
    | refreshIssue _ _ => rw [hop'] at hop; cases hop
  apply rotate_reused hop' hc.fits hrows (h.db.textOk f hf) _ _ _ (Prod.ext rfl hout)
  · rintro t rfl
    exact halive (hs.2 _ hrotated rfl)
  · rintro rfl
    exact hs _ hrotated rfl halive
  · intro f' hf'
    -- a token is rotated once, so it has one family
    have hsame := inj_on_of_nodup_map h.db.once (hc.revoke f' hf') hrotated rfl
    exact (Prod.mk.inj hsame).2

variable {a : Action}

/-- **One step under the condition is safe.** -/
theorem stepSafe (h : Inv users σ) (hs : Sound σ a) : StepSafe users σ a where
  frame := by
    intro hok htimeout hreused
    cases a with
    | login a fails =>
      obtain ⟨-, -, hin⟩ | ⟨hdb, hfail⟩ := loginInsert_cases σ.db a fails
      · simp only [sysStep, if_pos hin] at hok
        exact absurd rfl hok
      · have hno : (loginInsert σ.db a fails).2 ≠ .ok := by
          obtain hfail | hfail := hfail <;> rw [hfail] <;> rintro ⟨⟩
        simp only [sysStep, if_neg hno]
        exact hdb
    | gc now retentionS limit fails =>
      simp only [sysStep, sessionGc] at hok ⊢
      split
      · rfl
      split
      · rfl
      rename_i hargs hfails
      rw [if_neg hargs, if_neg hfails] at hok
      exact absurd rfl hok
    | begin c =>
      simp only [sysStep]
      split <;> rfl
    | advance i fails =>
      cases hget : σ.callAt i with
      | none =>
        rw [sysStep_none hget]
      | some x =>
        obtain ⟨c, ph⟩ := x
        have hc := h.calls c ph (Sys.callAt_mem hget)
        rw [sysStep_advance hget] at hok htimeout hreused ⊢
        rw [advanced_db]
        apply move_frame (callStep_move hc.fits fails)
        · exact fun heq => hok (by rw [heq]; rfl)
        · exact fun heq => htimeout (by rw [heq]; rfl)
        · exact fun heq => hreused (by rw [heq]; rfl)
  accepted := by
    rintro i fails c ph rfl hget hok
    have hc := h.calls c ph (Sys.callAt_mem hget)
    rw [sysStep_advance hget] at hok
    exact move_accepted h hc (callStep_move hc.fits fails) (Sum.getRight?_eq_some_iff.mp hok)
  reuse := by
    rintro i c ph f r rfl hget hop hrotated halive hout
    rw [sysStep_advance hget] at hout ⊢
    obtain ⟨hr, hdb⟩ := reuse_advance h (hs (c, ph) hget) hget hop hrotated halive
      (Sum.getRight?_eq_some_iff.mp hout)
    refine ⟨hr, ?_⟩
    rw [advanced_db, hdb]
    exact dead_revokeFamily σ.db f

/-! ### Revoked families -/

/-- A dead family stays dead over a step of a call: rows are added to living families only. -/
theorem dead_move (hmove : Move users σ.db c ph out) (hdead : Dead σ.db f) : Dead out.1 f := by
  have notDead : ∀ {row : SessionRow} {kind : Kind}, Admits users σ.db c ph kind row →
      row.family ≠ f := by
    intro row kind hrow hf
    obtain ⟨s, hs, -, -, hlive, -, -, hfam, -⟩ := sessionRead_ok hrow.read
    rw [hdead s hs (hfam.symm.trans hf)] at hlive
    cases hlive
  have added : ∀ {db' db'' : Sessions} {rows : List Row}, Dead db' f →
      insertRows σ.db db' rows = (db'', .ok) → (∀ r ∈ rows, r.family ≠ f) → Dead db'' f := by
    intro db' db'' rows hd hins hrows r hr hrf
    obtain hr | hr := ((mem_insertRows hins).2 r).mp hr
    · exact hd r hr hrf
    · exact absurd hrf (hrows r hr)
  have notNew : ∀ r ∈ ([] : List Row), r.family ≠ f := nofun
  cases hmove with
  | goes _ _ => exact hdead
  | refused _ _ => exact hdead
  | timedOut g => exact hdead.evolve (evolves_revokeFamily σ.db g) notNew
  | reused g => exact hdead.evolve (evolves_revokeFamily σ.db g) notNew
  | checked _ _ _ _ => exact hdead
  | touched _ row _ _ => exact hdead.evolve (evolves_touchFamily σ.db row.family c.now) notNew
  | issued _ _ _ row _ _ _ hrow hins =>
    apply added (hdead.evolve (evolves_touchFamily σ.db row.family c.now) notNew) hins
    intro r hr
    rw [mem_singleton] at hr
    rw [hr]
    exact notDead hrow
  | rotated _ newRefresh _ _ row _ _ _ hrow hins =>
    refine added ?_ hins ?_
    · intro r'' hr'' hf
      obtain ⟨r', hr', hleft', -, hrev'⟩ := mem_touchFamily hr''
      obtain ⟨r, hr, hleft, -⟩ := mem_consumeRefresh hr'
      have hdeadr := hdead r hr (hleft.family ▸ hleft'.family ▸ hf)
      rw [hrev', hleft.revoked hdeadr]
      exact hdeadr
    · intro r hr
      simp only [mem_cons, not_mem_nil, or_false] at hr
      obtain rfl | rfl := hr <;> exact notDead hrow

theorem families_step (users : Users) (σ : Sys) (a : Action) :
    ∀ f ∈ σ.families, f ∈ (sysStep users σ a).1.families := by
  intro f hf
  cases a with
  | login a fails =>
    simp only [sysStep]
    split
    · exact mem_cons_of_mem _ hf
    · exact hf
  | gc _ _ _ _ => exact hf
  | begin c =>
    simp only [sysStep]
    split <;> exact hf
  | advance i fails =>
    simp only [sysStep]
    split
    · unfold Sys.advanced
      split <;> exact hf
    · exact hf

theorem dead_step (h : Inv users σ) (hs : Sound σ a)
    (hf : f ∈ σ.families) (hdead : Dead σ.db f) : Dead (sysStep users σ a).1.db f := by
  cases a with
  | login a fails =>
    simp only [sysStep]
    obtain ⟨-, hins, hok⟩ | ⟨hdb, hfail⟩ := loginInsert_cases σ.db a fails
    · rw [if_pos hok]
      intro r hr hrf
      obtain hr | hr := ((mem_insertRows hins).2 r).mp hr
      · exact hdead r hr hrf
      · -- the family of a login is new
        have hra : r.family = a.family := by
          simp only [Login.rows, mem_cons, not_mem_nil, or_false] at hr
          obtain rfl | rfl := hr <;> rfl
        exact absurd (hra ▸ hrf ▸ hf) hs.2.2.2
    · rw [if_neg (by obtain hfail | hfail := hfail <;> rw [hfail] <;> rintro ⟨⟩), hdb]
      exact hdead
  | gc now retentionS limit fails =>
    simp only [sysStep, sessionGc]
    split
    · exact hdead
    split
    · exact hdead
    · exact fun r hr => hdead r (mem_gcRows hr)
  | begin c =>
    simp only [sysStep]
    split <;> exact hdead
  | advance i fails =>
    cases hget : σ.callAt i with
    | none =>
      rw [sysStep_none hget]
      exact hdead
    | some x =>
      obtain ⟨c, ph⟩ := x
      have hc := h.calls c ph (Sys.callAt_mem hget)
      rw [sysStep_advance hget, advanced_db]
      exact dead_move (callStep_move hc.fits fails) hdead

/-! ### Runs -/

variable {as : List Action}

theorem inv_run (h : Inv users σ) (hs : SoundRun users σ as) : Inv users (sysRun users σ as) := by
  induction as generalizing σ with
  | nil => exact h
  | cons a as ih => exact ih (inv_step h hs.1) hs.2

theorem dead_run (h : Inv users σ) (hs : SoundRun users σ as)
    (hf : f ∈ σ.families) (hdead : Dead σ.db f) : Dead (sysRun users σ as).db f := by
  induction as generalizing σ with
  | nil => exact hdead
  | cons a as ih =>
    exact ih (inv_step h hs.1) hs.2 (families_step users σ a f hf) (dead_step h hs.1 hf hdead)

/-- The rows a migration leaves: revoked, and never consumed. -/
def Legacy (db : Sessions) : Prop := ∀ r ∈ db.rows, r.revoked = true ∧ r.refreshConsumedAt ≤ 0

theorem inv_start (h : Legacy db) : Inv users (Sys.start db) where
  db :=
    { oneRefresh := by
        intro r hr _ _ _ _ hlive
        rw [(h r hr).1] at hlive
        cases hlive
      live := by
        intro r hr hlive
        rw [(h r hr).1] at hlive
        cases hlive
      consumed := fun r hr hpos => absurd hpos (Int.not_lt.mpr (h r hr).2)
      textOk := nofun
      rotation := nofun
      once := nodup_nil }
  calls := nofun

/-- **Single use and revocation, over every run**: under the condition at most one unrevoked refresh
    token per family, no token rotated twice, every next step safe, and no way back for a family
    whose tokens are all revoked. -/
theorem sessions_run (users : Users) (db : Sessions) (hdb : Legacy db) (as : List Action)
    (h : SoundRun users (Sys.start db) as) :
    OneRefresh (sysRun users (Sys.start db) as).db ∧
      ((sysRun users (Sys.start db) as).rotated.map Prod.fst).Nodup ∧
      (∀ a, Sound (sysRun users (Sys.start db) as) a →
        StepSafe users (sysRun users (Sys.start db) as) a) ∧
      ∀ f ∈ (sysRun users (Sys.start db) as).families, Dead (sysRun users (Sys.start db) as).db f →
        ∀ as', SoundRun users (sysRun users (Sys.start db) as) as' →
          Dead (sysRun users (sysRun users (Sys.start db) as) as').db f := by
  have hinv := inv_run (inv_start hdb) h
  refine ⟨hinv.db.oneRefresh, hinv.db.once, fun a ha => stepSafe hinv ha, ?_⟩
  intro f hf hdead as' has'
  exact dead_run hinv has' hf hdead

/-! ### A lost race -/

def oneUser : Users := fun username => if username = "admin" then some 30 else none

def aLogin : Login where
  accessToken := "a0"
  accessExpiresAt := 2000
  refreshToken := "r0"
  refreshExpiresAt := 90000
  family := ⟨"admin", "s0"⟩
  now := 1000

def aRotation (newAccess newRefresh : String) : Call where
  op := .refreshRotate newAccess newRefresh 2100
  token := "r0"
  now := 1001

/-- Two rotations of one token that both pass the first read. -/
def racing : List Action :=
  [.login aLogin false, .begin (aRotation "a1" "r1"), .begin (aRotation "a2" "r2"),
    .advance 0 false, .advance 1 false, .advance 0 false]

/-- **The second of two racing rotations** presents a token that has been consumed, while the family
    lives; it returns `tokenInvalid`, and the family still lives. -/
theorem lost_race :
    let σ := sysRun oneUser (Sys.start Table.empty) racing
    σ.callAt 1 = some (aRotation "a2" "r2", .rotate 30) ∧ ("r0", aLogin.family) ∈ σ.rotated ∧
      ¬ Dead σ.db aLogin.family ∧ (sysStep oneUser σ (.advance 1 false)).2 = some .tokenInvalid ∧
      ¬ Dead (sysStep oneUser σ (.advance 1 false)).1.db aLogin.family := by
  decide +kernel

/-- A login and one rotation. -/
theorem sessions_run_rotation :
    let σ := sysRun oneUser (Sys.start Table.empty)
      [.login aLogin false, .begin (aRotation "a1" "r1"), .advance 0 false, .advance 0 false]
    σ.rotated = [("r0", aLogin.family)] ∧ OneRefresh σ.db := by
  refine ⟨by decide +kernel, ?_⟩
  exact (sessions_run oneUser Table.empty nofun _ (by decide +kernel)).1

end DreamingOS.WebSession
