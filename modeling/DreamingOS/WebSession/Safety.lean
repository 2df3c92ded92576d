import DreamingOS.WebSession.Moves

namespace DreamingOS.WebSession

open List

/-!
# Web sessions — what holds in every run

* `DbInv`, `CallInv`, `Inv` — the table against the tokens issued and rotated, and what the calls
  under way have read;
* `Evolves` — what any write leaves of the rows; `DbInv.evolve` carries the invariant over it.
-/

/-! ### The invariant -/

/-- At most one unrevoked refresh token per family. -/
def OneRefresh (db : Sessions) : Prop :=
  ∀ r ∈ db.rows, ∀ s ∈ db.rows, r.kind = .refresh → s.kind = .refresh →
    r.revoked = false → s.revoked = false → r.family = s.family → r.token = s.token

/-- A family without an unrevoked token. -/
def Dead (db : Sessions) (f : Family) : Prop := ∀ r ∈ db.rows, r.family = f → r.revoked = true

instance (db : Sessions) (f : Family) : Decidable (Dead db f) :=
  inferInstanceAs (Decidable (∀ r ∈ db.rows, r.family = f → r.revoked = true))

/-- The table against the tokens and families there have been, and the tokens rotated. -/
structure DbInv (db : Sessions) (issued : List String) (families : List Family)
    (rotated : List (String × Family)) : Prop where
  oneRefresh : OneRefresh db
  live : ∀ r ∈ db.rows, r.revoked = false →
    r.token ∈ issued ∧ r.family ∈ families ∧ 0 < r.lastActivityAt
  consumed : ∀ r ∈ db.rows, 0 < r.refreshConsumedAt → (r.token, r.family) ∈ rotated
  textOk : ∀ f ∈ families, f.textOk = true
  rotation : ∀ t f, (t, f) ∈ rotated → t ∈ issued ∧ f ∈ families ∧ ∀ r ∈ db.rows, r.token = t →
      r.kind = .refresh ∧ r.revoked = true ∧ 0 < r.refreshConsumedAt ∧ r.family = f
  once : (rotated.map Prod.fst).Nodup

/-- What a call under way has read still holds. -/
structure CallInv (users : Users) (σ : Sys) (c : Call) (ph : Phase) : Prop where
  clock : 0 < c.now
  fits : ph.fits c.op = true
  timeout : ∀ t, ph.timeout = some t → c.token ∈ σ.issued ∧
    ∀ r ∈ σ.db.rows, r.token = c.token → r.revoked = false →
      ∃ n : ℕ, users r.family.username = some n ∧ t = n
  revoke : ∀ f, ph = .revoke f → (c.token, f) ∈ σ.rotated

structure Inv (users : Users) (σ : Sys) : Prop where
  db : DbInv σ.db σ.issued σ.families σ.rotated
  calls : ∀ c ph, (c, some ph) ∈ σ.calls → CallInv users σ c ph

/-! ### Writes -/

/-- What a write leaves of the rows: `used` are the refresh tokens it consumes, `new` the rows it
    adds. -/
structure Evolves (db db' : Sessions) (used : List (String × Family)) (new : List Row) : Prop where
  rows : ∀ r' ∈ db'.rows, r' ∈ new ∨ ∃ r ∈ db.rows, r'.LeftOf r ∧
    (r'.refreshConsumedAt = r.refreshConsumedAt ∨ (r'.token, r'.family) ∈ used)
  used : ∀ t f, (t, f) ∈ used → ∀ r' ∈ db'.rows, r'.token = t →
    r'.kind = .refresh ∧ r'.revoked = true ∧ 0 < r'.refreshConsumedAt ∧ r'.family = f

theorem Evolves.refl (db : Sessions) : Evolves db db [] [] :=
  ⟨fun r' h => .inr ⟨r', h, Row.LeftOf.refl r', .inl rfl⟩, nofun⟩

theorem evolves_gcRows (db : Sessions) (now retentionS : ℤ) (limit : ℕ) :
    Evolves db (gcRows db now retentionS limit) [] [] :=
  ⟨fun r' h => .inr ⟨r', mem_gcRows h, Row.LeftOf.refl r', .inl rfl⟩, nofun⟩

theorem evolves_revokeFamily (db : Sessions) (f : Family) :
    Evolves db (revokeFamily db f) [] [] := by
  refine ⟨fun r' h => .inr ?_, nofun⟩
  obtain ⟨r, hr, hleft, hconsumed, -⟩ := mem_revokeFamily h
  exact ⟨r, hr, hleft, .inl hconsumed⟩

theorem evolves_touchFamily (db : Sessions) (f : Family) (now : ℤ) :
    Evolves db (touchFamily db f now) [] [] := by
  refine ⟨fun r' h => .inr ?_, nofun⟩
  obtain ⟨r, hr, hleft, hconsumed, -⟩ := mem_touchFamily h
  exact ⟨r, hr, hleft, .inl hconsumed⟩

theorem dead_revokeFamily (db : Sessions) (f : Family) : Dead (revokeFamily db f) f := by
  intro r' h hf
  obtain ⟨r, -, -, -, -, -, hrev⟩ := mem_revokeFamily h
  exact hrev hf

variable {rows : List Row} {db'' : Sessions}

/-- The rows after insertions that have succeeded; their tokens are new. -/
theorem mem_insertRows {db db' : Sessions} (h : insertRows db db' rows = (db'', .ok)) :
    (∀ r ∈ rows, ∀ s ∈ db'.rows, s.token ≠ r.token) ∧
      ∀ r', r' ∈ db''.rows ↔ r' ∈ db'.rows ∨ r' ∈ rows := by
  induction rows generalizing db' with
  | nil =>
    obtain rfl := (Prod.mk.inj h).1
    exact ⟨nofun, fun r' => by simp⟩
  | cons r rows ih =>
    unfold insertRows at h
    split at h
    · cases (Prod.mk.inj h).2
    rename_i dbr hr
    obtain ⟨hnew, hrows⟩ := mem_insertRow hr
    obtain ⟨hfresh, hmem⟩ := ih h
    constructor
    · intro r' hr' s hs
      rw [mem_cons] at hr'
      obtain rfl | hr' := hr'
      · exact hnew s hs
      · exact hfresh r' hr' s ((hrows s).mpr (.inl hs))
    · intro r'
      rw [hmem, hrows, mem_cons, or_assoc]

variable {used : List (String × Family)}

theorem Evolves.insertRows {db db' : Sessions} (h : Evolves db db' used [])
    (hused : ∀ t f, (t, f) ∈ used → ∃ r ∈ db'.rows, r.token = t)
    (hins : insertRows db db' rows = (db'', .ok)) : Evolves db db'' used rows := by
  obtain ⟨hfresh, hmem⟩ := mem_insertRows hins
  constructor
  · intro r' hr'
    obtain hr' | hr' := (hmem r').mp hr'
    · obtain hnone | hold := h.rows r' hr'
      · cases hnone
      · exact .inr hold
    · exact .inl hr'
  · intro t f htf r' hr' htoken
    obtain hr' | hr' := (hmem r').mp hr'
    · exact h.used t f htf r' hr' htoken
    · -- a new row has another token than the consumed one
      obtain ⟨s, hs, hst⟩ := hused t f htf
      exact absurd (hst.trans htoken.symm) (hfresh r' hr' s hs)

/-! ### The invariant over a write -/

variable {db db' : Sessions} {new : List Row}

/-- The invariant of the table over any write, when the new rows are those of a live family. -/
theorem DbInv.evolve {issued issued' : List String}
    {families families' : List Family} {rotated used : List (String × Family)}
    (h : DbInv db issued families rotated) (he : Evolves db db' used new)
    (hone : OneRefresh db')
    (hissued : ∀ t ∈ issued, t ∈ issued') (hfamilies : ∀ f ∈ families, f ∈ families')
    (htext : ∀ f ∈ families', f.textOk = true)
    (hnew : ∀ r ∈ new, r.token ∉ issued ∧ r.token ∈ issued' ∧ r.family ∈ families' ∧
      0 < r.lastActivityAt ∧ r.refreshConsumedAt = 0)
    (hused : ∀ t f, (t, f) ∈ used → t ∈ issued' ∧ f ∈ families' ∧ t ∉ rotated.map Prod.fst)
    (honce : (used.map Prod.fst).Nodup) :
    DbInv db' issued' families' (used ++ rotated) where
  oneRefresh := hone
  live := by
    intro r' hr' hlive
    obtain hr' | ⟨r, hr, hleft, -⟩ := he.rows r' hr'
    · exact ⟨(hnew r' hr').2.1, (hnew r' hr').2.2.1, (hnew r' hr').2.2.2.1⟩
    · obtain ⟨htoken, hfam, hact⟩ := h.live r hr (hleft.live hlive)
      exact ⟨hissued _ (hleft.token ▸ htoken), hfamilies _ (hleft.family ▸ hfam),
        Int.lt_of_lt_of_le hact hleft.activity⟩
  consumed := by
    intro r' hr' hpos
    rw [mem_append]
    obtain hr' | ⟨r, hr, hleft, hsame | hin⟩ := he.rows r' hr'
    · rw [(hnew r' hr').2.2.2.2] at hpos
      exact absurd hpos (Int.lt_irrefl 0)
    · have := h.consumed r hr (hsame ▸ hpos)
      rw [hleft.token, hleft.family]
      exact .inr this
    · exact .inl hin
  textOk := htext
  rotation := by
    intro t f htf
    obtain htf | htf := mem_append.mp htf
    · exact ⟨(hused t f htf).1, (hused t f htf).2.1, he.used t f htf⟩
    obtain ⟨htoken, hfam, hrows⟩ := h.rotation t f htf
    refine ⟨hissued t htoken, hfamilies f hfam, ?_⟩
    intro r' hr' hr't
    obtain hr' | ⟨r, hr, hleft, -⟩ := he.rows r' hr'
    · exact absurd (hr't ▸ htoken) (hnew r' hr').1
    · -- a consumed row is revoked, and stays as it is
      obtain ⟨hkind, hrev, hpos, hfamily⟩ := hrows r hr (hleft.token ▸ hr't)
      rw [hleft.revoked hrev]
      exact ⟨hkind, hrev, hpos, hfamily⟩
  once := by
    rw [map_append, nodup_append]
    refine ⟨honce, h.once, ?_⟩
    rintro t ht t' ht' rfl
    obtain ⟨⟨t1, f1⟩, htf, rfl⟩ := List.mem_map.mp ht
    exact (hused t1 f1 htf).2.2 ht'

variable {c : Call}
variable {ph : Phase} {σ' : Sys}

/-- What a call has read still holds after a write that adds new tokens only. -/
theorem CallInv.evolve {users : Users} {σ : Sys} (h : CallInv users σ c ph)
    (he : Evolves σ.db σ'.db used new) (hnew : ∀ r ∈ new, r.token ∉ σ.issued)
    (hissued : ∀ t ∈ σ.issued, t ∈ σ'.issued) (hrotated : ∀ p ∈ σ.rotated, p ∈ σ'.rotated) :
    CallInv users σ' c ph where
  clock := h.clock
  fits := h.fits
  timeout := by
    intro t ht
    obtain ⟨htoken, hrows⟩ := h.timeout t ht
    refine ⟨hissued _ htoken, ?_⟩
    intro r' hr' hr't hlive
    obtain hr' | ⟨r, hr, hleft, -⟩ := he.rows r' hr'
    · exact absurd (hr't ▸ htoken) (hnew r' hr')
    · rw [hleft.family]
      exact hrows r hr (hleft.token ▸ hr't) (hleft.live hlive)
  revoke := fun f hf => hrotated _ (h.revoke f hf)

/-- One refresh token per family stays one, as long as no row is added. -/
theorem OneRefresh.evolve (h : OneRefresh db) (he : Evolves db db' used []) : OneRefresh db' := by
  intro r' hr' s' hs' hrk hsk hrl hsl hfam
  obtain hnone | ⟨r, hr, hr1, -⟩ := he.rows r' hr'
  · cases hnone
  obtain hnone | ⟨s, hs, hs1, -⟩ := he.rows s' hs'
  · cases hnone
  rw [hr1.token, hs1.token]
  exact h r hr s hs (hr1.kind ▸ hrk) (hs1.kind ▸ hsk) (hr1.live hrl) (hs1.live hsl)
    (hr1.family ▸ hs1.family ▸ hfam)

/-- A refresh token for a family that has none. -/
theorem OneRefresh.insertRows {db db' : Sessions} (h : OneRefresh db')
    (hins : insertRows db db' rows = (db'', .ok))
    (hrows : ∀ r ∈ rows, ∀ s ∈ rows, r.kind = .refresh → s.kind = .refresh → r = s)
    (hnone : ∀ r ∈ rows, r.kind = .refresh → ∀ s ∈ db'.rows, s.kind = .refresh →
      s.family = r.family → s.revoked = true) : OneRefresh db'' := by
  obtain ⟨-, hmem⟩ := mem_insertRows hins
  intro r hr s hs hrk hsk hrl hsl hfam
  obtain hr | hr := (hmem r).mp hr <;> obtain hs | hs := (hmem s).mp hs
  · exact h r hr s hs hrk hsk hrl hsl hfam
  · rw [hnone s hs hsk r hr hrk hfam] at hrl
    cases hrl
  · rw [hnone r hr hrk s hs hsk hfam.symm] at hsl
    cases hsl
  · rw [hrows r hr s hs hrk hsk]

variable {f : Family}

/-- A dead family stays dead, unless a row is added to it. -/
theorem Dead.evolve
    (h : Dead db f) (he : Evolves db db' used new) (hnew : ∀ r ∈ new, r.family ≠ f) :
    Dead db' f := by
  intro r' hr' hf
  obtain hr' | ⟨r, hr, hleft, -⟩ := he.rows r' hr'
  · exact absurd hf (hnew r' hr')
  · have hrev := h r hr (hleft.family ▸ hf)
    rw [hleft.revoked hrev]
    exact hrev

/-! ### The condition -/

/-- The condition on a step of a call: new tokens are new; a rotation past its first read presents
    no token consumed meanwhile; the row of a consumed token is kept while its family lives. -/
def PhaseSound (σ : Sys) (c : Call) : Phase → Prop
  | .issue _ => ∀ t ∈ c.op.newTokens, t ∉ σ.issued
  | .rotate _ =>
    (∀ t ∈ c.op.newTokens, t ∉ σ.issued) ∧ ∀ p ∈ σ.rotated, p.1 = c.token → Dead σ.db p.2
  | .consumedRead =>
    ∀ p ∈ σ.rotated, p.1 = c.token → ¬ Dead σ.db p.2 → ∃ s ∈ σ.db.rows, s.token = c.token
  | _ => True

instance (σ : Sys) (c : Call) : (ph : Phase) → Decidable (PhaseSound σ c ph)
  | .issue _ => inferInstanceAs (Decidable (∀ t ∈ c.op.newTokens, t ∉ σ.issued))
  | .rotate _ =>
    inferInstanceAs (Decidable
      ((∀ t ∈ c.op.newTokens, t ∉ σ.issued) ∧ ∀ p ∈ σ.rotated, p.1 = c.token → Dead σ.db p.2))
  | .consumedRead =>
    inferInstanceAs (Decidable
      (∀ p ∈ σ.rotated, p.1 = c.token → ¬ Dead σ.db p.2 → ∃ s ∈ σ.db.rows, s.token = c.token))
  | .read => isTrue trivial
  | .recheckRead => isTrue trivial
  | .recheck _ => isTrue trivial
  | .touchRead => isTrue trivial
  | .touch _ => isTrue trivial
  | .revoke _ => isTrue trivial

/-- The call that comes to its next step, with its phase. -/
def Sys.callAt (σ : Sys) (i : ℕ) : Option (Call × Phase) :=
  match σ.calls[i]? with
  | some (c, some ph) => some (c, ph)
  | _ => none

variable {i : ℕ}

theorem Sys.callAt_eq_some {σ : Sys} :
    σ.callAt i = some (c, ph) ↔ σ.calls[i]? = some (c, some ph) := by
  unfold Sys.callAt
  split
  · next c' ph' h => rw [h]; simp
  rename_i hno
  refine ⟨nofun, fun h => ?_⟩
  exact absurd h (hno c ph)

/-- The condition on an action, before it is taken. -/
def Sound (σ : Sys) : Action → Prop
  | .login a _ =>
    0 < a.now ∧ a.accessToken ∉ σ.issued ∧ a.refreshToken ∉ σ.issued ∧ a.family ∉ σ.families
  | .gc _ _ _ _ => True
  | .begin c => 0 < c.now
  | .advance i _ => ∀ x ∈ σ.callAt i, PhaseSound σ x.1 x.2

instance (σ : Sys) : (a : Action) → Decidable (Sound σ a)
  | .login a _ =>
    inferInstanceAs (Decidable (0 < a.now ∧ a.accessToken ∉ σ.issued ∧
      a.refreshToken ∉ σ.issued ∧ a.family ∉ σ.families))
  | .gc _ _ _ _ => isTrue trivial
  | .begin c => inferInstanceAs (Decidable (0 < c.now))
  | .advance i _ => inferInstanceAs (Decidable (∀ x ∈ σ.callAt i, PhaseSound σ x.1 x.2))

/-- Every action of a run meets the condition. -/
def SoundRun (users : Users) : Sys → List Action → Prop
  | _, [] => True
  | σ, a :: as => Sound σ a ∧ SoundRun users (sysStep users σ a).1 as

instance (users : Users) : (σ : Sys) → (as : List Action) → Decidable (SoundRun users σ as)
  | _, [] => isTrue trivial
  | σ, a :: as =>
    have := instDecidableSoundRun users (sysStep users σ a).1 as
    inferInstanceAs (Decidable (Sound σ a ∧ SoundRun users (sysStep users σ a).1 as))

/-! ### One step -/

variable {users : Users} {σ : Sys}

theorem Inv.next (h : Inv users σ)
    (hdb : DbInv σ'.db σ'.issued σ'.families σ'.rotated) (he : Evolves σ.db σ'.db used new)
    (hnew : ∀ r ∈ new, r.token ∉ σ.issued) (hissued : ∀ t ∈ σ.issued, t ∈ σ'.issued)
    (hrotated : ∀ p ∈ σ.rotated, p ∈ σ'.rotated)
    (hcalls : ∀ c ph, (c, some ph) ∈ σ'.calls → (c, some ph) ∈ σ.calls ∨ CallInv users σ' c ph) :
    Inv users σ' := by
  refine ⟨hdb, ?_⟩
  intro c ph hc
  obtain hold | hinv := hcalls c ph hc
  · exact (h.calls c ph hold).evolve he hnew hissued hrotated
  · exact hinv

variable {rotated : List (String × Family)} {families : List Family} {issued : List String}

/-- A write that adds and consumes nothing. -/
theorem DbInv.shrink (h : DbInv db issued families rotated)
    (he : Evolves db db' [] []) : DbInv db' issued families rotated :=
  h.evolve he (h.oneRefresh.evolve he) (fun _ ht => ht) (fun _ hf => hf) h.textOk nofun nofun
    nodup_nil

theorem loginInsert_cases (db : Sessions) (a : Login) (fails : Bool) :
    (a.valid = true ∧ insertRows db db a.rows = ((loginInsert db a fails).1, .ok) ∧
        (loginInsert db a fails).2 = .ok) ∨
      ((loginInsert db a fails).1 = db ∧ ((loginInsert db a fails).2 = .invalidArgument ∨
          (loginInsert db a fails).2 = .dbError)) := by
  unfold loginInsert
  split
  · exact .inr ⟨rfl, .inl rfl⟩
  rename_i hvalid
  split
  · exact .inr ⟨rfl, .inr rfl⟩
  obtain hok | hfail := insertRows_cases db db a.rows
  · exact .inl ⟨by simpa using hvalid, Prod.ext rfl hok, hok⟩
  · rw [hfail]
    exact .inr ⟨rfl, .inr rfl⟩

/-- A login issues two tokens of a new family. -/
theorem DbInv.login {a : Login} (h : DbInv db issued families rotated)
    (hnow : 0 < a.now) (haccess : a.accessToken ∉ issued) (hrefresh : a.refreshToken ∉ issued)
    (hfamily : a.family ∉ families) (hvalid : a.valid = true)
    (hins : insertRows db db a.rows = (db', .ok)) :
    Evolves db db' [] a.rows ∧
      DbInv db' ([a.accessToken, a.refreshToken] ++ issued) (a.family :: families) rotated := by
  have he : Evolves db db' [] a.rows := (Evolves.refl db).insertRows nofun hins
  have hrows : ∀ r ∈ a.rows, r = newRow a.accessToken a.family .access a.now a.accessExpiresAt ∨
      r = newRow a.refreshToken a.family .refresh a.now a.refreshExpiresAt := by
    intro r hr
    simpa [Login.rows] using hr
  refine ⟨he, ?_⟩
  show DbInv db' _ _ ([] ++ rotated)
  apply h.evolve he
  · apply h.oneRefresh.insertRows hins
    · intro r hr s hs hrk hsk
      obtain rfl | rfl := hrows r hr
      · cases hrk
      · obtain rfl | rfl := hrows s hs
        · cases hsk
        · rfl
    · intro r hr _ s hs _ hfam
      cases hrev : s.revoked with
      | true => rfl
      | false =>
        -- the family is new, so it has no unrevoked token yet
        have hin := (h.live s hs hrev).2.1
        have hsame : s.family = a.family := by
          obtain rfl | rfl := hrows r hr <;> exact hfam
        exact absurd (hsame ▸ hin) hfamily
  · exact fun t ht => mem_append_right _ ht
  · exact fun f hf => mem_cons_of_mem _ hf
  · intro f hf
    rw [mem_cons] at hf
    obtain rfl | hf := hf
    · simp only [Login.valid, Bool.and_eq_true] at hvalid
      exact hvalid.1.1.1.1.2
    · exact h.textOk f hf
  · intro r hr
    obtain rfl | rfl := hrows r hr
    · exact ⟨haccess, by simp [newRow], mem_cons_self, hnow, rfl⟩
    · exact ⟨hrefresh, by simp [newRow], mem_cons_self, hnow, rfl⟩
  · nofun
  · exact nodup_nil

variable {newAccess : String} {expiresAt now : ℤ}

/-- An issued access token belongs to the family of the refresh token. -/
theorem DbInv.issue
    (h : DbInv db issued families rotated) (hnow : 0 < now) (hnew : newAccess ∉ issued)
    (hf : f ∈ families)
    (hins : insertRows db (touchFamily db f now) [newRow newAccess f .access now expiresAt] =
      (db', .ok)) :
    Evolves db db' [] [newRow newAccess f .access now expiresAt] ∧
      DbInv db' ([newAccess] ++ issued) families rotated := by
  have htouch := evolves_touchFamily db f now
  have he := htouch.insertRows nofun hins
  refine ⟨he, ?_⟩
  show DbInv db' _ _ ([] ++ rotated)
  apply h.evolve he
  · apply (h.oneRefresh.evolve htouch).insertRows hins
    · intro r hr s hs _ _
      rw [mem_singleton] at hr hs
      rw [hr, hs]
    · intro r hr hrk
      rw [mem_singleton] at hr
      rw [hr] at hrk
      cases hrk
  · exact fun t ht => mem_append_right _ ht
  · exact fun _ hf => hf
  · exact h.textOk
  · intro r hr
    rw [mem_singleton] at hr
    subst hr
    exact ⟨hnew, mem_append_left _ (mem_singleton.mpr rfl), hf, hnow, rfl⟩
  · nofun
  · exact nodup_nil

variable {newRefresh : String} {s : Row}

/-- The rows after a refresh token has been consumed and its family touched. -/
theorem mem_consumed {db : Sessions} {token : String} {r'' : Row}
    (hs : s ∈ db.rows) (htoken : s.token = token) (hkind : s.kind = .refresh)
    (hlive : s.revoked = false)
    (h : r'' ∈ (touchFamily (consumeRefresh db token newRefresh now) s.family now).rows) :
    ∃ r ∈ db.rows, r''.LeftOf r ∧ ((r = s ∧ r''.revoked = true ∧ r''.refreshConsumedAt = now) ∨
        (r ≠ s ∧ r''.refreshConsumedAt = r.refreshConsumedAt)) := by
  obtain ⟨r', hr', hleft', hconsumed', hrev'⟩ := mem_touchFamily h
  obtain ⟨r, hr, hleft, ⟨hrt, -, -, hrev, hnow⟩ | ⟨hnot, rfl⟩⟩ := mem_consumeRefresh hr'
  · have hsame : r = s := inj_on_of_nodup_map db.nodup hr hs (hrt.trans htoken.symm)
    exact ⟨r, hr, hleft'.trans hleft, .inl ⟨hsame, hrev'.trans hrev, hconsumed'.trans hnow⟩⟩
  · refine ⟨r', hr, hleft', .inr ⟨?_, hconsumed'⟩⟩
    rintro rfl
    exact hnot ⟨htoken, hkind, hlive⟩

/-- A rotation consumes its token, and issues two tokens of the same family. -/
theorem DbInv.rotate {accessExpiresAt : ℤ}
    (h : DbInv db issued families rotated) (hnow : 0 < now) (haccess : newAccess ∉ issued)
    (hrefresh : newRefresh ∉ issued) (hs : s ∈ db.rows) (hkind : s.kind = .refresh)
    (hlive : s.revoked = false)
    (hins : insertRows db (touchFamily (consumeRefresh db s.token newRefresh now) s.family now)
      [newRow newAccess s.family .access now accessExpiresAt,
        newRow newRefresh s.family .refresh now expiresAt] = (db', .ok)) :
    Evolves db db' [(s.token, s.family)]
        [newRow newAccess s.family .access now accessExpiresAt,
          newRow newRefresh s.family .refresh now expiresAt] ∧
      DbInv db' ([newAccess, newRefresh] ++ issued) families
        ([(s.token, s.family)] ++ rotated) := by
  obtain ⟨hissued, hfam, -⟩ := h.live s hs hlive
  have hconsumed : Evolves db
      (touchFamily (consumeRefresh db s.token newRefresh now) s.family now)
      [(s.token, s.family)] [] := by
    constructor
    · intro r' hr'
      obtain ⟨r, hr, hleft, ⟨rfl, -, -⟩ | ⟨-, hsame⟩⟩ := mem_consumed hs rfl hkind hlive hr'
      · rw [hleft.token, hleft.family]
        exact .inr ⟨r, hr, hleft, .inr (mem_singleton.mpr rfl)⟩
      · exact .inr ⟨r, hr, hleft, .inl hsame⟩
    · intro t f htf r' hr' htoken
      obtain ⟨rfl, rfl⟩ := Prod.mk.inj (mem_singleton.mp htf)
      obtain ⟨r, hr, hleft, ⟨rfl, hrev, hat⟩ | ⟨hne, -⟩⟩ := mem_consumed hs rfl hkind hlive hr'
      · exact ⟨hleft.kind.trans hkind, hrev, hat ▸ hnow, hleft.family⟩
      · exact absurd (inj_on_of_nodup_map db.nodup hr hs (hleft.token ▸ htoken)) hne
  have hkept : ∃ r ∈ (touchFamily (consumeRefresh db s.token newRefresh now) s.family now).rows,
      r.token = s.token := by
    obtain ⟨r, hr, hrt⟩ := exists_update hs
    obtain ⟨r', hr', hr't⟩ := exists_update hr
    exact ⟨r', hr', hr't.trans hrt⟩
  have he : Evolves db db' [(s.token, s.family)]
      [newRow newAccess s.family .access now accessExpiresAt,
        newRow newRefresh s.family .refresh now expiresAt] := by
    apply hconsumed.insertRows _ hins
    intro t f htf
    obtain ⟨rfl, rfl⟩ := Prod.mk.inj (mem_singleton.mp htf)
    exact hkept
  refine ⟨he, ?_⟩
  apply h.evolve he
  · apply (h.oneRefresh.evolve hconsumed).insertRows hins
    · intro r hr x hx hrk hxk
      simp only [mem_cons, not_mem_nil, or_false] at hr hx
      obtain rfl | rfl := hr
      · cases hrk
      · obtain rfl | rfl := hx
        · cases hxk
        · rfl
    · intro r hr _ x' hx' hxk hxf
      -- the token consumed was the only unrevoked refresh token of the family
      have hxfam : x'.family = s.family := by
        simp only [mem_cons, not_mem_nil, or_false] at hr
        obtain rfl | rfl := hr <;> exact hxf
      obtain ⟨x, hx, hleft, ⟨-, hrev, -⟩ | ⟨hne, -⟩⟩ := mem_consumed hs rfl hkind hlive hx'
      · exact hrev
      cases hrev : x'.revoked with
      | true => rfl
      | false =>
        have htoken := h.oneRefresh x hx s hs (hleft.kind ▸ hxk) hkind (hleft.live hrev) hlive
          (hleft.family ▸ hxfam)
        exact absurd (inj_on_of_nodup_map db.nodup hx hs htoken) hne
  · exact fun t ht => mem_append_right _ ht
  · exact fun _ hf => hf
  · exact h.textOk
  · intro r hr
    simp only [mem_cons, not_mem_nil, or_false] at hr
    obtain rfl | rfl := hr
    · exact ⟨haccess, by simp [newRow], hfam, hnow, rfl⟩
    · exact ⟨hrefresh, by simp [newRow], hfam, hnow, rfl⟩
  · intro t f htf
    obtain ⟨rfl, rfl⟩ := Prod.mk.inj (mem_singleton.mp htf)
    refine ⟨mem_append_right _ hissued, hfam, ?_⟩
    -- a token rotated before would be revoked
    intro hmem
    obtain ⟨⟨t, f⟩, htf, rfl⟩ := List.mem_map.mp hmem
    have hrev := ((h.rotation _ f htf).2.2 s hs rfl).2.1
    rw [hlive] at hrev
    cases hrev
  · exact nodup_singleton _

variable {out : Outcome} {ph' : Phase}

/-- The call in a phase of the list of calls after a step. -/
theorem mem_advanced {σ : Sys} {c c' : Call} (h : (c', some ph') ∈ (σ.advanced i c out).calls) :
    (c', some ph') ∈ σ.calls ∨ (c' = c ∧ out.2 = .inl ph') := by
  have hcalls : (σ.advanced i c out).calls = σ.calls.set i (c, out.2.getLeft?) := by
    unfold Sys.advanced
    split <;> rfl
  rw [hcalls] at h
  obtain hold | hnew := mem_or_eq_of_mem_set h
  · exact .inl hold
  · obtain ⟨rfl, hph⟩ := Prod.mk.inj hnew
    exact .inr ⟨rfl, Sum.getLeft?_eq_some_iff.mp hph.symm⟩

/-- A step of a call that does not end with success: nothing is issued. -/
theorem inv_unissued (h : Inv users σ) (hout : out.2 ≠ .inr .ok) (he : Evolves σ.db out.1 [] [])
    (hgoes : ∀ ph', out.2 = .inl ph' → CallInv users σ c ph') :
    Inv users (σ.advanced i c out) := by
  have hσ' : σ.advanced i c out =
      { σ with db := out.1, calls := σ.calls.set i (c, out.2.getLeft?) } := if_neg hout
  rw [hσ']
  have hnone : ∀ r ∈ ([] : List Row), r.token ∉ σ.issued := nofun
  refine h.next ?_ he hnone (fun _ ht => ht) (fun _ hp => hp) ?_
  · exact h.db.shrink he
  intro c' ph' hc'
  rw [← hσ'] at hc'
  obtain hold | ⟨rfl, hph⟩ := mem_advanced hc'
  · exact .inl hold
  · exact .inr ((hgoes ph' hph).evolve he hnone (fun _ ht => ht) (fun _ hp => hp))

/-- A call that succeeds leaves the invariant, when its write does. -/
theorem inv_succeeded {db' : Sessions} (h : Inv users σ) (he : Evolves σ.db db' used new)
    (hnew : ∀ r ∈ new, r.token ∉ σ.issued)
    (hdb : DbInv db' (c.op.newTokens ++ σ.issued) σ.families (rotationOf σ.db c ++ σ.rotated)) :
    Inv users (σ.advanced i c (db', .inr .ok)) := by
  refine h.next ?_ he hnew (fun _ ht => mem_append_right _ ht)
    (fun _ hp => mem_append_right _ hp) ?_
  · exact hdb
  intro c' ph' hc'
  obtain hold | ⟨-, hph⟩ := mem_advanced hc'
  · exact .inl hold
  · cases hph

/-- What a call that goes on has read. -/
theorem CallInv.comes {ph : Phase} (h : Inv users σ) (hc : CallInv users σ c ph)
    (hcomes : Comes users σ.db c ph') : CallInv users σ c ph' where
  clock := hc.clock
  fits := hcomes.fits
  timeout := by
    intro t ht
    obtain ⟨s, hs, htoken, hlive, n, hn, rfl⟩ := hcomes.timeout t ht
    refine ⟨htoken ▸ (h.db.live s hs hlive).1, ?_⟩
    intro r hr hrt _
    have hsame : r = s := inj_on_of_nodup_map σ.db.nodup hr hs (hrt.trans htoken.symm)
    exact ⟨n, hsame ▸ hn, rfl⟩
  revoke := by
    intro f hf
    obtain ⟨s, hs, htoken, -, -, hpos, -, hfam⟩ := consumedRefreshRead_some.mp (hcomes.revoke f hf)
    rw [← htoken, ← hfam]
    exact h.db.consumed s hs hpos

theorem rotationOf_nil {db : Sessions}
    (h : ∀ newAccess newRefresh expiresAt, c.op ≠ .refreshRotate newAccess newRefresh expiresAt) :
    rotationOf db c = [] := by
  unfold rotationOf
  split
  · next hop _ => exact absurd hop (h _ _ _)
  · rfl

/-- A step of a call under the condition. -/
theorem inv_advance (h : Inv users σ)
    (hget : σ.calls[i]? = some (c, some ph)) (hs : PhaseSound σ c ph)
    (hmove : Move users σ.db c ph out) : Inv users (σ.advanced i c out) := by
  have hc := h.calls c ph (mem_of_getElem? hget)
  cases hmove with
  | goes ph' hcomes =>
    refine inv_unissued h ?_ (Evolves.refl σ.db) ?_
    · nofun
    intro ph'' hph
    obtain rfl := Sum.inl.inj hph
    exact CallInv.comes h hc hcomes
  | refused r hr =>
    refine inv_unissued h (fun heq => hr.1 (Sum.inr.inj heq)) (Evolves.refl σ.db) ?_
    nofun
  | timedOut f => exact inv_unissued h nofun (evolves_revokeFamily σ.db f) nofun
  | reused f => exact inv_unissued h nofun (evolves_revokeFamily σ.db f) nofun
  | checked recordActivity row hop hrow =>
    apply inv_succeeded h (Evolves.refl σ.db) nofun
    rw [rotationOf_nil (by rw [hop]; exact fun _ _ _ => nofun), hop]
    exact h.db
  | touched recordActivity row hop hrow =>
    have he := evolves_touchFamily σ.db row.family c.now
    apply inv_succeeded h he nofun
    rw [rotationOf_nil (by rw [hop]; exact fun _ _ _ => nofun), hop]
    exact h.db.shrink he
  | issued newAccess accessExpiresAt t row db' hph hop hrow hins =>
    obtain ⟨s, hs', -, -, hlive, -, -, hfam, -, -⟩ := sessionRead_ok hrow.read
    rw [hph] at hs
    have hfresh : newAccess ∉ σ.issued := hs _ (by rw [hop]; exact mem_singleton.mpr rfl)
    obtain ⟨he, hdb⟩ := h.db.issue hc.clock hfresh (hfam ▸ (h.db.live s hs' hlive).2.1) hins
    apply inv_succeeded h he
    · intro r hr
      rw [mem_singleton] at hr
      rw [hr]
      exact hfresh
    · rw [rotationOf_nil (by rw [hop]; exact fun _ _ _ => nofun), hop]
      exact hdb
  | rotated newAccess newRefresh accessExpiresAt t row db' hph hop hrow hins =>
    obtain ⟨s, hs', htoken, hkind, hlive, -, -, hfam, -, -⟩ := sessionRead_ok hrow.read
    rw [hph] at hs
    have haccess : newAccess ∉ σ.issued := hs.1 _ (by rw [hop]; exact mem_cons_self)
    have hrefresh : newRefresh ∉ σ.issued :=
      hs.1 _ (by rw [hop]; exact mem_cons_of_mem _ (mem_singleton.mpr rfl))
    rw [hfam, ← htoken] at hins
    obtain ⟨he, hdb⟩ := h.db.rotate hc.clock haccess hrefresh hs' hkind hlive hins
    apply inv_succeeded h he
    · intro r hr
      simp only [mem_cons, not_mem_nil, or_false] at hr
      obtain rfl | rfl := hr
      · exact haccess
      · exact hrefresh
    · have hrotation : rotationOf σ.db c = [(s.token, s.family)] := by
        unfold rotationOf
        rw [hop, Table.find_eq_some.mpr ⟨hs', htoken⟩, htoken]
      rw [hrotation, hop]
      exact hdb

/-- **The invariant over one step** under the condition. -/
theorem inv_step {a : Action} (h : Inv users σ) (hs : Sound σ a) :
    Inv users (sysStep users σ a).1 := by
  cases a with
  | login a fails =>
    obtain ⟨hnow, haccess, hrefresh, hfamily⟩ := hs
    simp only [sysStep]
    obtain ⟨hvalid, hins, hok⟩ | ⟨hdb, hfail⟩ := loginInsert_cases σ.db a fails
    · rw [if_pos hok]
      obtain ⟨he, hdb⟩ := h.db.login hnow haccess hrefresh hfamily hvalid hins
      refine h.next ?_ he ?_ (fun _ ht => mem_append_right _ ht) (fun _ hp => hp)
        (fun _ _ hc => .inl hc)
      · exact hdb
      intro r hr
      simp only [Login.rows, mem_cons, not_mem_nil, or_false] at hr
      obtain rfl | rfl := hr
      · exact haccess
      · exact hrefresh
    · rw [if_neg (by obtain hfail | hfail := hfail <;> rw [hfail] <;> nofun), hdb]
      exact h
  | gc now retentionS limit fails =>
    have he : Evolves σ.db (sessionGc σ.db now retentionS limit fails).1 [] [] := by
      unfold sessionGc
      split
      · exact Evolves.refl σ.db
      split
      · exact Evolves.refl σ.db
      · exact evolves_gcRows σ.db now retentionS limit
    have hnone : ∀ r ∈ ([] : List Row), r.token ∉ σ.issued := nofun
    refine h.next ?_ he hnone (fun _ ht => ht) (fun _ hp => hp) (fun _ _ hc => .inl hc)
    exact h.db.shrink he
  | begin c =>
    simp only [sysStep]
    split
    · have hnone : ∀ r ∈ ([] : List Row), r.token ∉ σ.issued := nofun
      refine h.next ?_ (Evolves.refl σ.db) hnone (fun _ ht => ht) (fun _ hp => hp) ?_
      · exact h.db
      intro c' ph' hc'
      obtain hc' | hc' := mem_append.mp hc'
      · exact .inl hc'
      · obtain ⟨rfl, hph⟩ := Prod.mk.inj (mem_singleton.mp hc')
        obtain rfl := Option.some.inj hph
        refine .inr ⟨hs, ?_, nofun, nofun⟩
        cases c'.op <;> rfl
    · exact h
  | advance i fails =>
    simp only [sysStep]
    split
    · next c ph hget =>
      have hc := h.calls c ph (mem_of_getElem? hget)
      exact inv_advance h hget (hs (c, ph) (Sys.callAt_eq_some.mpr hget)) (callStep_move hc.fits fails)
    · exact h

end DreamingOS.WebSession
