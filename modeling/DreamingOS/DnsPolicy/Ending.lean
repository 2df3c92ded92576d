import DreamingOS.DnsPolicy.Leases

namespace DreamingOS.DnsPolicy

/-!
# DNS policy — how an operation ends

* `handleTx` stops with a failure, with a preview, or with a stored answer: `meets_handleTx`;
* `Ending`, `handle_ending` — the ways in which an operation ends;
* `handle_repeated` — a request that has been recorded.
-/

open Outcome Option

variable {e : Env} {σ : Sys} {db : Db} {op : Operation} {b : Request} {snap : Option (List Char)}

/-! ### Requests that are looked at -/

/-- The request of a call is one that the provider looks at. -/
def Accepted (e : Env) (op : Operation) (b : Request) : Prop :=
  (op ≠ .capabilities ∧ op ≠ .status) ∧
    (ident b.sessionId = true ∧ b.operatorId ≠ "" ∧ b.operatorId.utf8ByteSize ≤ 160) ∧
    ident b.requestId = true ∧ e.begins = true

theorem handle_of_accepted (h : Accepted e op b) : handle e σ op b =
      match handleTx e (snapshot e σ.file) σ.db op b with
      | .error r => (σ, r)
      | .ok (db', r) => finishAnswer e σ ((snapshot e σ.file).getD []) db' r := by
  obtain ⟨⟨hcap, hstatus⟩, ⟨hsession, howner, hsize⟩, hrequest, hbegins⟩ := h
  unfold handle
  rw [if_neg hcap, if_neg (by simp [hsession, howner]; omega), if_neg hstatus,
    if_neg (by simp [hrequest])]
  exact if_neg (by simp [hbegins])

theorem handle_of_not_accepted (h : ¬ Accepted e op b) :
    ∃ r, handle e σ op b = (σ, r) ∧ (r.ok = true → op = .capabilities ∨ op = .status) := by
  unfold handle
  split
  · next hcap => exact ⟨_, rfl, fun _ => .inl hcap⟩
  rename_i hcap
  split
  · exact ⟨_, rfl, nofun⟩
  rename_i howner
  split
  · next hstatus => exact ⟨_, rfl, fun _ => .inr hstatus⟩
  rename_i hstatus
  split
  · exact ⟨_, rfl, nofun⟩
  rename_i hrequest
  split
  · exact ⟨_, rfl, nofun⟩
  rename_i hbegins
  exfalso
  apply h
  simp only [not_or, Bool.not_eq_true', Bool.not_eq_false] at howner hrequest hbegins
  exact ⟨⟨hcap, hstatus⟩, ⟨howner.1, howner.2.1, by omega⟩, hrequest, hbegins⟩

/-! ### Answers without a projection -/

/-- An answer that is no failure, though nothing is to be projected. -/
def Reread (db : Db) (op : Operation) (b : Request) (r : Response) : Prop :=
  r.ok = true → op = .preview ∨
    ∃ x, db.requests.find (b.operatorId, b.requestId) = some x ∧ x.signature = signature op b ∧
      r = x.response

theorem meets_require {p : Bool} {code message : String} :
    Meets (Reread db op b) (fun _ => True) (require p code message) := by
  unfold require
  split
  · trivial
  · exact nofun

theorem meets_checkDevice : Meets (Reread db op b) (fun _ => True) (checkDevice e op b) := by
  unfold checkDevice
  dsimp only
  split
  · exact meets_require
  · exact meets_require
  · exact meets_require
  · exact meets_require.bind fun _ _ => meets_require
  · trivial

theorem meets_checkRules : Meets (Reread db op b) (fun _ => True) (checkRules e db op b) := by
  unfold checkRules
  apply Meets.bind (P := fun _ => True)
  · unfold requireRules
    split
    · trivial
    · exact nofun
  intro rules _
  apply meets_require.bind
  intro _ _
  apply meets_require.bind
  intro _ _
  apply Meets.ite
  · exact fun hpreview _ => .inl hpreview
  · intro _
    apply meets_require.bind
    intro _ _
    apply meets_require.bind
    intro _ _
    trivial

theorem meets_takeLease {kind : LeaseKind} {rules : List Rule} :
    Meets (Reread db op b) (fun _ => True) (takeLease e db kind b rules) := by
  unfold takeLease
  apply meets_require.bind
  intro _ _
  apply meets_require.bind
  intro _ _
  apply meets_require.bind
  intro _ _
  trivial

/-- The statements of an operation stop with a failure, with a preview, or with the stored answer. -/
theorem meets_handleTx : Meets (Reread db op b) (fun _ => True) (handleTx e snap db op b) := by
  have hconclude : ∀ {db₁ : Db} {answer : ℕ → Response},
      Meets (Reread db op b) (fun _ => True) (concluded e op b db₁ answer) := by
    intro db₁ answer
    unfold concluded
    split
    · trivial
    · rintro ⟨⟩
  have hsnapped : Meets (Reread db op b) (fun _ => True)
      (if snap = none then Except.error storageUnavailable else Except.ok () : Except Response Unit) := by
    split
    · rintro ⟨⟩
    · trivial
  unfold handleTx
  apply Meets.ite
  · exact fun _ => by rintro ⟨⟩
  intro _
  apply Meets.bind (P := fun _ => True)
  · unfold replay
    split
    · next x hx =>
      split
      · next hsame => exact fun _ => .inr ⟨x, hx, hsame, rfl⟩
      · rintro ⟨⟩
    · trivial
  intro _ _
  apply Meets.bind (P := fun _ => True)
  · unfold checkOwner
    split
    · exact meets_require
    · trivial
  intro _ _
  cases op with
  | capabilities => rintro ⟨⟩
  | status => rintro ⟨⟩
  | other name => rintro ⟨⟩
  | observe =>
    exact meets_checkDevice.bind fun _ _ => hsnapped.bind fun _ _ =>
      meets_takeLease.bind fun _ _ => hconclude
  | replace =>
    exact meets_checkDevice.bind fun _ _ => meets_checkRules.bind fun _ _ =>
      hsnapped.bind fun _ _ => meets_takeLease.bind fun _ _ => hconclude
  | preview | commit =>
    refine meets_checkDevice.bind fun _ _ => meets_checkRules.bind fun _ _ =>
      hsnapped.bind fun _ _ => ?_
    split
    · exact hconclude
    · rintro ⟨⟩
  | revoke => exact hsnapped.bind fun _ _ => hconclude
  | stop => exact hsnapped.bind fun _ _ => hconclude

/-! ### The ways to end -/

/-- The text of the policy file; a missing file has none. -/
def content (file : File) : List Char := file.getD []

/-- **How an operation ends**: nothing has changed, or its changes are committed and projected, or
    taken back with the file, or taken back without it. -/
inductive Ending (e : Env) (σ : Sys) (op : Operation) (b : Request) : Sys → Response → Prop
  | unchanged (r : Response)
      (hr : r.ok = true → (op = .capabilities ∨ op = .status) ∨ op = .preview ∨
        ∃ x, σ.db.requests.find (b.operatorId, b.requestId) = some x ∧ x.signature = signature op b ∧
          r = x.response) :
      Ending e σ op b σ r
  | committed (db' : Db) (r : Response) (text : List Char) (haccepted : Accepted e op b)
      (htx : handleTx e (snapshot e σ.file) σ.db op b = .ok (db', r))
      (hproject : db'.project e.now = some text) : Ending e σ op b ⟨db', some text⟩ r
  | rolledBack (db' : Db) (r : Response) (old : List Char)
      (htx : handleTx e (snapshot e σ.file) σ.db op b = .ok (db', r))
      (hold : snapshot e σ.file = some old) :
      Ending e σ op b ⟨σ.db, some old⟩ (.applyFailed true)
  | failed (db' : Db) (r : Response) (file : File)
      (htx : handleTx e (snapshot e σ.file) σ.db op b = .ok (db', r))
      (hfile : file = σ.file ∨ ∃ text, db'.project e.now = some text ∧ file = some text) :
      Ending e σ op b ⟨σ.db, file⟩ (.applyFailed false)

theorem projectFile_cases (e : Env) (db : Db) (file : File) :
    projectFile e db file = (file, false) ∨
      ∃ text, db.project e.now = some text ∧ projectFile e db file = (some text, true) := by
  unfold projectFile
  split
  · next text htext =>
    split
    · exact .inr ⟨text, htext, rfl⟩
    · exact .inl rfl
  · exact .inl rfl

theorem handle_ending (e : Env) (σ : Sys) (op : Operation) (b : Request) :
    Ending e σ op b (handle e σ op b).1 (handle e σ op b).2 := by
  by_cases haccepted : Accepted e op b
  · rw [handle_of_accepted haccepted]
    cases htx : handleTx e (snapshot e σ.file) σ.db op b with
    | error r =>
      exact Ending.unchanged r fun hr => .inr (meets_handleTx.of_eq_error htx hr)
    | ok done =>
      obtain ⟨db', r⟩ := done
      obtain ⟨-, -, -, hsnap, -⟩ := handleTx_ok htx
      obtain ⟨old, hold⟩ := ne_none_iff_exists'.mp hsnap
      have hfailed : ∀ file, (file = σ.file ∨ ∃ text, db'.project e.now = some text ∧
          file = some text) →
          Ending e σ op b ⟨σ.db, if e.restores then some old else file⟩ (.applyFailed e.restores) := by
        intro file hfile
        cases e.restores with
        | true => exact Ending.rolledBack db' r old htx hold
        | false => exact Ending.failed db' r file htx hfile
      dsimp only
      unfold finishAnswer finish
      rw [hold, getD_some]
      obtain hproject | ⟨text, htext, hproject⟩ := projectFile_cases e db' σ.file
      · rw [hproject]
        exact hfailed σ.file (.inl rfl)
      · rw [hproject]
        dsimp only
        by_cases hdone : (true && e.acknowledges && e.commits) = true
        · rw [if_pos hdone]
          exact Ending.committed db' r text haccepted htx htext
        · rw [if_neg hdone]
          exact hfailed (some text) (.inr ⟨text, htext, rfl⟩)
  · obtain ⟨r, hhandle, hr⟩ := @handle_of_not_accepted e σ op b haccepted
    rw [hhandle]
    exact Ending.unchanged r fun hok => .inl (hr hok)

/-- The file that is put back is the one that was there, if it could be read. -/
theorem content_of_snapshot {file : File} {old : List Char} (hopen : file ≠ none → e.opens = true)
    (h : snapshot e file = some old) : old = content file := by
  cases file with
  | none =>
    unfold snapshot at h
    exact (some.inj h).symm
  | some text =>
    unfold snapshot at h
    rw [hopen nofun] at h
    dsimp only at h
    split at h
    · cases h
    · exact (some.inj h).symm

/-- A repeated request is answered from the table, or not at all. -/
theorem handle_repeated {q : Stored} (hq : σ.db.requests.find (b.operatorId, b.requestId) = some q) :
    (handle e σ op b).1 = σ ∧ (Accepted e op b → e.stores = true → (handle e σ op b).2 =
      if q.signature = signature op b then q.response
      else .failure "request_id_conflict" "幂等标识已用于其他请求") := by
  by_cases haccepted : Accepted e op b
  · rw [handle_of_accepted haccepted]
    have htx : ∃ r, handleTx e (snapshot e σ.file) σ.db op b = .error r ∧ (e.stores = true →
        r = if q.signature = signature op b then q.response
          else .failure "request_id_conflict" "幂等标识已用于其他请求") := by
      unfold handleTx replay
      rw [hq]
      cases e.stores with
      | false => exact ⟨_, rfl, nofun⟩
      | true => exact ⟨_, rfl, fun _ => rfl⟩
    obtain ⟨r, htx, hr⟩ := htx
    rw [htx]
    exact ⟨rfl, fun _ hstores => hr hstores⟩
  · obtain ⟨r, hhandle, -⟩ := @handle_of_not_accepted e σ op b haccepted
    rw [hhandle]
    exact ⟨rfl, fun hno => absurd hno haccepted⟩

end DreamingOS.DnsPolicy
