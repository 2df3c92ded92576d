import DreamingOS.WanSla.Canonical

namespace DreamingOS.WanSlaTx

open Option

/-!
# WAN SLA configuration — what a commit does

* `writePlan_upsert`, `writePlan_delete` — the rows behind a write: the row of the plan at the next
  revision, or no row, and every other row as it was;
* `Applied`, `commit_cases` — a commit is refused, answered from a receipt, or applied, and only
  the last changes the tables.
-/

variable {D : Type}

/-! ### Writes -/

/-- The row holds what an upsert says. -/
structure Row.Holds (c : JsonC D) (row : Row) (u : Upsert D) : Prop where
  id : row.id = u.id
  fields : row.fields = u.fields
  targets : row.targetsJson = c.print (.arr u.targets)
  profile : row.profileJson = c.print (.obj u.profile.members)

variable {rows : Rows} {id : String}

theorem find_atRevision {revision : ℤ} (h : rows.count (atRevision id revision) = 1) :
    ∃ row, rows.find id = some row ∧ row.revision = revision := by
  have hcount := rows.count_key id fun r => decide (r.revision = revision)
  have hsame : (fun r : Row => decide (r.id = id ∧ decide (r.revision = revision) = true))
      = atRevision id revision := by
    funext r
    simp only [atRevision, decide_eq_true_eq]
  rw [hsame, h] at hcount
  cases hfind : rows.find id with
  | none =>
    rw [hfind] at hcount
    cases hcount
  | some row =>
    rw [hfind] at hcount
    by_cases hrev : row.revision = revision
    · exact ⟨row, rfl, hrev⟩
    · simp [hrev] at hcount

theorem storedRevision_of_find {row : Row}
    (h : rows.find id = some row) : storedRevision rows id = row.revision := by
  unfold storedRevision
  rw [h]

theorem storedRevision_of_none (h : rows.find id = none) : storedRevision rows id = 0 := by
  unfold storedRevision
  rw [h]

theorem find_eq_none (h : id ∉ rows.rows.map Row.id) : rows.find id = none := by
  cases hfind : rows.find id with
  | none => rfl
  | some row =>
    obtain ⟨hmem, rfl⟩ := Table.find_eq_some.mp hfind
    exact absurd (List.mem_map_of_mem hmem) h

/-- The row of an upsert behind the write of its fields. -/
structure Row.HasFields (c : JsonC D) (row : Row) (u : Upsert D) (revision : ℤ) : Prop where
  id : row.id = u.id
  fields : row.fields = { u.fields with enabled := false }
  targets : row.targetsJson = c.print (.arr u.targets)
  revision : row.revision = revision

variable {expectedRevision : ℤ} {c : JsonC D} {now : ℤ} {u : Upsert D} {rows' : Rows}

theorem writeFields_spec {rows : Rows}
    (h : writeFields c now rows u expectedRevision = some rows') :
    storedRevision rows u.id = expectedRevision ∧
      (∃ row, rows'.find u.id = some row ∧ row.HasFields c u (expectedRevision + 1)) ∧
      ∀ id ≠ u.id, rows'.find id = rows.find id := by
  unfold writeFields at h
  dsimp only at h
  split at h
  · next hzero =>
    split at h
    · next hnew =>
      obtain rfl := some.inj h
      refine ⟨?_, ⟨Row.create u (c.print (.arr u.targets)) now, ?_, rfl, rfl, rfl, ?_⟩, ?_⟩
      · have hnone : rows.find u.id = none := find_eq_none hnew
        rw [storedRevision_of_none hnone, hzero]
      · rw [Table.find_insert]
        exact if_pos rfl
      · rw [hzero]
        rfl
      · intro id hid
        rw [Table.find_insert, if_neg fun heq => hid heq.symm]
    · cases h
  · split at h
    · next hcount =>
      obtain rfl := some.inj h
      obtain ⟨row, hfind, hrev⟩ := find_atRevision hcount
      obtain ⟨-, hid⟩ := Table.find_eq_some.mp hfind
      refine ⟨?_, ⟨row.rewrite u (c.print (.arr u.targets)) now, ?_, hid, rfl, rfl, ?_⟩, ?_⟩
      · rw [storedRevision_of_find hfind, hrev]
      · rw [Table.find_update, hfind, map_some]
        rw [if_pos (by simp [atRevision, hid, hrev])]
      · show row.revision + 1 = _
        rw [hrev]
      · intro id hne
        rw [Table.find_update]
        cases hother : rows.find id with
        | none => rfl
        | some r =>
          obtain ⟨-, hr⟩ := Table.find_eq_some.mp hother
          rw [map_some, if_neg (show ¬ atRevision u.id expectedRevision r = true by
            simp only [atRevision, decide_eq_true_eq, not_and]
            intro heq
            exact absurd (hr.symm.trans heq) hne)]
    · cases h

/-- **The write of an upsert**: it needs the expected revision, leaves the plan at the next one,
    and touches no other row. -/
theorem writePlan_upsert {rows : Rows}
    (h : writePlan c now rows (.upsert u) expectedRevision = some rows')
    (hprofile : profileNormalize c (some u.json) none u.targets.length = some u.profile) :
    storedRevision rows u.id = expectedRevision ∧
      (∃ row, rows'.find u.id = some row ∧ row.Holds c u ∧ row.revision = expectedRevision + 1) ∧
      ∀ id ≠ u.id, rows'.find id = rows.find id := by
  obtain ⟨rows₁, hfields, h⟩ := bind_eq_some_iff.mp h
  obtain ⟨hstored, ⟨row, hfind, hrow⟩, hframe⟩ := writeFields_spec hfields
  unfold writeProfile at h
  rw [hprofile] at h
  dsimp only at h
  split at h
  · obtain rfl := some.inj h
    refine ⟨hstored, ⟨row.setProfile u.fields.enabled (c.print (.obj u.profile.members)), ?_,
      ⟨?_, ?_, ?_, ?_⟩, ?_⟩, ?_⟩
    · rw [Table.find_update, hfind, map_some, if_pos (by simpa using hrow.id)]
    · exact hrow.id
    · show { row.fields with enabled := u.fields.enabled } = u.fields
      rw [hrow.fields]
    · exact hrow.targets
    · rfl
    · exact hrow.revision
    · intro id hne
      rw [Table.find_update, hframe id hne]
      cases hother : rows.find id with
      | none => rfl
      | some r =>
        obtain ⟨-, hr⟩ := Table.find_eq_some.mp hother
        rw [map_some, if_neg (by
          rw [decide_eq_true_eq]
          intro heq
          exact hne (hr.symm.trans heq))]
  · cases h

/-- **The write of a delete**: it needs the expected revision, leaves no row of the id, and
    touches no other row. -/
theorem writePlan_delete {rows : Rows}
    (h : writePlan c now rows (.delete id) expectedRevision = some rows') :
    storedRevision rows id = expectedRevision ∧ rows'.find id = none ∧
      ∀ other ≠ id, rows'.find other = rows.find other := by
  unfold writePlan at h
  dsimp only at h
  split at h
  · next hcount =>
    obtain rfl := some.inj h
    obtain ⟨row, hfind, hrev⟩ := find_atRevision hcount
    obtain ⟨-, hid⟩ := Table.find_eq_some.mp hfind
    refine ⟨by rw [storedRevision_of_find hfind, hrev], ?_, ?_⟩
    · rw [Table.find_delete, hfind, filter_some, if_neg (by simp [atRevision, hid, hrev])]
    · intro other hne
      rw [Table.find_delete]
      cases hother : rows.find other with
      | none => rfl
      | some r =>
        obtain ⟨-, hr⟩ := Table.find_eq_some.mp hother
        rw [filter_some, if_pos (by
          simp only [atRevision, Bool.not_eq_true', decide_eq_false_iff_not, not_and]
          intro heq
          exact absurd (hr.symm.trans heq) hne)]
  · cases h

/-! ### The preview -/

variable {env : Env D}
variable {body : Json D} {p : Preview D} {existing : Option (Json D)} {operation : String}

theorem previewPlan_ok {id : String}
    (h : previewPlan c env body operation id expectedRevision existing = .ok p) :
    slaPlan c env.wanExists body operation existing expectedRevision = some p.plan := by
  unfold previewPlan at h
  cases hplan : slaPlan c env.wanExists body operation existing expectedRevision with
  | none =>
    rw [hplan] at h
    cases h
  | some plan =>
    rw [hplan] at h
    dsimp only at h
    split at h
    · cases h
    · obtain rfl := Except.ok.inj h
      rfl

theorem previewExisting_ok {id : String}
    (h : previewExisting c env body operation id expectedRevision existing = .ok p) :
    slaPlan c env.wanExists body operation existing expectedRevision = some p.plan := by
  unfold previewExisting at h
  split at h
  · cases h
  split at h
  · cases h
  exact previewPlan_ok h

/-- **An accepted request**: the plan is the canonical one of its operation. -/
theorem preview_ok (h : preview c env rows body = .ok p) :
    (jsonStr body "operation" "upsert" = "delete" ∧ p.plan = .delete (jsonStr body "id" "")) ∨
    (jsonStr body "operation" "upsert" ≠ "delete" ∧ ∃ u, p.plan = .upsert u ∧ cstr u.id = u.id ∧
      profileNormalize c (some u.json) none u.targets.length = some u.profile) := by
  unfold preview at h
  dsimp only at h
  split at h
  · cases h
  split at h
  · cases h
  cases hrev : int64Required body "expected_revision" with
  | none =>
    rw [hrev] at h
    cases h
  | some expectedRevision =>
    rw [hrev] at h
    dsimp only at h
    split at h
    · cases h
    split at h
    · cases h
    rcases slaPlan_cases (previewExisting_ok h) with ⟨hop, hplan⟩ | ⟨hop, u, hplan, hid, hprofile⟩
    · -- a delete keeps the id of the request
      left
      refine ⟨hop, hplan.trans ?_⟩
      rw [nameRequest, if_neg (by rw [hop]; simp)]
    · right
      refine ⟨hop, u, hplan, ?_, hprofile⟩
      rw [hid, cstr_jsonStr]

/-! ### The commit -/

/-- The key of the receipt of a request. -/
def Request.key (r : Request D) : String × ℤ × String := (r.id, r.expectedRevision, r.provided)

/-- A commit that takes effect, with the response `out`. -/
structure Applied (c : JsonC D) (env : Env D) (db : Db) (request : Request D) (p : Preview D)
    (out : Json D) (after : Db) : Prop where
  preview : preview c env db.rows request.body = .ok p
  written : writePlan c env.now db.rows p.plan request.expectedRevision = some after.rows
  readback : request.operation ≠ "delete" → readbackMatches c p.plan.json
    (slaLoad c (env.fails .loadReadback) after.rows request.id) request.expectedRevision = true
  new : db.receipts.find request.key = none
  receipts : ∀ key, after.receipts.find key =
    if request.key = key then some (Receipt.of c env request p.plan out)
    else db.receipts.find key

theorem finish_cases {c : JsonC D} {env : Env D} {db : Db} {rows : Rows} {request : Request D}
    {plan : Plan D} {out : Json D} :
    (∃ e, finish c env db rows request plan out = (.error e, db)) ∨
    ∃ receipts : Table Receipt.key,
      finish c env db rows request plan out = (.committed out, ⟨rows, receipts⟩) ∧
      ∀ key, receipts.find key = if request.key = key then some (Receipt.of c env request plan out)
        else db.receipts.find key := by
  unfold finish
  split
  · exact .inl ⟨_, rfl⟩
  rename_i h
  refine .inr ⟨_, rfl, ?_⟩
  intro key
  rw [Table.find_insert]
  rfl

theorem readBack_cases {c : JsonC D} {env : Env D} {db : Db} {rows : Rows} {request : Request D}
    {plan : Plan D} :
    (∃ e, readBack c env db rows request plan = (.error e, db)) ∨
    ∃ (out : Json D) (receipts : Table Receipt.key),
      readBack c env db rows request plan = (.committed out, ⟨rows, receipts⟩) ∧
      (request.operation ≠ "delete" → readbackMatches c plan.json
        (slaLoad c (env.fails .loadReadback) rows request.id) request.expectedRevision = true) ∧
      ∀ key, receipts.find key = if request.key = key then some (Receipt.of c env request plan out)
        else db.receipts.find key := by
  unfold readBack
  dsimp only
  split
  · split
    · next hmatch =>
      rcases @finish_cases _ c env db rows request plan
        (response env request (slaLoad c (env.fails .loadReadback) rows request.id)) with
        herror | ⟨receipts, hfinish, hreceipts⟩
      · exact .inl herror
      · exact .inr ⟨_, receipts, hfinish, fun _ => hmatch, hreceipts⟩
    · exact .inl ⟨_, rfl⟩
  · next hop =>
    split
    · exact .inl ⟨_, rfl⟩
    rcases @finish_cases _ c env db rows request plan (response env request none) with
      herror | ⟨receipts, hfinish, hreceipts⟩
    · exact .inl herror
    · exact .inr ⟨_, receipts, hfinish, fun h => absurd h hop, hreceipts⟩

theorem apply_cases {db : Db} {request : Request D} (hnew : db.receipts.find request.key = none) :
    (∃ e, apply c env db request = (.error e, db)) ∨
    ∃ p out after, apply c env db request = (.committed out, after) ∧
      Applied c env db request p out after := by
  unfold apply
  cases hpreview : preview c env db.rows request.body with
  | error e => exact .inl ⟨e, rfl⟩
  | ok p =>
    dsimp only
    split
    · exact .inl ⟨_, rfl⟩
    cases refusal c env db.rows request.id p.plan with
    | some e => exact .inl ⟨e, rfl⟩
    | none =>
      cases hwrite : writePlan c env.now db.rows p.plan request.expectedRevision with
      | none => exact .inl ⟨_, rfl⟩
      | some rows =>
        dsimp only
        split
        · exact .inl ⟨_, rfl⟩
        rcases @readBack_cases _ c env db rows request p.plan with
          herror | ⟨out, receipts, heq, hmatch, hreceipts⟩
        · exact .inl herror
        · exact .inr ⟨p, out, ⟨rows, receipts⟩, heq, hpreview, hwrite, hmatch, hnew, hreceipts⟩

/-- **The outcomes of a commit**: an error, a replay, or a commit that takes effect. -/
theorem commit_cases (c : JsonC D) (env : Env D) (db : Db) (body : Json D) :
    (∃ e, commit c env db body = (.error e, db)) ∨
    (∃ request receipt out, readRequest c body = .ok request ∧
      db.receipts.find request.key = some receipt ∧
      commit c env db body = (.replayed out, db)) ∨
    ∃ request p out after, readRequest c body = .ok request ∧
      commit c env db body = (.committed out, after) ∧ Applied c env db request p out after := by
  unfold commit
  cases hrequest : readRequest c body with
  | error e => exact .inl ⟨e, rfl⟩
  | ok request =>
    dsimp only
    unfold transact
    split
    · exact .inl ⟨_, rfl⟩
    split
    · exact .inl ⟨_, rfl⟩
    split
    · exact .inl ⟨_, rfl⟩
    split
    · exact .inl ⟨_, rfl⟩
    cases hfind : db.receipts.find (request.id, request.expectedRevision, request.provided) with
    | some receipt =>
      dsimp only
      unfold replay
      split
      · split
        · exact .inr (.inl ⟨request, receipt, _, rfl, hfind, rfl⟩)
        · exact .inl ⟨_, rfl⟩
      · exact .inl ⟨_, rfl⟩
    | none =>
      rcases apply_cases hfind with herror | ⟨p, out, after, heq, happlied⟩
      · exact .inl herror
      · exact .inr (.inr ⟨request, p, out, after, rfl, heq, happlied⟩)

end DreamingOS.WanSlaTx
