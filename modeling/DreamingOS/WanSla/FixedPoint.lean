import DreamingOS.WanSla.ConditionalRun

namespace DreamingOS.WanSlaTx

/-!
# WAN SLA configuration — a plan that is submitted again

A client sends the plan of a preview back, behind a print and a parse that may have turned its
doubles into integers, and `flowd_wan_sla_commit` previews what it was sent.

* `slaPlan_fixed` — `sla_plan` makes the plan it is given;
* `Env.Agrees`, `Submits` — the same store, and a commit that submits a plan;
* `canonical_fixed_point` — the preview of the commit has the plan and the digest of the first one.
-/

variable {D : Type}

open Json (Respelled RespelledItems RespelledMembers)

/-! ### Values of a plan -/

theorem cstr_jsonStr_dflt (o : Json D) (key : String) {dflt : String} (h : cstr dflt = dflt) :
    cstr (jsonStr o key dflt) = jsonStr o key dflt := by
  unfold jsonStr
  split
  · exact cstr_cstr _
  · exact h

variable {o : Json D} {key s : String}

theorem jsonStr_of_get (h : o.get key = some (.str s))
    (hs : cstr s = s) (dflt : String) : jsonStr o key dflt = s := by
  unfold jsonStr
  rw [h]
  exact hs

variable {c : JsonC D}

theorem jsonInt_of_get {n : ℤ}
    (h : o.get key = some (.int n)) (hn : -(2 ^ 31) ≤ n ∧ n ≤ 2 ^ 31 - 1) (dflt : ℤ) :
    jsonInt c o key dflt = n := by
  unfold jsonInt
  rw [h]
  show max (-(2 ^ 31)) (min n (2 ^ 31 - 1)) = n
  rw [min_eq_left hn.2, max_eq_right hn.1]

theorem jsonBool_of_get {b : Bool}
    (h : o.get key = some (.bool b)) (dflt : Bool) : jsonBool c o key dflt = b := by
  unfold jsonBool
  rw [h]
  rfl

/-- Texts that end at their first zero character. -/
structure PlanFields.Texts (f : PlanFields) : Prop where
  name : cstr f.name = f.name
  wan : cstr f.wan = f.wan
  method : cstr f.method = f.method
  remark : cstr f.remark = f.remark

theorem PlanFields.read_texts (c : JsonC D) (o : Json D) {dflt : PlanFields} (h : dflt.Texts) :
    (PlanFields.read c o dflt).Texts where
  name := cstr_jsonStr_dflt o "name" h.name
  wan := cstr_jsonStr_dflt o "wan" h.wan
  method := cstr_jsonStr_dflt o "method" h.method
  remark := cstr_jsonStr_dflt o "remark" h.remark

theorem PlanFields.initial_texts : PlanFields.initial.Texts := ⟨by decide, by decide, by decide,
  by decide⟩

theorem PlanFields.fallback_texts (c : JsonC D) (existing : Option (Json D)) :
    (PlanFields.fallback c existing).Texts := by
  cases existing with
  | none => exact initial_texts
  | some rule => exact read_texts c rule initial_texts

/-- `o` gives the members of a plan, all but the revision that a commit sets. -/
def Gives (c : JsonC D) (o plan : Json D) : Prop :=
  ∀ key ≠ "expected_revision", ∀ v, plan.get key = some v →
    ∃ w, o.get key = some w ∧ Respelled c v w

variable {wanExists : String → Bool}

/-- The fields of a plan are read as they are, whatever the defaults are. -/
theorem PlanFields.read_front {u : Upsert D}
    (ho : Gives c o u.json) (htexts : u.fields.Texts) (hok : u.fields.ok wanExists = true)
    (dflt : PlanFields) : PlanFields.read c o dflt = u.fields := by
  have hstr : ∀ key ≠ "expected_revision", ∀ s, u.json.get key = some (.str s) →
      o.get key = some (.str s) := by
    intro key hkey s hs
    obtain ⟨w, hw, hv⟩ := ho key hkey _ hs
    rw [hw, Json.respelled_str.mp hv]
  have hint : ∀ key ≠ "expected_revision", ∀ n, u.json.get key = some (.int n) →
      o.get key = some (.int n) := by
    intro key hkey n hn
    obtain ⟨w, hw, hv⟩ := ho key hkey _ hn
    rw [hw, Json.respelled_int.mp hv]
  have hbool : o.get "enabled" = some (.bool u.fields.enabled) := by
    obtain ⟨w, hw, hv⟩ := ho "enabled" (by decide) _ rfl
    rw [hw, Json.respelled_bool.mp hv]
  -- the ranges of the plan are far inside those of a C int
  simp only [PlanFields.ok, Bool.and_eq_true, decide_eq_true_eq] at hok
  unfold PlanFields.read
  rw [jsonStr_of_get (hstr "name" (by decide) _ rfl) htexts.name,
    jsonStr_of_get (hstr "wan" (by decide) _ rfl) htexts.wan,
    jsonStr_of_get (hstr "method" (by decide) _ rfl) htexts.method,
    jsonStr_of_get (hstr "remark" (by decide) _ rfl) htexts.remark,
    jsonBool_of_get hbool,
    jsonInt_of_get (hint "interval_s" (by decide) _ rfl) (by omega),
    jsonInt_of_get (hint "timeout_ms" (by decide) _ rfl) (by omega),
    jsonInt_of_get (hint "loss_threshold_pct" (by decide) _ rfl) (by omega),
    jsonInt_of_get (hint "latency_threshold_ms" (by decide) _ rfl) (by omega),
    jsonInt_of_get (hint "fail_count" (by decide) _ rfl) (by omega),
    jsonInt_of_get (hint "recover_count" (by decide) _ rfl) (by omega)]

/-- Targets that are accepted are texts, which a print and a parse keep. -/
theorem targetsDistinct_respelled {earlier : List String} {xs ys : List (Json D)}
    (hxs : targetsDistinct earlier xs = true) (h : RespelledItems c xs ys) : ys = xs := by
  induction xs generalizing earlier ys with
  | nil =>
    cases ys with
    | nil => rfl
    | cons y ys => exact absurd h (by simp [RespelledItems])
  | cons x xs ih =>
    cases ys with
    | nil => exact absurd h (by simp [RespelledItems])
    | cons y ys =>
      obtain ⟨hxy, htail⟩ := h
      unfold targetsDistinct at hxs
      split at hxs
      · next s hs =>
        cases x with
        | str t => rw [Json.respelled_str.mp hxy, ih hxs htail]
        | _ => cases hs
      · cases hxs

/-! ### The plan -/

variable {existing : Option (Json D)} {body : Json D} {expectedRevision : ℤ}
variable {operation : String} {plan : Plan D}

/-- **`sla_plan` makes the plan it is given**, over the rule that the plan was made over. -/
theorem slaPlan_fixed (h : slaPlan c wanExists body operation existing expectedRevision = some plan)
    (ho : Gives c o plan.json) :
    slaPlan c wanExists o operation existing expectedRevision = some plan := by
  have hid : ∀ id, cstr id = id → plan.json.get "id" = some (.str id) → jsonStr o "id" "" = id := by
    intro id hcstr hget
    obtain ⟨w, hw, hv⟩ := ho "id" (by decide) _ hget
    exact jsonStr_of_get (hw.trans (congrArg some (Json.respelled_str.mp hv))) hcstr ""
  unfold slaPlan at h ⊢
  dsimp only at h ⊢
  split at h
  · obtain rfl := Option.some.inj h
    rw [hid _ (cstr_jsonStr body "id") rfl]
    exact if_pos ‹_›
  rename_i hop
  obtain ⟨targets, -, h⟩ := Option.bind_eq_some_iff.mp h
  obtain ⟨_, hguard, h⟩ := Option.bind_eq_some_iff.mp h
  obtain ⟨profile, hprofile, h⟩ := Option.bind_eq_some_iff.mp h
  obtain rfl := Option.some.inj h
  have hok := (Option.guard_eq_some' _).mp hguard
  simp only [Bool.and_eq_true] at hok
  obtain ⟨⟨-, hfields⟩, htargets⟩ := hok
  have hread := PlanFields.read_front ho
    (PlanFields.read_texts c body (PlanFields.fallback_texts c existing)) hfields
    (PlanFields.fallback c existing)
  have hitems : (slaTargets c o (getOf existing "targets")).bind Json.items = some targets := by
    obtain ⟨w, hw, hv⟩ := ho "targets" (by decide) _ rfl
    obtain ⟨ys, rfl, hys⟩ := Json.respelled_arr.mp hv
    simp only [targetsOk, Bool.and_eq_true] at htargets
    obtain rfl := targetsDistinct_respelled htargets.1.2 hys
    unfold slaTargets
    rw [(Json.member_of_get hw).1]
    rfl
  have hagain : profileNormalize c (some o) existing targets.length = some profile := by
    refine profileNormalize_fixed hprofile (.inr rfl) fun key hkey v hv => ?_
    refine ho key ?_ v ((Upsert.get_profile _ hkey).trans hv)
    rintro rfl
    exact absurd hkey (by decide)
  rw [if_neg hop, hid _ (cstr_jsonStr body "id") rfl, hread, hitems]
  simp only [Option.bind_eq_bind, Option.bind_some, hguard, hagain]
  rfl

/-- The members of a plan that say what it is about. -/
theorem slaPlan_names (h : slaPlan c wanExists body operation existing expectedRevision = some plan)
    (hop : operation = "upsert" ∨ operation = "delete") :
    plan.json.get "id" = some (.str (jsonStr body "id" "")) ∧
      plan.json.get "operation" = some (.str operation) := by
  rcases slaPlan_cases h with ⟨rfl, rfl⟩ | ⟨hne, u, rfl, hid, -⟩
  · exact ⟨rfl, rfl⟩
  · obtain rfl := hop.resolve_right hne
    rw [← hid]
    exact ⟨rfl, rfl⟩

/-! ### The preview -/

theorem cstr_of_idOk (h : idOk s = true) : cstr s = s := by
  simp only [idOk, Bool.and_eq_true, List.all_eq_true] at h
  have hall : s.toList.takeWhile (· ≠ '\x00') = s.toList := by
    rw [List.takeWhile_eq_self_iff]
    intro ch hch
    have hok := h.2 ch hch
    rw [decide_eq_true_eq]
    rintro rfl
    exact absurd hok (by decide)
  unfold cstr
  rw [hall, String.ofList_toList]

variable {p : Preview D} {env : Env D}

theorem previewExisting_names {id : String}
    (h : previewExisting c env body operation id expectedRevision existing = .ok p) :
    p.operation = operation ∧ p.resourceId = id ∧ p.expectedRevision = expectedRevision ∧
      p.planDigest = slaDigest c operation expectedRevision p.plan.json := by
  unfold previewExisting at h
  split at h
  · cases h
  split at h
  · cases h
  unfold previewPlan at h
  split at h
  · cases h
  split at h
  · cases h
  obtain rfl := Except.ok.inj h
  exact ⟨rfl, rfl, rfl, rfl⟩

variable {rows : Rows}

/-- What the checks of an accepted request leave for its plan. -/
theorem preview_inv (h : preview c env rows body = .ok p) :
    env.fails .previewSchema = false ∧ (p.operation = "upsert" ∨ p.operation = "delete") ∧
      ¬ (p.expectedRevision < 0 ∨ p.expectedRevision = 2 ^ 63 - 1) ∧
      idOk p.resourceId = true ∧
      ∃ named, jsonStr named "id" "" = p.resourceId ∧
        previewExisting c env named p.operation p.resourceId p.expectedRevision
          (slaLoad c (env.fails .loadExisting) rows p.resourceId) = .ok p := by
  unfold preview at h
  dsimp only at h
  split at h
  · cases h
  next hschema =>
  split at h
  · cases h
  next hop =>
  cases hrev : int64Required body "expected_revision" with
  | none =>
    rw [hrev] at h
    cases h
  | some expectedRevision =>
    rw [hrev] at h
    dsimp only at h
    split at h
    · cases h
    next hrange =>
    split at h
    · cases h
    next hid =>
    obtain ⟨hpo, hpi, hpr, -⟩ := previewExisting_names h
    simp only [Bool.not_eq_true', Bool.not_eq_false] at hid
    refine ⟨Bool.not_eq_true _ ▸ hschema, ?_, hpr ▸ hrange, hpi ▸ hid,
      (nameRequest env body (jsonStr body "operation" "upsert") expectedRevision).1, ?_, ?_⟩
    · rw [hpo]
      tauto
    · -- the id is the one of the body, or the new one, which was added to it
      rw [hpi]
      unfold nameRequest at hid ⊢
      split
      · rw [if_pos ‹_›] at hid
        cases body with
        | obj ms =>
          refine jsonStr_of_get (Json.get_of_member ?_ (by simp)) (cstr_of_idOk hid) ""
          show Json.lookup (Json.set ms "id" (.str env.newId)) "id" = _
          rw [Json.lookup_set, if_pos rfl]
        | _ => cases hrev
      · rfl
    · rw [hpo, hpi, hpr]
      exact h

/-- Two calls that find the same WANs and the same sampler, and whose reads fail alike. -/
structure Env.Agrees (env env' : Env D) : Prop where
  wanExists : env'.wanExists = env.wanExists
  shadowReady : env'.shadowReady = env.shadowReady
  schema : env'.fails .previewSchema = env.fails .previewSchema
  loadExisting : env'.fails .loadExisting = env.fails .loadExisting

variable {env' : Env D}

theorem previewExisting_again {named : Json D} {id : String}
    (h : previewExisting c env named operation id expectedRevision existing = .ok p)
    (henv : env.Agrees env') (ho : Gives c o p.plan.json) :
    ∃ p', previewExisting c env' o operation id expectedRevision existing = .ok p' ∧
      p'.plan = p.plan ∧ p'.planDigest = p.planDigest := by
  have hplan := previewExisting_ok h
  have hdigest := (previewExisting_names h).2.2.2
  have hagain : slaPlan c env'.wanExists o operation existing expectedRevision = some p.plan := by
    rw [henv.wanExists]
    exact slaPlan_fixed hplan ho
  unfold previewExisting at h ⊢
  split at h
  · cases h
  rw [if_neg ‹_›]
  split at h
  · cases h
  rw [if_neg ‹_›]
  unfold previewPlan at h ⊢
  rw [hplan] at h
  rw [hagain]
  dsimp only at h ⊢
  rw [henv.shadowReady]
  split at h
  · cases h
  rw [if_neg ‹_›]
  exact ⟨_, rfl, rfl, hdigest.symm⟩

/-! ### The commit -/

/-- A commit body that submits the plan of a preview: the plan behind a print and a parse, which is
    printed and parsed once more, with the digest and the revision of the preview. -/
structure Submits (c : JsonC D) (p : Preview D) (body : Json D) : Prop where
  digest : jsonStr body "plan_digest" "" = p.planDigest
  revision : int64Required body "expected_revision" = some p.expectedRevision
  plan : ∃ ms copy, body.get "plan" = some (.obj ms) ∧ Respelled c p.plan.json (.obj ms) ∧
    c.parse (c.print (.obj ms)) = some copy ∧ Respelled c (.obj ms) copy
  id : contradicts body "id" p.resourceId = false
  operation : contradicts body "operation" p.operation = false

theorem Plan.json_isObject (plan : Plan D) : ∃ ms, plan.json = .obj ms := by
  cases plan with
  | upsert u => exact ⟨_, rfl⟩
  | delete id => exact ⟨_, rfl⟩

theorem slaDigest_ne_empty (c : JsonC D) (operation : String) (revision : ℤ) (plan : Json D) :
    slaDigest c operation revision plan ≠ "" := by
  intro h
  have hlength : (slaDigest c operation revision plan).toList.length = 16 := by
    unfold slaDigest hex16
    dsimp only
    rw [String.toList_ofList, List.length_map, List.length_range]
  rw [h] at hlength
  cases hlength

/-- The request that a commit reads from such a body: the plan with the revision of the commit. -/
theorem readRequest_submits (h : preview c env rows body = .ok p) {submission : Json D}
    (hsubmits : Submits c p submission) :
    ∃ request, readRequest c submission = .ok request ∧ request.provided = p.planDigest ∧
      Gives c request.body p.plan.json ∧ jsonStr request.body "id" "" = p.resourceId ∧
      jsonStr request.body "operation" "upsert" = p.operation ∧
      int64Required request.body "expected_revision" = some p.expectedRevision := by
  obtain ⟨-, hop, -, hidOk, named, hname, hpreview⟩ := preview_inv h
  obtain ⟨hidGet, hopGet⟩ := slaPlan_names (previewExisting_ok hpreview) hop
  obtain ⟨ms, copy, hplan, hms, hparse, hcopy⟩ := hsubmits.plan
  have hcopy' := hms.trans hcopy
  obtain ⟨us, hus⟩ := p.plan.json_isObject
  obtain ⟨ns, rfl, -⟩ := Json.respelled_obj.mp (hus ▸ hcopy')
  obtain ⟨sent, hsent⟩ : ∃ sent : Json D,
      sent = (Json.obj ns).add "expected_revision" (.int p.expectedRevision) := ⟨_, rfl⟩
  have hgives : Gives c sent p.plan.json := by
    intro key hkey v hv
    rw [hsent, Json.get_add hkey.symm]
    exact hcopy'.get hv
  have hstr : ∀ key ≠ "expected_revision", ∀ s dflt, cstr s = s →
      p.plan.json.get key = some (.str s) → jsonStr sent key dflt = s := by
    intro key hkey s dflt hs hget
    obtain ⟨w, hw, hv⟩ := hgives key hkey _ hget
    exact jsonStr_of_get (hw.trans (congrArg some (Json.respelled_str.mp hv))) hs dflt
  have hid := hstr "id" (by decide) p.resourceId "" (cstr_of_idOk hidOk) (hname ▸ hidGet)
  have hoperation := hstr "operation" (by decide) p.operation "upsert"
    (by rcases hop with h | h <;> rw [h] <;> decide) hopGet
  have hrevision : int64Required sent "expected_revision" = some p.expectedRevision := by
    have hget : sent.get "expected_revision" = some (.int p.expectedRevision) := by
      refine Json.get_of_member ?_ (by simp)
      rw [hsent]
      show Json.lookup (Json.set ns _ _) _ = _
      rw [Json.lookup_set, if_pos rfl]
    unfold int64Required
    rw [hget]
  have hdigest := (previewExisting_names hpreview).2.2.2
  refine ⟨⟨p.planDigest, p.expectedRevision, .obj ms, sent, p.operation, p.resourceId⟩, ?_, rfl,
    hgives, hid, hoperation, hrevision⟩
  unfold readRequest
  rw [hsubmits.digest, if_neg (hdigest ▸ slaDigest_ne_empty c _ _ _), hsubmits.revision, hplan]
  dsimp only
  rw [hparse]
  dsimp only
  rw [← hsent, hoperation, hid, hsubmits.id, hsubmits.operation]
  rfl

/-- The preview of a request that gives a plan, over the rule the plan was made over. -/
theorem preview_again {rows' : Rows} (h : preview c env rows body = .ok p) (henv : env.Agrees env')
    (hrows : rows'.find p.resourceId = rows.find p.resourceId) {sent : Json D}
    (hgives : Gives c sent p.plan.json) (hid : jsonStr sent "id" "" = p.resourceId)
    (hoperation : jsonStr sent "operation" "upsert" = p.operation)
    (hrevision : int64Required sent "expected_revision" = some p.expectedRevision) :
    ∃ p', preview c env' rows' sent = .ok p' ∧ p'.plan = p.plan ∧ p'.planDigest = p.planDigest := by
  obtain ⟨hschema, hop, hrange, hidOk, named, -, hpreview⟩ := preview_inv h
  obtain ⟨p', hp', hsame⟩ := previewExisting_again hpreview henv hgives
  have hne : p.resourceId ≠ "" := by
    intro h
    rw [h] at hidOk
    exact absurd hidOk (by decide)
  have hload : slaLoad c (env'.fails .loadExisting) rows' p.resourceId
      = slaLoad c (env.fails .loadExisting) rows p.resourceId := by
    unfold slaLoad
    rw [henv.loadExisting, hrows]
  -- the plan has an id, so that no new one is made
  have hnamed : nameRequest env' sent p.operation p.expectedRevision = (sent, p.resourceId) := by
    unfold nameRequest
    rw [hid, if_neg fun h => hne h.1]
  refine ⟨p', ?_, hsame⟩
  unfold preview
  dsimp only
  rw [hoperation, henv.schema, hschema, hrevision]
  dsimp only
  rw [if_neg (by simp), if_neg (by tauto), if_neg hrange, hnamed]
  dsimp only
  rw [if_neg (by simp [hidOk]), hload]
  exact hp'

/-- **The plan of a preview is canonical.**  A profile that is accepted normalizes to itself, over
    no rule or over the rule it was made from.  And a commit that submits the plan of a preview,
    over the same stored rule, is previewed with the same plan and the digest it submits. -/
theorem canonical_fixed_point (c : JsonC D) :
    (∀ body existing n p, profileNormalize c body existing n = some p →
      ∀ o, Respelled c (.obj p.members) o → profileNormalize c (some o) none n = some p ∧
        profileNormalize c (some o) existing n = some p) ∧
    ∀ env rows body p, preview c env rows body = .ok p → ∀ env' rows' submission, env.Agrees env' →
        rows'.find p.resourceId = rows.find p.resourceId → Submits c p submission →
        ∃ request p', readRequest c submission = .ok request ∧
          preview c env' rows' request.body = .ok p' ∧ p'.plan = p.plan ∧
          p'.planDigest = p.planDigest ∧ request.provided = p'.planDigest := by
  constructor
  · intro body existing n p h o ho
    have hgives : ∀ key ∈ profileKeys, ∀ v, (Json.obj p.members).get key = some v →
        ∃ w, o.get key = some w ∧ Respelled c v w := fun key _ v hv => ho.get hv
    exact ⟨profileNormalize_fixed h (.inl rfl) hgives,
      profileNormalize_fixed h (.inr rfl) hgives⟩
  · intro env rows body p h env' rows' submission henv hrows hsubmits
    obtain ⟨request, hrequest, hprovided, hgives, hid, hoperation, hrevision⟩ :=
      readRequest_submits h hsubmits
    obtain ⟨p', hp', hplan, hdigest⟩ := preview_again h henv hrows hgives hid hoperation hrevision
    exact ⟨request, p', hrequest, hp', hplan, hdigest, hprovided.trans hdigest.symm⟩

/-! ### A plan whose thresholds became integers -/

mutual

theorem respelled_integral (docs : List (Json ℤ)) :
    ∀ j : Json ℤ, Respelled (library docs) j (integral j)
  | .null => Respelled.refl _
  | .bool _ => Respelled.refl _
  | .int _ => Respelled.refl _
  | .double _ => Json.respelled_double.mpr rfl
  | .str _ => Respelled.refl _
  | .arr xs => Json.respelled_arr.mpr ⟨_, by rw [integral], respelledItems_integral docs xs⟩
  | .obj ms => Json.respelled_obj.mpr ⟨_, by rw [integral], respelledMembers_integral docs ms⟩

theorem respelledItems_integral (docs : List (Json ℤ)) :
    ∀ xs : List (Json ℤ), RespelledItems (library docs) xs (integralItems xs)
  | [] => trivial
  | x :: xs => ⟨respelled_integral docs x, respelledItems_integral docs xs⟩

theorem respelledMembers_integral (docs : List (Json ℤ)) :
    ∀ ms : List (String × Json ℤ), RespelledMembers (library docs) ms (integralMembers ms)
  | [] => trivial
  | (_, v) :: ms => ⟨rfl, respelled_integral docs v, respelledMembers_integral docs ms⟩

end

/-- The library that parses the plan as the client sends it. -/
def libraryOfClient : JsonC ℤ := library [integral (newRule "").json]

/-- The request for a new rule that sets no more than it has to. -/
def newRuleBody : Json ℤ :=
  .obj [("id", .str "sla"), ("wan", .str "wan"), ("targets", .arr [.str "a"]),
    ("expected_revision", .int 0)]

/-- Its preview. -/
def newRulePreview : Preview ℤ where
  ready := true
  dryProbeRequired := false
  operation := "upsert"
  resourceId := "sla"
  expectedRevision := 0
  planDigest := slaDigest libraryOfClient "upsert" 0 (newRule "").json
  plan := .upsert (newRule "")

/-- The commit of the plan. -/
def newRuleSubmission : Json ℤ :=
  .obj [("plan_digest", .str newRulePreview.planDigest), ("expected_revision", .int 0),
    ("plan", integral (newRule "").json)]

theorem cstr_hex16 (n : ℕ) : cstr (hex16 n) = hex16 n := by
  have hall : (hex16 n).toList.takeWhile (· ≠ '\x00') = (hex16 n).toList := by
    rw [List.takeWhile_eq_self_iff]
    unfold hex16
    rw [String.toList_ofList]
    intro ch hch
    obtain ⟨i, -, rfl⟩ := List.mem_map.mp hch
    have hdigit : ∀ d < 16, Nat.digitChar d ≠ '\x00' := by decide
    exact decide_eq_true (hdigit _ (Nat.mod_lt _ (by decide)))
  unfold cstr
  rw [hall, String.ofList_toList]

theorem parse_print_head (j : Json ℤ) (docs : List (Json ℤ)) :
    (library (j :: docs)).parse ((library (j :: docs)).print j) = some j := by
  show (j :: docs).find? (fun d => decide (text "" d = text "" j)) = some j
  rw [List.find?_cons_of_pos (by rw [decide_eq_true_eq])]

theorem newRule_submits : Submits libraryOfClient newRulePreview newRuleSubmission where
  digest := cstr_hex16 _
  revision := rfl
  plan := by
    exact ⟨_, _, rfl, respelled_integral _ (newRule "").json, parse_print_head _ _,
      Respelled.refl _⟩
  id := rfl
  operation := rfl

/-- The plan of a new rule, from a client that writes `3.0` as `3`. -/
theorem canonical_fixed_point_integral :
    profileNormalize libraryOfClient (some (integral (.obj defaultProfile.members))) none 1
      = some defaultProfile ∧
    ∃ request p', readRequest libraryOfClient newRuleSubmission = .ok request ∧
      preview libraryOfClient calm .empty request.body = .ok p' ∧ p'.plan = .upsert (newRule "") ∧
      request.provided = p'.planDigest := by
  obtain ⟨hprofile, hpreview⟩ := canonical_fixed_point libraryOfClient
  refine ⟨(hprofile (some newRuleBody) none 1 defaultProfile rfl _ (respelled_integral _ _)).1, ?_⟩
  obtain ⟨request, p', hrequest, hp', hplan, -, hdigest⟩ := hpreview calm .empty newRuleBody
    newRulePreview rfl calm .empty newRuleSubmission ⟨rfl, rfl, rfl, rfl⟩ rfl newRule_submits
  exact ⟨request, p', hrequest, hp', hplan, hdigest⟩

end DreamingOS.WanSlaTx
