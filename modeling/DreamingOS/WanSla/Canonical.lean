import DreamingOS.WanSla.Commit

namespace DreamingOS.WanSlaTx

open List
open Option (bind_eq_bind bind_eq_some_iff bind_some)

open WanSla (Member integer maxTargets)

/-!
# WAN SLA configuration — canonical plans

A profile that `wan_sla_profile_normalize` makes is a fixed point, also behind a print and a parse
and over the rule it was made from: `sla_write_plan` normalizes the profile of a plan once more, and
what it stores is that profile.

* `intField_fixed`, `threshold_json`, … — every member of an accepted profile is read as it is;
* `profileNormalize_fixed` — an accepted profile normalizes to itself.
-/

variable {D : Type}

open Json (Respelled RespelledItems)

/-! ### Accepted profiles -/

/-- A threshold that `threshold` accepts. -/
structure Dimensions.Valid (c : JsonC D) (t : Dimensions D) : Prop where
  loss : dimension c (some t.json) none "loss_pct" 0 100 = some t.lossPct
  latency : dimension c (some t.json) none "latency_p95_ms" 0 600000 = some t.latencyP95Ms
  jitter : dimension c (some t.json) none "jitter_ms" 0 600000 = some t.jitterMs

variable {dflt lo hi v : ℤ}

theorem integer_range {m : Member} (h : integer m dflt lo hi = some v)
    (hdflt : lo ≤ dflt ∧ dflt ≤ hi) : lo ≤ v ∧ v ≤ hi := by
  cases m with
  | absent =>
    obtain rfl := Option.some.inj h
    exact hdflt
  | int n =>
    unfold integer at h
    dsimp only at h
    split at h
    · cases h
    · obtain rfl := Option.some.inj h
      omega
  | other => cases h

theorem integer_int {v dflt lo hi : ℤ} (h : lo ≤ v ∧ v ≤ hi) :
    integer (.int v) dflt lo hi = some v := by
  show (if v < lo ∨ v > hi then none else some v) = some v
  rw [if_neg (by omega)]

variable {body existing : Option (Json D)} {key : String}

theorem intField_range
    (h : intField body existing key dflt lo hi = some v) (hdflt : lo ≤ dflt ∧ dflt ≤ hi) :
    lo ≤ v ∧ v ≤ hi := by
  unfold intField at h
  obtain ⟨w, hw, hv⟩ := bind_eq_some_iff.mp h
  exact integer_range hv (integer_range hw hdflt)

variable {words : List String}

theorem wordField_mem {key dflt v : String} (h : wordField body existing key dflt words = some v)
    (hdflt : dflt ∈ words) : v ∈ words := by
  unfold wordField at h
  split at h
  · obtain rfl := Option.some.inj h
    exact hdflt
  · split at h
    · next hmem =>
      obtain rfl := Option.some.inj h
      exact hmem
    · cases h
  · cases h

variable {c : JsonC D} {prev : Option (Json D)}

/-- An accepted dimension is accepted once more. -/
theorem dimension_fixed {src : Option (Json D)} {dflt max : ℤ}
    {n : D} (h : dimension c src prev key dflt max = some n) {t : Json D}
    (ht : (t.get key).bind c.number = some n) (prev' : Option (Json D)) (dflt' : ℤ) :
    dimension c (some t) prev' key dflt' max = some n := by
  unfold dimension at h ⊢
  obtain ⟨-, hok⟩ := Option.filter_eq_some_iff.mp h
  have hraw : rawDimension c (some t) prev' key dflt' = some n := by
    obtain ⟨v, hv, hn⟩ := bind_eq_some_iff.mp ht
    unfold rawDimension
    rw [show getOf (some t) key = some v from hv]
    exact hn
  rw [hraw, Option.filter_some, if_pos hok]

variable {t : Dimensions D} {name : String}

theorem threshold_valid {source fallback : Option (Json D)} {loss latency jitter : ℤ}
    (h : threshold c source fallback name loss latency jitter = some t) : t.Valid c := by
  unfold threshold at h
  simp only [bind_eq_bind, bind_eq_some_iff] at h
  obtain ⟨-, -, a, ha, b, hb, d, hd, h⟩ := h
  obtain rfl := Option.some.inj h
  exact ⟨dimension_fixed ha rfl none 0, dimension_fixed hb rfl none 0,
    dimension_fixed hd rfl none 0⟩

/-- A valid threshold is read as itself, whatever the defaults are. -/
theorem threshold_json (h : t.Valid c) {o w : Json D}
    (ho : o.get name = some w) (hw : Respelled c t.json w)
    (prev : Option (Json D)) (loss latency jitter : ℤ) :
    threshold c (some o) prev name loss latency jitter = some t := by
  have hsrc : getOf (some o) name = some w := ho
  have hobj : (!(some w).any fun v => !v.isObject) = true := by
    obtain ⟨ns, rfl, -⟩ := Json.respelled_obj.mp hw
    rfl
  have hread : ∀ key d, t.json.get key = some (.double d) → (w.get key).bind c.number = some d := by
    intro key d hkey
    obtain ⟨v, hv, hd⟩ := hw.get hkey
    rw [hv]
    exact Json.respelled_double.mp hd
  unfold threshold
  rw [hsrc]
  simp only [hobj, guard_true, Option.pure_def, bind_eq_bind, bind_some,
    dimension_fixed h.loss (hread _ _ rfl), dimension_fixed h.latency (hread _ _ rfl),
    dimension_fixed h.jitter (hread _ _ rfl)]

/-! ### Status codes -/

variable {n : ℤ}

theorem mem_codeRange {k : ℕ} : n ∈ codeRange k ↔ 100 ≤ n ∧ n < k + 100 := by
  unfold codeRange
  rw [List.mem_map]
  constructor
  · rintro ⟨i, hi, rfl⟩
    rw [mem_range] at hi
    omega
  · intro hn
    exact ⟨(n - 100).toNat, mem_range.mpr (by omega), by omega⟩

theorem nodup_codeRange (k : ℕ) : (codeRange k).Nodup := by
  apply List.Nodup.map _ nodup_range
  intro i j hij
  have : (i : ℤ) + 100 = j + 100 := hij
  omega

variable {seen : List ℤ}

theorem mem_ascending : n ∈ ascending seen ↔ (100 ≤ n ∧ n ≤ 599) ∧ n ∈ seen := by
  have hlast : n < (500 : ℕ) + 100 ↔ n ≤ 599 := by omega
  unfold ascending
  rw [mem_filter, mem_codeRange, hlast, decide_eq_true_eq]

theorem nodup_ascending (seen : List ℤ) : (ascending seen).Nodup := (nodup_codeRange 500).filter _

variable {seen' : List ℤ}

theorem ascending_congr
    (h : ∀ n, 100 ≤ n → n ≤ 599 → (n ∈ seen ↔ n ∈ seen')) : ascending seen = ascending seen' := by
  unfold ascending
  apply filter_congr
  intro n hn
  obtain ⟨hlo, hhi⟩ := mem_codeRange.mp hn
  exact decide_eq_decide.mpr (h n hlo (by omega))

/-- The loop adds codes of the range, each of them once. -/
theorem statusCodes_spec {codes : List (Json D)}
    (h : statusCodes seen codes = some seen') (hseen : seen.Nodup) :
    seen'.Nodup ∧ seen'.length = seen.length + codes.length := by
  induction codes generalizing seen with
  | nil =>
    obtain rfl := Option.some.inj h
    exact ⟨hseen, rfl⟩
  | cons code codes ih =>
    cases code with
    | int n =>
      unfold statusCodes at h
      split at h
      · cases h
      rename_i hn
      obtain ⟨hnodup, hlen⟩ := ih h (nodup_cons.mpr ⟨fun hmem => hn (by simp [hmem]), hseen⟩)
      refine ⟨hnodup, ?_⟩
      rw [hlen, length_cons, length_cons]
      omega
    | _ => cases h

variable {codes : List ℤ}

/-- Codes of the range without repetition are read as they are. -/
theorem statusCodes_ints (hnodup : (codes ++ seen).Nodup)
    (hrange : ∀ n ∈ codes, 100 ≤ n ∧ n ≤ 599) :
    statusCodes (D := D) seen (codes.map .int) = some (codes.reverse ++ seen) := by
  induction codes generalizing seen with
  | nil => rfl
  | cons n codes ih =>
    rw [cons_append, nodup_cons, mem_append, not_or] at hnodup
    have hn := hrange n (by simp)
    show (if n < 100 ∨ n > 599 ∨ n ∈ seen then none else statusCodes (n :: seen) _) = _
    rw [if_neg (by simp only [hnodup.1.2, or_false]; omega), ih, reverse_cons, append_assoc]
    · rfl
    · rw [nodup_append_comm, cons_append, nodup_cons, mem_append, not_or]
      exact ⟨⟨hnodup.1.2, hnodup.1.1⟩, nodup_append_comm.mp hnodup.2⟩
    · intro m hm
      exact hrange m (mem_cons_of_mem _ hm)

variable {o : Json D}

/-- Codes in ascending order are read as they are. -/
theorem expectedStatus_fixed (h : expectedStatus body existing = some codes)
    (ho : o.get "expected_status" = some (.arr (codes.map .int))) (prev : Option (Json D)) :
    expectedStatus (some o) prev = some codes := by
  have hcodes : ascending codes = codes ∧ codes.length ≤ 16 := by
    unfold expectedStatus at h
    split at h
    · obtain rfl := Option.some.inj h
      refine ⟨?_, Nat.zero_le _⟩
      rw [ascending, filter_eq_nil_iff]
      simp
    · split at h
      · cases h
      rename_i hlen
      obtain ⟨seen, hseen, rfl⟩ := Option.map_eq_some_iff.mp h
      obtain ⟨hnodup, hlength⟩ := statusCodes_spec hseen nodup_nil
      constructor
      · apply ascending_congr
        intro n hlo hhi
        rw [mem_ascending]
        exact and_iff_right ⟨hlo, hhi⟩
      · have hsub : (ascending seen).Subperm seen :=
          subperm_of_subset (nodup_ascending seen) fun n hn => (mem_ascending.mp hn).2
        have := hsub.length_le
        simp only [length_nil] at hlength
        omega
    · cases h
  have hnodup : codes.Nodup := hcodes.1 ▸ nodup_ascending codes
  have hrange : ∀ n ∈ codes, 100 ≤ n ∧ n ≤ 599 := by
    intro n hn
    rw [← hcodes.1] at hn
    exact (mem_ascending.mp hn).1
  unfold expectedStatus
  rw [show getOf (some o) "expected_status" = _ from ho]
  show (if (codes.map Json.int).length > 16 then none else _) = _
  rw [length_map, if_neg (by omega), statusCodes_ints (by simpa using hnodup) hrange]
  have hread : ascending (codes.reverse ++ []) = ascending codes := by
    apply ascending_congr
    intro n _ _
    rw [append_nil, mem_reverse]
  show some (ascending (codes.reverse ++ [])) = some codes
  rw [hread, hcodes.1]

/-! ### Texts -/

theorem wordField_fixed {key dflt v : String} (h : wordField body existing key dflt words = some v)
    (hdflt : dflt ∈ words) (hwords : ∀ w ∈ words, cstr w = w)
    (ho : o.get key = some (.str v)) (prev : Option (Json D)) :
    wordField (some o) prev key dflt words = some v := by
  have hv := wordField_mem h hdflt
  unfold wordField
  rw [show getOf (some o) key = _ from ho]
  show (if cstr v ∈ words then some (cstr v) else none) = _
  rw [hwords v hv, if_pos hv]

theorem bodyMarker_fixed {v : String} (h : bodyMarker body existing = some v)
    (ho : o.get "body_marker" = some (.str v)) (prev : Option (Json D)) :
    bodyMarker (some o) prev = some v := by
  have hv : ¬ (v.utf8ByteSize > 256 ∨ cstr v ≠ v) := by
    unfold bodyMarker at h
    split at h
    · obtain rfl := Option.some.inj h
      decide
    · split at h
      · cases h
      · next hok =>
        obtain rfl := Option.some.inj h
        exact hok
    · cases h
  unfold bodyMarker
  rw [show getOf (some o) "body_marker" = _ from ho]
  show (if v.utf8ByteSize > 256 ∨ cstr v ≠ v then none else some v) = _
  rw [if_neg hv]

theorem dnsServers_fixed {v : String} (h : dnsServers body existing = some v)
    (ho : o.get "dns_servers" = some (.str v)) (prev : Option (Json D)) :
    dnsServers (some o) prev = some v := by
  have hv : ¬ (v.utf8ByteSize > 128 ∨ cstr v ≠ v) ∧ (v = "" ∨ dnsShape 0 v.toList) := by
    unfold dnsServers at h
    split at h
    · obtain rfl := Option.some.inj h
      decide
    · split at h
      · cases h
      rename_i hok
      split at h
      · next hshape =>
        obtain rfl := Option.some.inj h
        exact ⟨hok, hshape⟩
      · cases h
    · cases h
  unfold dnsServers
  rw [show getOf (some o) "dns_servers" = _ from ho]
  show (if v.utf8ByteSize > 128 ∨ cstr v ≠ v then none
    else if v = "" ∨ dnsShape 0 v.toList then some v else none) = _
  rw [if_neg hv.1, if_pos hv.2]

/-! ### The profile -/

/-- The names of the members of a profile. -/
def profileKeys : List String :=
  ["reliability", "window_s", "failure_interval_s", "recovery_interval_s", "cooldown_s",
    "profile_version", "profile", "action_mode", "aggregation", "degraded", "critical", "down",
    "expected_status", "body_marker", "dns_servers"]

theorem SlaProfile.members_keys (p : SlaProfile D) : p.members.map Prod.fst = profileKeys := rfl

theorem memberOf_int {v : ℤ} (h : o.get key = some (.int v)) : memberOf (some o) key = .int v := by
  unfold memberOf
  rw [show getOf (some o) key = _ from h]

/-- What the rule gives for a member it accepts, or the default where there is no rule. -/
theorem integer_prev {existing : Option (Json D)} {dflt lo hi w : ℤ}
    (h : integer (memberOf existing key) dflt lo hi = some w)
    (hprev : prev = none ∨ prev = existing) :
    ∃ w', integer (memberOf prev key) dflt lo hi = some w' := by
  rcases hprev with rfl | rfl
  · exact ⟨dflt, rfl⟩
  · exact ⟨w, h⟩

theorem intField_fixed {body existing : Option (Json D)}
    (h : intField body existing key dflt lo hi = some v)
    (hprev : prev = none ∨ prev = existing) (hdflt : lo ≤ dflt ∧ dflt ≤ hi)
    (ho : o.get key = some (.int v)) :
    intField (some o) prev key dflt lo hi = some v := by
  have hrange := intField_range h hdflt
  unfold intField at h ⊢
  obtain ⟨w, hw, -⟩ := bind_eq_some_iff.mp h
  obtain ⟨w', hw'⟩ := integer_prev hw hprev
  rw [hw', memberOf_int ho]
  show integer (.int v) w' lo hi = some v
  exact integer_int hrange

theorem RespelledItems.ints {ys : List (Json D)}
    (h : RespelledItems c (codes.map .int) ys) : ys = codes.map .int := by
  induction codes generalizing ys with
  | nil =>
    cases ys with
    | nil => rfl
    | cons y ys => exact absurd h (by simp [RespelledItems])
  | cons n codes ih =>
    cases ys with
    | nil => exact absurd h (by simp [RespelledItems])
    | cons y ys => rw [map_cons, Json.respelled_int.mp h.1, ih h.2]

/-- **An accepted profile normalizes to itself**, read from any object that has its members, over
    no rule or over the rule it was made from. -/
theorem profileNormalize_fixed {body existing : Option (Json D)} {n : ℕ}
    {p : SlaProfile D} (h : profileNormalize c body existing n = some p)
    (hprev : prev = none ∨ prev = existing)
    (ho : ∀ key ∈ profileKeys, ∀ v, (Json.obj p.members).get key = some v →
      ∃ w, o.get key = some w ∧ Respelled c v w) :
    profileNormalize c (some o) prev n = some p := by
  -- every member is read as the value that was accepted
  have hint : ∀ key ∈ profileKeys, ∀ v, (Json.obj p.members).get key = some (.int v) →
      o.get key = some (.int v) := by
    intro key hkey v hv
    obtain ⟨w, hw, hvw⟩ := ho key hkey _ hv
    rw [hw, Json.respelled_int.mp hvw]
  have hstr : ∀ key ∈ profileKeys, ∀ v, (Json.obj p.members).get key = some (.str v) →
      o.get key = some (.str v) := by
    intro key hkey v hv
    obtain ⟨w, hw, hvw⟩ := ho key hkey _ hv
    rw [hw, Json.respelled_str.mp hvw]
  unfold profileNormalize at h
  obtain ⟨_, hcount, h⟩ := bind_eq_some_iff.mp h
  obtain ⟨dflt, hdflt, h⟩ := bind_eq_some_iff.mp h
  obtain ⟨reliability, hreliability, h⟩ := bind_eq_some_iff.mp h
  obtain ⟨_, hle, h⟩ := bind_eq_some_iff.mp h
  obtain ⟨windowS, hwindow, h⟩ := bind_eq_some_iff.mp h
  obtain ⟨failureIntervalS, hfailure, h⟩ := bind_eq_some_iff.mp h
  obtain ⟨recoveryIntervalS, hrecovery, h⟩ := bind_eq_some_iff.mp h
  obtain ⟨cooldownS, hcooldown, h⟩ := bind_eq_some_iff.mp h
  obtain ⟨profileVersion, hversion, h⟩ := bind_eq_some_iff.mp h
  obtain ⟨profile, hprofile, h⟩ := bind_eq_some_iff.mp h
  obtain ⟨actionMode, haction, h⟩ := bind_eq_some_iff.mp h
  obtain ⟨aggregation, haggregation, h⟩ := bind_eq_some_iff.mp h
  obtain ⟨degraded, hdegraded, h⟩ := bind_eq_some_iff.mp h
  obtain ⟨critical, hcritical, h⟩ := bind_eq_some_iff.mp h
  obtain ⟨_, hordered, h⟩ := bind_eq_some_iff.mp h
  obtain ⟨_, hdown, h⟩ := bind_eq_some_iff.mp h
  obtain ⟨downLossPct, hloss, h⟩ := bind_eq_some_iff.mp h
  obtain ⟨codes, hcodes, h⟩ := bind_eq_some_iff.mp h
  obtain ⟨marker, hmarker, h⟩ := bind_eq_some_iff.mp h
  obtain ⟨dns, hdns, h⟩ := bind_eq_some_iff.mp h
  obtain rfl := Option.some.inj h
  have hbounds := (Option.guard_eq_some' _).mp hcount
  have hmid : (1 : ℤ) ≤ (n + 1) / 2 ∧ ((n : ℤ) + 1) / 2 ≤ maxTargets := by
    unfold maxTargets at hbounds ⊢
    omega
  obtain ⟨hlo, hhi⟩ : 1 ≤ reliability ∧ reliability ≤ n := by
    have hle' := (Option.guard_eq_some' _).mp hle
    cases hm : memberOf body "reliability" with
    | absent =>
      rw [hm] at hreliability
      obtain rfl := Option.some.inj hreliability
      exact ⟨(integer_range hdflt hmid).1, hle'⟩
    | int v =>
      rw [hm] at hreliability
      unfold integer at hreliability
      dsimp only at hreliability
      split at hreliability
      · cases hreliability
      · obtain rfl := Option.some.inj hreliability
        omega
    | other =>
      rw [hm] at hreliability
      cases hreliability
  have hversion' := integer_range hversion ⟨le_refl _, le_refl _⟩
  have hloss' := integer_range hloss ⟨le_refl _, le_refl _⟩
  obtain ⟨first, hfirst⟩ := integer_prev hdflt hprev
  obtain ⟨vd, hvd, hdegradedOf⟩ := ho "degraded" (by decide) _ rfl
  obtain ⟨vc, hvc, hcriticalOf⟩ := ho "critical" (by decide) _ rfl
  obtain ⟨vl, hvl, hdownOf⟩ := ho "down" (by decide) _ rfl
  obtain ⟨vs, hvs, hstatusOf⟩ := ho "expected_status" (by decide) _ rfl
  have hstatusGet : o.get "expected_status" = some (.arr (codes.map .int)) := by
    obtain ⟨ys, rfl, hys⟩ := Json.respelled_arr.mp hstatusOf
    rw [hvs, RespelledItems.ints hys]
  unfold profileNormalize
  simp only [hcount, hfirst, memberOf_int (hint "reliability" (by decide) _ rfl),
    integer_int ⟨hlo, hhi⟩, hle,
    intField_fixed hwindow hprev (by decide) (hint _ (by decide) _ rfl),
    intField_fixed hfailure hprev (by decide) (hint _ (by decide) _ rfl),
    intField_fixed hrecovery hprev (by decide) (hint _ (by decide) _ rfl),
    intField_fixed hcooldown hprev (by decide) (hint _ (by decide) _ rfl),
    memberOf_int (hint "profile_version" (by decide) _ rfl), integer_int hversion',
    wordField_fixed hprofile (by decide) (by decide) (hstr _ (by decide) _ rfl),
    wordField_fixed haction (by decide) (by decide) (hstr _ (by decide) _ rfl),
    wordField_fixed haggregation (by decide) (by decide) (hstr _ (by decide) _ rfl),
    threshold_json (threshold_valid hdegraded) hvd hdegradedOf,
    threshold_json (threshold_valid hcritical) hvc hcriticalOf, hordered,
    bind_eq_bind, bind_some]
  have hdownGet : (getOf (some o) "down").or (getOf prev "down") = some vl := by
    rw [show getOf (some o) "down" = _ from hvl]
    rfl
  have hobj : (!(some vl).any fun v => !v.isObject) = true := by
    obtain ⟨ns, rfl, -⟩ := Json.respelled_obj.mp hdownOf
    rfl
  have hlossOf : memberOf (some vl) "loss_pct" = .int downLossPct := by
    obtain ⟨w, hw, hloss⟩ := hdownOf.get (show Json.get _ "loss_pct" = _ from rfl)
    exact memberOf_int (hw.trans (congrArg some (Json.respelled_int.mp hloss)))
  simp only [hdownGet, hobj, hlossOf, integer_int hloss', expectedStatus_fixed hcodes hstatusGet,
    bodyMarker_fixed hmarker (hstr _ (by decide) _ rfl),
    dnsServers_fixed hdns (hstr _ (by decide) _ rfl), bind_some]
  rfl

/-! ### The plan -/

/-- The plan of an upsert has the members of its profile. -/
theorem Upsert.get_profile (u : Upsert D) (h : key ∈ profileKeys) :
    u.json.get key = (Json.obj u.profile.members).get key := by
  have hfront : ∀ key ∈ profileKeys, key ∉ u.front.map Prod.fst := by
    show ∀ key ∈ profileKeys, key ∉ ["operation", "id", "name", "enabled", "wan", "method",
      "targets", "interval_s", "timeout_ms", "loss_threshold_pct", "latency_threshold_ms",
      "fail_count", "recover_count", "remark", "expected_revision"]
    decide
  have hmember : u.json.member key = (Json.obj u.profile.members).member key := by
    show Json.lookup (u.front ++ u.profile.members) key = Json.lookup u.profile.members key
    rw [Json.lookup_append, Json.lookup_eq_none (hfront key h), Option.none_or]
  unfold Json.get
  rw [hmember]

theorem cstr_jsonStr (o : Json D) (key : String) : cstr (jsonStr o key "") = jsonStr o key "" := by
  unfold jsonStr
  split
  · exact cstr_cstr _
  · rfl

/-- What `sla_plan` makes of an operation. -/
theorem slaPlan_cases {wanExists : String → Bool} {body : Json D}
    {operation : String} {existing : Option (Json D)} {expectedRevision : ℤ} {plan : Plan D}
    (h : slaPlan c wanExists body operation existing expectedRevision = some plan) :
    (operation = "delete" ∧ plan = .delete (jsonStr body "id" "")) ∨
    (operation ≠ "delete" ∧ ∃ u, plan = .upsert u ∧ u.id = jsonStr body "id" "" ∧
      profileNormalize c (some u.json) none u.targets.length = some u.profile) := by
  unfold slaPlan at h
  dsimp only at h
  split at h
  · next hop => exact .inl ⟨hop, (Option.some.inj h).symm⟩
  rename_i hop
  obtain ⟨targets, -, h⟩ := bind_eq_some_iff.mp h
  obtain ⟨-, -, h⟩ := bind_eq_some_iff.mp h
  obtain ⟨profile, hprofile, h⟩ := bind_eq_some_iff.mp h
  refine .inr ⟨hop, _, (Option.some.inj h).symm, rfl, ?_⟩
  refine profileNormalize_fixed hprofile (.inl rfl) fun key hkey v hv => ?_
  exact ⟨v, (Upsert.get_profile _ hkey).trans hv, Respelled.refl v⟩

/-! ### The rule of a row -/

/-- The members of a loaded rule that its profile does not replace. -/
theorem load_member {c : JsonC D} {r : Row} {rule : Json D} (h : load c r = some rule)
    {key : String} (hkey : key ∉ profileKeys) :
    ∃ targets, rule.member key = Json.lookup (r.members targets) key := by
  unfold load at h
  obtain ⟨targets, -, h⟩ := bind_eq_some_iff.mp h
  obtain ⟨stored, -, h⟩ := bind_eq_some_iff.mp h
  obtain ⟨-, -, h⟩ := bind_eq_some_iff.mp h
  obtain ⟨profile, -, h⟩ := bind_eq_some_iff.mp h
  obtain rfl := Option.some.inj h
  refine ⟨targets, ?_⟩
  show Json.lookup (Json.setAll (r.members targets) profile.members) key = _
  exact Json.lookup_setAll (by rwa [profile.members_keys])

theorem load_id {r : Row} {rule : Json D} (h : load c r = some rule) :
    jsonStr rule "id" "" = cstr r.id := by
  obtain ⟨targets, hmember⟩ := @load_member _ c r rule h "id" (by decide)
  unfold jsonStr Json.get
  rw [hmember]
  rfl

end DreamingOS.WanSlaTx
