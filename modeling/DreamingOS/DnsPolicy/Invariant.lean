import DreamingOS.DnsPolicy.Effects
import DreamingOS.DnsPolicy.Reading

namespace DreamingOS.DnsPolicy

open List Option

/-!
# DNS policy — what the database may hold

* `DbOk` — leases of checked sessions, devices and rules, and exact rules with checked domains;
* `Reachable`, `dbOk_of_reachable` — the databases that the operations bring about;
* `lineOk_of_mem` — every line that is projected from such a database.
-/

/-! ### The invariant -/

/-- A name of a rule that is not one of a session. -/
structure NameOk (id : String) : Prop where
  field : Scan.Field id.toList
  length : id.toList.length ≤ 95

structure LeaseOk (l : Lease) : Prop where
  session : ident l.session = true
  mac : macOk l.mac = true ∨ (l.kind = .observe ∧ l.mac = "")
  ip : (Inet.isV4 l.ip.toList || Inet.isV6 l.ip.toList) = true
  expires : 0 < l.expires ∧ l.expires < 2 ^ 63
  rules : ∀ r ∈ l.document.rules, domainOk r.domain = true
  some : l.kind = .trial → l.document.rules ≠ []

structure OverrideOk (o : Override) : Prop where
  name : NameOk o.id
  domain : domainOk o.domain = true

structure DbOk (db : Db) : Prop where
  leases : ∀ l ∈ db.leases.rows, LeaseOk l
  overrides : ∀ o ∈ db.overrides.rows, OverrideOk o

variable {db db' : Db}

theorem DbOk.congr (h : DbOk db) (hleases : db'.leases = db.leases)
    (hoverrides : db'.overrides = db.overrides) : DbOk db' :=
  ⟨hleases ▸ h.leases, hoverrides ▸ h.overrides⟩

theorem DbOk.bump {db : Db} (h : DbOk db) : DbOk db.bump := h.congr rfl rfl

/-- Recording a request touches neither leases nor rules. -/
theorem record_eq {r : Stored} (h : db.record r = some db') :
    db'.leases = db.leases ∧ db'.overrides = db.overrides ∧ db'.policies = db.policies ∧
      db'.revision = db.revision := by
  unfold Db.record at h
  split at h
  · obtain rfl := some.inj h
    exact ⟨rfl, rfl, rfl, rfl⟩
  · cases h

variable {kind : LeaseKind}

theorem DbOk.removeLease {db : Db} {session : String} (h : DbOk db) :
    DbOk (db.removeLease session kind) :=
  ⟨fun l hl => h.leases l (mem_of_mem_filter hl), h.overrides⟩

variable {l : Lease}

/-- A renewed lease keeps its session and its device, so these stay checked. -/
theorem DbOk.putLease {db : Db} (h : DbOk db) (hl : LeaseOk l) : DbOk (db.putLease l) := by
  refine ⟨?_, h.overrides⟩
  intro l' hl'
  obtain ⟨hold, -⟩ | ⟨r, hr, hkey, rfl⟩ | ⟨-, rfl⟩ := Table.mem_upsert.mp hl'
  · exact h.leases l' hold
  · have hr := h.leases r hr
    have hkind : r.kind = l.kind := (Prod.mk.inj hkey).2
    exact ⟨hr.session, hr.mac, hr.ip, hl.expires, hl.rules, fun htrial =>
      hl.some (hkind ▸ htrial)⟩
  · exact hl

variable {mac policy : String}

theorem DbOk.putPolicy {db : Db} (h : DbOk db) : DbOk (db.putPolicy policy mac) := h.congr rfl rfl

theorem DbOk.putOverride {id domain : String} {action : RuleAction}
    (h : DbOk db) (hid : NameOk id) (hdomain : domainOk domain = true)
    (hput : db.putOverride id policy domain action = some db') : DbOk db' := by
  unfold Db.putOverride at hput
  split at hput
  · cases hput
  obtain rfl := some.inj hput
  refine ⟨h.leases, ?_⟩
  intro o' ho'
  obtain ⟨hold, -⟩ | ⟨o, ho, -, rfl⟩ | ⟨-, rfl⟩ := Table.mem_upsert.mp ho'
  · exact h.overrides o' hold
  · exact ⟨(h.overrides o ho).name, (h.overrides o ho).domain⟩
  · exact ⟨hid, hdomain⟩

/-- The name of a rule is that of its row, or a new one. -/
theorem nameOk_ruleId {db : Db} (h : DbOk db) (mac : String) (r : Rule) :
    NameOk (ruleId db mac r) := by
  unfold ruleId
  split
  · next o ho =>
    have hname := (h.overrides o (mem_of_find?_eq_some ho)).name
    rw [take_of_length_le hname.length, String.ofList_toList]
    exact hname
  · obtain ⟨hfield, hlen⟩ := ids_field mac r.domain
    exact ⟨hfield, by omega⟩

theorem DbOk.putRules {rules : List (Rule × String)} (h : DbOk db)
    (hrules : ∀ x ∈ rules, domainOk x.1.domain = true ∧ NameOk x.2)
    (hput : putRules policy db rules = some db') : DbOk db' := by
  induction rules generalizing db with
  | nil =>
    obtain rfl := some.inj hput
    exact h
  | cons x rules ih =>
    obtain ⟨r, id⟩ := x
    unfold DnsPolicy.putRules at hput
    split at hput
    · next db₁ h₁ =>
      obtain ⟨hdomain, hname⟩ := hrules (r, id) mem_cons_self
      exact ih (h.putOverride hname hdomain h₁) (fun y hy => hrules y (mem_cons_of_mem _ hy))
        hput
    · cases hput

variable {b : Request} {rules : List Rule}

theorem DbOk.commitRules (h : DbOk db) (hrules : ∀ r ∈ rules, domainOk r.domain = true)
    (hcommit : commitRules db b (previewRules db b rules) = some db') : DbOk db' := by
  have hnamed : ∀ x ∈ previewRules db b rules, domainOk x.1.domain = true ∧ NameOk x.2 := by
    intro x hx
    obtain ⟨r, hr, rfl⟩ := List.mem_map.mp hx
    exact ⟨hrules r hr, nameOk_ruleId h b.ruleMac r⟩
  unfold DnsPolicy.commitRules at hcommit
  dsimp only at hcommit
  split at hcommit
  · exact h.putRules hnamed hcommit
  · exact h.putPolicy.putRules hnamed hcommit

variable {e : Env}

/-- A lease that is taken is that of a checked request. -/
theorem DbOk.takeLease {document : Document} (h : DbOk db) (hsession : ident b.sessionId = true)
    (hmac : macOk b.deviceId = true ∨ (kind = .observe ∧ b.deviceId = ""))
    (hip : (Inet.isV4 b.deviceIp.toList || Inet.isV6 b.deviceIp.toList) = true)
    (hrules : ∀ r ∈ rules, domainOk r.domain = true) (hsome : kind = .trial → rules ≠ [])
    (htake : takeLease e db kind b rules = .ok (db', document)) : DbOk db' := by
  obtain ⟨hmin, hmax, -, -, rfl, rfl⟩ := takeLease_ok htake
  have hnow := e.now_lt
  apply h.putLease
  exact ⟨hsession, hmac, hip, ⟨by dsimp only; omega, by dsimp only; omega⟩, hrules, hsome⟩

variable {op : Operation}

/-- The changes of an operation keep the invariant. -/
theorem DbOk.effect {answer : ℕ → Response}
    (h : DbOk db) (hsession : ident b.sessionId = true) (heffect : Effect e db b op db' answer) :
    DbOk db' := by
  cases heffect with
  | observe _ document hdevice htake =>
    obtain ⟨hmac, hip⟩ := checkDevice_observe hdevice
    refine h.takeLease hsession ?_ hip (fun r hr => absurd hr not_mem_nil)
      (fun hkind => by cases hkind) htake
    exact hmac.elim (fun hnone => .inr ⟨rfl, hnone⟩) fun hsome => .inl hsome.1
  | replace rules _ document hdevice hrules htake =>
    obtain ⟨hmac, htarget⟩ := checkDevice_replace hdevice
    have hnorm := checkRules_ok hrules
    exact h.takeLease hsession (.inl hmac) (isAddress_of_targetValid htarget)
      (normalizeRules_ok hnorm) (fun _ => normalizeRules_ne_nil hnorm) htake
  | commit rules _ hdevice hrules hcommit =>
    exact h.commitRules (normalizeRules_ok (checkRules_ok hrules)) hcommit
  | revoke => exact h.removeLease
  | stop => exact h.removeLease

variable {snap : Option (List Char)}

theorem DbOk.handleTx {r : Response} (h : DbOk db) (hsession : ident b.sessionId = true)
    (htx : handleTx e snap db op b = .ok (db', r)) : DbOk db' := by
  obtain ⟨-, -, -, -, db₁, answer, heffect, -, hrec⟩ := handleTx_ok htx
  obtain ⟨hleases, hoverrides, -⟩ := record_eq hrec
  exact (h.effect hsession heffect).bump.congr hleases hoverrides

/-- An edit stores a checked domain. -/
theorem DbOk.canonicalTx {b : Edit} (h : DbOk db)
    (htx : canonicalTx e snap db b = some db') : DbOk db' := by
  unfold DnsPolicy.canonicalTx at htx
  split at htx
  · cases htx
  split at htx
  · unfold Db.deleteOverride at htx
    split at htx
    · obtain rfl := some.inj htx
      exact ⟨h.leases, fun o ho => h.overrides o (mem_of_mem_filter ho)⟩
    · cases htx
  · split at htx
    · split at htx
      · next hdomain =>
        unfold Db.editOverride at htx
        split at htx
        · obtain rfl := some.inj htx
          refine ⟨h.leases, ?_⟩
          intro o' ho'
          obtain ⟨o, ho, rfl⟩ := List.mem_map.mp ho'
          have hold := h.overrides o ho
          dsimp only
          split
          · exact ⟨hold.name, hdomain⟩
          · exact hold
        · cases htx
      · cases htx
    · cases htx

theorem DbOk.reconcileTx {db : Db} {restart : Bool} (h : DbOk db) :
    DbOk (DnsPolicy.reconcileTx e db restart) := by
  have hleases : ∀ l ∈ (DnsPolicy.reconcileTx e db restart).leases.rows, l ∈ db.leases.rows := by
    intro l hl
    unfold DnsPolicy.reconcileTx at hl
    dsimp only at hl
    split at hl <;> split at hl <;> exact mem_of_mem_filter hl
  have hoverrides : (DnsPolicy.reconcileTx e db restart).overrides = db.overrides := by
    unfold DnsPolicy.reconcileTx
    dsimp only
    split <;> split <;> rfl
  exact ⟨fun l hl => h.leases l (hleases l hl), hoverrides ▸ h.overrides⟩

/-! ### Reachable databases -/

/-- The database when the provider starts: no leases, and the rules of the content editor. -/
structure Db.Initial (db : Db) : Prop where
  leases : db.leases.rows = []
  overrides : ∀ o ∈ db.overrides.rows, OverrideOk o

/-- The database states that the operations bring about, committed or still to be projected; a
    revision is a number of 64 bits. -/
inductive Reachable : Db → Prop
  | initial (db : Db) (h : db.Initial) (hrev : db.revision < 2 ^ 63) : Reachable db
  | handle (e : Env) (snap : Option (List Char)) (db db' : Db) (op : Operation) (b : Request)
      (r : Response) (h : Reachable db) (hsession : ident b.sessionId = true)
      (htx : handleTx e snap db op b = .ok (db', r)) (hrev : db'.revision < 2 ^ 63) : Reachable db'
  | canonical (e : Env) (snap : Option (List Char)) (db db' : Db) (b : Edit) (h : Reachable db)
      (htx : canonicalTx e snap db b = some db') (hrev : db'.revision < 2 ^ 63) : Reachable db'
  | reconcile (e : Env) (db : Db) (restart : Bool) (h : Reachable db)
      (hrev : (reconcileTx e db restart).revision < 2 ^ 63) : Reachable (reconcileTx e db restart)

theorem dbOk_of_reachable {db : Db} (h : Reachable db) : DbOk db ∧ db.revision < 2 ^ 63 := by
  induction h with
  | initial db h hrev =>
    exact ⟨⟨fun l hl => absurd (h.leases ▸ hl) not_mem_nil, h.overrides⟩, hrev⟩
  | handle e snap db db' op b r _ hsession htx hrev ih => exact ⟨ih.1.handleTx hsession htx, hrev⟩
  | canonical e snap db db' b _ htx hrev ih => exact ⟨ih.1.canonicalTx htx, hrev⟩
  | reconcile e db restart _ hrev ih => exact ⟨ih.1.reconcileTx, hrev⟩

/-! ### Projected lines -/

/-- The results of a fallible function on a list. -/
theorem mem_mapM {α β : Type} {f : α → Option β} {as : List α} {bs : List β}
    (h : as.mapM f = some bs) (y : β) : y ∈ bs ↔ ∃ a ∈ as, f a = some y := by
  induction as generalizing bs with
  | nil =>
    obtain rfl := some.inj h
    simp
  | cons a as ih =>
    rw [mapM_cons] at h
    obtain ⟨b, hb, h⟩ := bind_eq_some_iff.mp h
    obtain ⟨bs', hbs', h⟩ := bind_eq_some_iff.mp h
    obtain rfl := some.inj h
    rw [mem_cons, ih hbs']
    constructor
    · rintro (rfl | ⟨x, hx, hf⟩)
      · exact ⟨a, mem_cons_self, hb⟩
      · exact ⟨x, mem_cons_of_mem _ hx, hf⟩
    · rintro ⟨x, hx, hf⟩
      rw [mem_cons] at hx
      obtain rfl | hx := hx
      · rw [hb] at hf
        exact .inl (some.inj hf).symm
      · exact .inr ⟨x, hx, hf⟩

variable {lines : List Line}
variable {now : ℕ}

/-- **What is projected**: the lines of the unexpired leases, and those of the exact rules in
    force. -/
theorem mem_projectLines {db : Db} (h : db.projectLines now = some lines) (l : Line) : l ∈ lines ↔
      (∃ x ∈ db.leases.rows, now < x.expires ∧ l ∈ x.lines) ∨
        ∃ o ∈ db.overrides.rows, db.inForce o = true ∧ ∃ ls, db.overrideLines o = some ls ∧ l ∈ ls := by
  unfold Db.projectLines at h
  dsimp only at h
  split at h
  · cases h
  rename_i parts hparts
  split at h
  · cases h
  obtain rfl := some.inj h
  rw [mem_append, mem_flatMap, mem_flatten]
  apply or_congr
  · simp [and_assoc]
  · constructor
    · rintro ⟨ls, hls, hl⟩
      obtain ⟨o, ho, hlines⟩ := (mem_mapM hparts ls).mp hls
      rw [mem_mergeSort, mem_filter] at ho
      exact ⟨o, ho.1, ho.2, ls, hlines, hl⟩
    · rintro ⟨o, ho, hforce, ls, hlines, hl⟩
      refine ⟨ls, (mem_mapM hparts ls).mpr ⟨o, ?_, hlines⟩, hl⟩
      rw [mem_mergeSort, mem_filter]
      exact ⟨ho, hforce⟩

variable {o : Override}

/-- A rule in force has lines, or nothing is projected. -/
theorem overrideLines_isSome {db : Db}
    (h : db.projectLines now = some lines) (ho : o ∈ db.overrides.rows)
    (hforce : db.inForce o = true) : ∃ ls, db.overrideLines o = some ls := by
  unfold Db.projectLines at h
  dsimp only at h
  split at h
  · cases h
  rename_i parts hparts
  cases hlines : db.overrideLines o with
  | some ls => exact ⟨ls, rfl⟩
  | none =>
    have hmem : o ∈ (db.overrides.rows.filter db.inForce).mergeSort fun a b => a.id ≤ b.id := by
      rw [mem_mergeSort, mem_filter]
      exact ⟨ho, hforce⟩
    have hnone : ∀ (os : List Override) (ps : List (List Line)), o ∈ os →
        os.mapM db.overrideLines ≠ some ps := by
      intro os
      induction os with
      | nil => nofun
      | cons x os ih =>
        intro ps hx hps
        rw [mapM_cons] at hps
        obtain ⟨b, hb, hps⟩ := bind_eq_some_iff.mp hps
        obtain ⟨bs, hbs, -⟩ := bind_eq_some_iff.mp hps
        rw [mem_cons] at hx
        obtain rfl | hx := hx
        · rw [hlines] at hb
          cases hb
        · exact ih bs hx hbs
    exact absurd hparts (hnone _ _ hmem)

theorem length_projectLines {db : Db}
    (h : db.projectLines now = some lines) : lines.length ≤ DWP_MAX_ROWS := by
  unfold Db.projectLines at h
  dsimp only at h
  split at h
  · cases h
  split at h
  · cases h
  · next hle =>
    obtain rfl := some.inj h
    exact Nat.le_of_not_lt hle

/-! ### Their form -/

theorem field_asterisk : Scan.Field ['*'] := ⟨by decide, Scan.solid_of_all (by decide)⟩

variable {s : String}

theorem field_star (h : ∀ c ∈ s.toList, Scan.isSpace c = false) : Scan.Field (star s) := by
  unfold star
  split
  · exact field_asterisk
  · next hne => exact ⟨toList_ne_nil hne, h⟩

theorem length_star {n : ℕ} (hn : 0 < n) (h : s.toList.length ≤ n) : (star s).length ≤ n := by
  unfold star
  split
  · exact hn
  · exact h

theorem address_chars (h : (Inet.isV4 s.toList || Inet.isV6 s.toList) = true) :
    s.toList.length ≤ 63 ∧ s.toList ≠ [] ∧ ∀ c ∈ s.toList, Inet.IsAddrChar c := by
  obtain h4 | h6 := Bool.or_eq_true _ _ ▸ h
  · exact Inet.isV4_chars h4
  · exact Inet.isV6_chars h6

theorem mac_chars (h : LeaseOk l) :
    l.mac.toList.length ≤ 17 ∧ ∀ c ∈ l.mac.toList, Scan.isSpace c = false := by
  obtain hmac | ⟨-, hnone⟩ := h.mac
  · obtain ⟨hfield, hlen, -⟩ := macOk_field hmac
    exact ⟨by omega, hfield.solid⟩
  · rw [hnone]
    exact ⟨by decide, Scan.solid_of_all (by decide)⟩

theorem actionChar_cases (a : RuleAction) : actionChar a = 'B' ∨ actionChar a = 'A' := by
  cases a
  · exact .inl rfl
  · exact .inr rfl

theorem lineOk_lease {x : Lease} (h : LeaseOk x) {l : Line} (hl : l ∈ x.lines) : LineOk l := by
  obtain ⟨hid, hidlen⟩ := ident_field h.session
  obtain ⟨hmaclen, hmac⟩ := mac_chars h
  obtain ⟨hiplen, -, hip⟩ := address_chars h.ip
  have hipfield : Scan.Field (star x.ip) := field_star fun c hc => (hip c hc).solid
  unfold Lease.lines at hl
  split at hl
  · next hkind =>
    rw [mem_singleton] at hl
    subst hl
    exact
      { kind := Or.inr rfl, id := hid, idLength := hidlen, mac := field_star hmac
        macLength := length_star (by decide) hmaclen, ip := hipfield
        ipLength := length_star (by decide) hiplen, expires := h.expires.2
        action := Or.inr ⟨rfl, rfl⟩, matching := Or.inr ⟨rfl, rfl⟩
        domain := field_asterisk, domainLength := Nat.succ_le_succ (Nat.zero_le _) }
  · obtain ⟨r, hr, rfl⟩ := List.mem_map.mp hl
    obtain ⟨hdomain, hdomainlen⟩ := domainOk_field (h.rules r hr)
    exact
      { kind := Or.inl rfl, id := hid, idLength := hidlen, mac := field_star hmac
        macLength := length_star (by decide) hmaclen, ip := hipfield
        ipLength := length_star (by decide) hiplen, expires := h.expires.2
        action := Or.inl (actionChar_cases r.action), matching := Or.inl rfl
        domain := field_star hdomain.solid
        domainLength := length_star (by decide) hdomainlen }

theorem lineOk_override (h : OverrideOk o)
    (hmac : mac = "*" ∨ macOk mac = true) : LineOk (o.line mac) := by
  obtain ⟨hdomain, hdomainlen⟩ := domainOk_field h.domain
  have hchars : mac.toList.length ≤ 17 ∧ ∀ c ∈ mac.toList, Scan.isSpace c = false := by
    obtain rfl | hmac := hmac
    · exact ⟨by decide, Scan.solid_of_all (by decide)⟩
    · obtain ⟨hfield, hlen, -⟩ := macOk_field hmac
      exact ⟨by omega, hfield.solid⟩
  have hnamelen := h.name.length
  exact
    { kind := Or.inl rfl, id := h.name.field, idLength := Nat.le_trans hnamelen (by decide)
      mac := field_star hchars.2, macLength := length_star (by decide) hchars.1
      ip := field_asterisk, ipLength := Nat.succ_le_succ (Nat.zero_le _)
      expires := Nat.pow_pos (by decide : 0 < 2)
      action := Or.inl (actionChar_cases o.action), matching := Or.inl rfl
      domain := field_star hdomain.solid, domainLength := length_star (by decide) hdomainlen }

/-- The lines of a rule are for all, or for the devices of its scope. -/
theorem mem_overrideLines {db : Db} {ls : List Line}
    (h : db.overrideLines o = some ls) {l : Line} (hl : l ∈ ls) :
    ∃ mac, (mac = "*" ∨ macOk mac = true) ∧ l = o.line mac := by
  unfold Db.overrideLines at h
  dsimp only at h
  split at h
  · obtain rfl := some.inj h
    exact ⟨"*", .inl rfl, mem_singleton.mp hl⟩
  split at h
  · split at h
    · next hall =>
      obtain rfl := some.inj h
      obtain ⟨mac, hmac, rfl⟩ := List.mem_map.mp hl
      exact ⟨mac, .inr (List.all_eq_true.mp hall mac hmac), rfl⟩
    · cases h
  · cases h

/-- Every line that is projected has the form that the resolver expects, but for the length of its
    name. -/
theorem lineOk_of_mem {db : Db} (hdb : DbOk db)
    (h : db.projectLines now = some lines) : ∀ l ∈ lines, LineOk l := by
  intro l hl
  obtain ⟨x, hx, -, hlx⟩ | ⟨o, ho, -, ls, hls, hlo⟩ := (mem_projectLines h l).mp hl
  · exact lineOk_lease (hdb.leases x hx) hlx
  · obtain ⟨mac, hmac, rfl⟩ := mem_overrideLines hls hlo
    exact lineOk_override (hdb.overrides o ho) hmac

end DreamingOS.DnsPolicy
