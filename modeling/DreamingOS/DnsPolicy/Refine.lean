import DreamingOS.DnsPolicy.Invariant
import Mathlib.Data.Prod.Lex

namespace DreamingOS.DnsPolicy

open List Option

/-!
# DNS policy — the projection refines the rule database

* `PolicyRule`, `PolicyRule.rank` — a rule of the database, and the order among rules;
* `Db.Active` — the rules that hold at a time, read off the tables;
* `Decides` — the action of a rule of the highest rank, or none;
* `projection_refines_iff` — the resolver decides so on the projected file, exactly when the names of
  the leases fit into its rows.
-/

/-! ### Rules and their order -/

/-- A rule: for a device or for all, at one address or at any. -/
structure PolicyRule where
  (device address : Option String)
  temporary : Bool
  domain : String
  exact : Bool
  action : RuleAction

def PolicyRule.Targets (r : PolicyRule) (client : Client) : Prop :=
  (∀ ip ∈ r.address, ip.toList = client.ip) ∧
    ∀ mac ∈ r.device, client.mac ≠ [] ∧ strcaseeq mac.toList client.mac = true

def PolicyRule.Matches (r : PolicyRule) (name : List Char) : Prop :=
  strcaseeq name r.domain.toList = true ∨
    (r.exact = false ∧ ∃ front, name = front ++ '.' :: name.drop (front.length + 1) ∧
      strcaseeq (name.drop (front.length + 1)) r.domain.toList = true)

/-- Device over global, temporary over permanent, longer names over shorter ones, exact over
    suffix, in this order. -/
def PolicyRule.rank (r : PolicyRule) : ℕ ×ₗ ℕ ×ₗ ℕ ×ₗ ℕ :=
  toLex (if r.device.isSome then 1 else 0, toLex (if r.temporary then 1 else 0,
    toLex (r.domain.toList.length, if r.exact then 1 else 0)))

/-- The devices that a permanent rule is for; `none` stands for all. -/
def Db.InScope (db : Db) (o : Override) (device : Option String) : Prop :=
  let scope := ((db.policyOf o).map Policy.scope).getD ⟨"", []⟩
  ((scope.type = "" ∨ scope.type = "all") ∧ device = none) ∨
    (scope.type = "devices" ∧ ∃ mac ∈ scope.devices, device = some mac)

/-- The rules of this provider that hold at the time `t`: those of unexpired trials, and the exact
    ones that are enabled. -/
def Db.Active (db : Db) (t : ℕ) (r : PolicyRule) : Prop :=
  (∃ x ∈ db.leases.rows, x.kind = .trial ∧ t < x.expires ∧
      ∃ q ∈ x.document.rules, r = ⟨some x.mac, some x.ip, true, q.domain, true, q.action⟩) ∨
    ∃ o ∈ db.overrides.rows, o.exact = true ∧ o.enabled = 1 ∧
      (o.policyId = "" ∨ ∃ p, db.policyOf o = some p ∧ p.enabled = 1 ∧ p.mode ≠ "off") ∧
      ∃ device, db.InScope o device ∧ r = ⟨device, none, false, o.domain, true, o.action⟩

/-- The decision on a query by the rules that hold. -/
def Decides (active : PolicyRule → Prop) (client : Client) (name : List Char) :
    Option RuleAction → Prop
  | none => ∀ r, active r → ¬ (r.Targets client ∧ r.Matches name)
  | some a => ∃ r, active r ∧ r.Targets client ∧ r.Matches name ∧ r.action = a ∧
      ∀ x, active x → x.Targets client → x.Matches name → x.rank ≤ r.rank

/-! ### Lines that show a rule -/

/-- A line shows a rule. -/
structure Shows (l : Line) (r : PolicyRule) : Prop where
  kind : l.kind = 'R'
  mac : l.mac = (r.device.map String.toList).getD ['*']
  device : ∀ mac ∈ r.device, mac.toList ≠ ['*']
  ip : l.ip = (r.address.map String.toList).getD ['*']
  address : ∀ ip ∈ r.address, ip.toList ≠ ['*']
  expires : l.expires ≠ 0 ↔ r.temporary = true
  domain : l.domain = r.domain.toList
  domainLength : r.domain.toList.length ≤ 253
  action : l.action = actionChar r.action
  matching : l.matching = 'E'
  exact : r.exact = true

variable {l : Line} {r : PolicyRule} {client : Client}

theorem Shows.targets (h : Shows l r) {t : ℕ} (hlive : l.expires = 0 ∨ t < l.expires) :
    dwpTarget l client t = true ↔ r.Targets client := by
  have hexpired : ¬ (l.expires ≠ 0 ∧ l.expires ≤ t) := by omega
  unfold dwpTarget PolicyRule.Targets
  rw [if_neg hexpired, h.ip, h.mac]
  have hip : ((r.address.map String.toList).getD ['*'] ≠ ['*'] ∧
      (r.address.map String.toList).getD ['*'] ≠ client.ip) ↔
        ¬ ∀ ip ∈ r.address, ip.toList = client.ip := by
    have hne := h.address
    generalize r.address = address at hne ⊢
    cases address with
    | none => simp
    | some ip => simp [hne ip rfl]
  have hmac : ((r.device.map String.toList).getD ['*'] = ['*'] ∨
      (client.mac ≠ [] ∧ strcaseeq ((r.device.map String.toList).getD ['*']) client.mac = true)) ↔
        ∀ mac ∈ r.device, client.mac ≠ [] ∧ strcaseeq mac.toList client.mac = true := by
    have hne := h.device
    generalize r.device = device at hne ⊢
    cases device with
    | none => simp
    | some mac => simp [hne mac rfl]
  by_cases hall : ∀ ip ∈ r.address, ip.toList = client.ip
  · rw [if_neg (by rw [hip]; exact not_not.mpr hall), and_iff_right hall, ← hmac]
    simp
  · rw [if_pos (hip.mpr hall)]
    exact iff_of_false Bool.false_ne_true fun hboth => hall hboth.1

variable {name : List Char}

theorem Shows.matches (h : Shows l r) : dwpMatch l name = true ↔ r.Matches name := by
  unfold dwpMatch PolicyRule.Matches
  rw [h.domain, h.matching, h.exact]
  simp

theorem Shows.action_eq (h : Shows l r) : rowAction l = r.action := by
  unfold rowAction
  rw [h.action]
  cases r.action <;> rfl

theorem Shows.candidate_eq (h : Shows l r) :
    candidate l = (if r.device.isSome then 10000 else 0) + (if r.temporary then 1000 else 0) +
      r.domain.toList.length * 2 + 1 := by
  have hmac : l.mac ≠ ['*'] ↔ r.device.isSome = true := by
    have hne := h.device
    rw [h.mac]
    generalize r.device = device at hne ⊢
    cases device with
    | none => simp
    | some mac => simp [hne mac rfl]
  unfold candidate
  rw [h.domain, h.matching, if_pos rfl]
  simp only [hmac, h.expires]

/-- **One number for four criteria**: it orders the rows as the ranks do. -/
theorem rank_le_of_candidate {l' : Line} {r' : PolicyRule} (h : Shows l r) (h' : Shows l' r')
    (hle : candidate l ≤ candidate l') : r.rank ≤ r'.rank := by
  rw [h.candidate_eq, h'.candidate_eq] at hle
  have hlen := h.domainLength
  have hlen' := h'.domainLength
  unfold PolicyRule.rank
  rw [h.exact, h'.exact, if_pos rfl]
  simp only [Prod.Lex.toLex_le_toLex]
  cases hd : r.device.isSome <;> cases hd' : r'.device.isSome <;> cases ht : r.temporary <;>
    cases ht' : r'.temporary <;> simp only [hd, hd', ht, ht', Bool.false_eq_true, if_true,
      if_false, true_and] at hle ⊢ <;> omega

/-! ### The lines and the rules -/

variable {s : String}

theorem star_of_ne (h : s ≠ "") : star s = s.toList := if_neg h

theorem toList_asterisk (h : ∀ c ∈ s.toList, Inet.IsAddrChar c) : s.toList ≠ ['*'] := by
  intro hs
  have hc := h '*' (by rw [hs]; exact mem_singleton.mpr rfl)
  revert hc
  unfold Inet.IsAddrChar
  decide

theorem ne_empty_of_field (h : Scan.Field s.toList) : s ≠ "" := by
  rintro rfl
  exact h.ne_nil rfl

/-- A line of a trial shows one of its rules. -/
theorem shows_lease {x : Lease} (h : LeaseOk x) (hkind : x.kind = .trial) {q : Rule}
    (hq : q ∈ x.document.rules) :
    Shows ⟨'R', x.session.toList, star x.mac, star x.ip, x.expires, actionChar q.action, 'E',
      star q.domain⟩ ⟨some x.mac, some x.ip, true, q.domain, true, q.action⟩ := by
  obtain hmac | ⟨hobserve, -⟩ := h.mac
  · obtain ⟨hmacfield, -, hmacchars⟩ := macOk_field hmac
    obtain ⟨-, hipne, hipchars⟩ := address_chars h.ip
    obtain ⟨hdomain, hdomainlen⟩ := domainOk_field (h.rules q hq)
    have hip : x.ip ≠ "" := by
      intro heq
      rw [heq] at hipne
      exact hipne rfl
    refine ⟨rfl, star_of_ne (ne_empty_of_field hmacfield), ?_, star_of_ne hip, ?_, ?_,
      star_of_ne (ne_empty_of_field hdomain), hdomainlen, rfl, rfl, rfl⟩
    · intro mac hm
      obtain rfl := some.inj hm
      exact toList_asterisk hmacchars
    · intro ip hm
      obtain rfl := some.inj hm
      exact toList_asterisk hipchars
    · have hpos := h.expires.1
      simp
      omega
  · rw [hkind] at hobserve
    cases hobserve

variable {o : Override} {device : Option String}

/-- A line of an exact rule shows it for a device, or for all. -/
theorem shows_override (h : OverrideOk o) (hdevice : ∀ mac ∈ device, macOk mac = true) :
    Shows (o.line (device.getD "*")) ⟨device, none, false, o.domain, true, o.action⟩ := by
  obtain ⟨hdomain, hdomainlen⟩ := domainOk_field h.domain
  refine ⟨rfl, ?_, ?_, rfl, nofun, by simp [Override.line],
    star_of_ne (ne_empty_of_field hdomain), hdomainlen, rfl, rfl, rfl⟩
  · cases device with
    | none => rfl
    | some mac =>
      exact star_of_ne (ne_empty_of_field (macOk_field (hdevice mac rfl)).1)
  · intro mac hm
    exact toList_asterisk (macOk_field (hdevice mac hm)).2.2

theorem inForce_iff {db : Db} : db.inForce o = true ↔ o.exact = true ∧ o.enabled = 1 ∧
      (o.policyId = "" ∨ ∃ p, db.policyOf o = some p ∧ p.enabled = 1 ∧ p.mode ≠ "off") := by
  unfold Db.inForce
  cases hp : db.policyOf o <;> simp [and_assoc]

variable {ls : List Line}

/-- The lines of an exact rule are those of its scope. -/
theorem mem_overrideLines_iff {db : Db} (h : db.overrideLines o = some ls) (l : Line) :
    l ∈ ls ↔ ∃ device, db.InScope o device ∧ (∀ mac ∈ device, macOk mac = true) ∧
      l = o.line (device.getD "*") := by
  unfold Db.overrideLines at h
  unfold Db.InScope
  dsimp only at h ⊢
  split at h
  · next hall =>
    obtain rfl := some.inj h
    have hnot : ((db.policyOf o).map Policy.scope |>.getD ⟨"", []⟩).type ≠ "devices" := by
      obtain hall | hall := hall <;> rw [hall] <;> decide
    rw [mem_singleton]
    constructor
    · rintro rfl
      exact ⟨none, .inl ⟨hall, rfl⟩, nofun, rfl⟩
    · rintro ⟨device, ⟨-, rfl⟩ | ⟨hdev, -⟩, -, rfl⟩
      · rfl
      · exact absurd hdev hnot
  · next hnot =>
    split at h
    · next hdev =>
      split at h
      · next hall =>
        obtain rfl := some.inj h
        rw [List.mem_map]
        constructor
        · rintro ⟨mac, hmac, rfl⟩
          refine ⟨some mac, .inr ⟨hdev, mac, hmac, rfl⟩, ?_, rfl⟩
          intro m hm
          obtain rfl := some.inj hm
          exact List.all_eq_true.mp hall mac hmac
        · rintro ⟨device, ⟨hno, -⟩ | ⟨-, mac, hmac, rfl⟩, -, rfl⟩
          · exact absurd hno hnot
          · exact ⟨mac, hmac, rfl⟩
      · cases h
    · cases h

/-- Devices that a rule is for are checked, when it is projected. -/
theorem macOk_of_inScope {db : Db}
    (h : db.overrideLines o = some ls) (hscope : db.InScope o device) :
    ∀ mac ∈ device, macOk mac = true := by
  obtain ⟨-, rfl⟩ | ⟨hdev, mac, hmac, rfl⟩ := hscope
  · nofun
  · intro m hm
    obtain rfl := some.inj hm
    unfold Db.overrideLines at h
    dsimp only at h
    rw [if_neg (by rw [hdev]; decide), if_pos hdev] at h
    split at h
    · next hall => exact List.all_eq_true.mp hall mac hmac
    · cases h

section
variable {db : Db} {now t : ℕ} {lines : List Line}

/-- A rule that holds is shown by a line that has not expired. -/
theorem line_of_active (hdb : DbOk db) (h : db.projectLines now = some lines) (ht : now ≤ t)
    (hr : db.Active t r) : ∃ l ∈ lines, Shows l r ∧ (l.expires = 0 ∨ t < l.expires) := by
  obtain ⟨x, hx, hkind, hlive, q, hq, rfl⟩ | ⟨o, ho, hexact, henabled, hpolicy, device, hscope, rfl⟩ :=
    hr
  · refine ⟨_, (mem_projectLines h _).mpr (.inl ⟨x, hx, by omega, ?_⟩),
      shows_lease (hdb.leases x hx) hkind hq, .inr hlive⟩
    unfold Lease.lines
    rw [hkind]
    exact List.mem_map.mpr ⟨q, hq, rfl⟩
  · have hforce : db.inForce o = true := inForce_iff.mpr ⟨hexact, henabled, hpolicy⟩
    obtain ⟨ls, hls⟩ := overrideLines_isSome h ho hforce
    have hmac := macOk_of_inScope hls hscope
    refine ⟨o.line (device.getD "*"), (mem_projectLines h _).mpr (.inr ⟨o, ho, hforce, ls, hls, ?_⟩),
      shows_override (hdb.overrides o ho) hmac, .inl rfl⟩
    exact (mem_overrideLines_iff hls _).mpr ⟨device, hscope, hmac, rfl⟩

/-- A line for decisions that has not expired shows a rule that holds. -/
theorem active_of_line (hdb : DbOk db) (h : db.projectLines now = some lines) (hl : l ∈ lines)
    (hkind : l.kind = 'R') (hlive : l.expires = 0 ∨ t < l.expires) :
    ∃ r, db.Active t r ∧ Shows l r := by
  obtain ⟨x, hx, -, hlx⟩ | ⟨o, ho, hforce, ls, hls, hlo⟩ := (mem_projectLines h l).mp hl
  · have hok := hdb.leases x hx
    unfold Lease.lines at hlx
    split at hlx
    · rw [mem_singleton] at hlx
      rw [hlx] at hkind
      cases hkind
    rename_i hk
    obtain ⟨q, hq, rfl⟩ := List.mem_map.mp hlx
    have hpos := hok.expires.1
    have hlt : t < x.expires := by
      obtain hzero | hlt := hlive
      · dsimp only at hzero
        omega
      · exact hlt
    exact ⟨_, .inl ⟨x, hx, hk, hlt, q, hq, rfl⟩, shows_lease hok hk hq⟩
  · obtain ⟨hexact, henabled, hpolicy⟩ := inForce_iff.mp hforce
    obtain ⟨device, hscope, hmac, rfl⟩ := (mem_overrideLines_iff hls l).mp hlo
    exact ⟨_, .inr ⟨o, ho, hexact, henabled, hpolicy, device, hscope, rfl⟩,
      shows_override (hdb.overrides o ho) hmac⟩

/-- A line that counts has not expired. -/
theorem live_of_counts (h : Counts client name t l) : l.expires = 0 ∨ t < l.expires := by
  obtain ⟨-, htarget, -⟩ := h
  unfold dwpTarget at htarget
  split at htarget
  · cases htarget
  · omega

/-- What the resolver decides on the projected lines is what the rules decide. -/
theorem decides_lines (hdb : DbOk db) (h : db.projectLines now = some lines) (ht : now ≤ t)
    (client : Client) (name : List Char) :
    Decides (db.Active t) client name (dwrtDnsDecide lines client name t) := by
  cases hd : dwrtDnsDecide lines client name t with
  | none =>
    intro r hr htm
    obtain ⟨l, hl, hshows, hlive⟩ := line_of_active hdb h ht hr
    exact dwrtDnsDecide_none hd l hl
      ⟨hshows.kind, (hshows.targets hlive).mpr htm.1, hshows.matches.mpr htm.2⟩
  | some a =>
    obtain ⟨l, hl, hcounts, haction, hmax⟩ := dwrtDnsDecide_some hd
    have hlive := live_of_counts hcounts
    obtain ⟨r, hr, hshows⟩ := active_of_line hdb h hl hcounts.1 hlive
    refine ⟨r, hr, (hshows.targets hlive).mp hcounts.2.1, hshows.matches.mp hcounts.2.2,
      hshows.action_eq.symm.trans haction, ?_⟩
    intro x hx hxt hxm
    obtain ⟨l', hl', hshows', hlive'⟩ := line_of_active hdb h ht hx
    exact rank_le_of_candidate hshows' hshows (hmax l' hl'
      ⟨hshows'.kind, (hshows'.targets hlive').mpr hxt, hshows'.matches.mpr hxm⟩)

/-- The names of all lines fit exactly when those of the leases do. -/
theorem names_fit_iff (hdb : DbOk db) (h : db.projectLines now = some lines) :
    (∀ l ∈ lines, l.id.length ≤ 95) ↔
      ∀ x ∈ db.leases.rows, now < x.expires → x.session.toList.length ≤ 95 := by
  constructor
  · intro hall x hx hlive
    -- an unexpired lease has a line
    have hline : ∃ l ∈ x.lines, l.id = x.session.toList := by
      unfold Lease.lines
      split
      · exact ⟨_, mem_singleton.mpr rfl, rfl⟩
      · next hkind =>
        obtain ⟨q, hq⟩ := exists_mem_of_ne_nil _ ((hdb.leases x hx).some hkind)
        exact ⟨_, List.mem_map.mpr ⟨q, hq, rfl⟩, rfl⟩
    obtain ⟨l, hl, hid⟩ := hline
    rw [← hid]
    exact hall l ((mem_projectLines h l).mpr (.inl ⟨x, hx, hlive, hl⟩))
  · intro hall l hl
    obtain ⟨x, hx, hlive, hlx⟩ | ⟨o, ho, -, ls, hls, hlo⟩ := (mem_projectLines h l).mp hl
    · have hid : l.id = x.session.toList := by
        unfold Lease.lines at hlx
        split at hlx
        · rw [mem_singleton.mp hlx]
        · obtain ⟨q, -, rfl⟩ := List.mem_map.mp hlx
          rfl
      rw [hid]
      exact hall x hx hlive
    · obtain ⟨mac, -, rfl⟩ := mem_overrideLines hls hlo
      exact (hdb.overrides o ho).name.length

end

/-! ### The refinement -/

/-- The resolver's rows decide every query, from the projection on, as the rules do. -/
def Refines (db : Db) (now : ℕ) (rows : List Line) : Prop :=
  ∀ (client : Client) (name : List Char) (t : ℕ), now ≤ t →
    Decides (db.Active t) client name (dwrtDnsDecide rows client name t)

/-- **The projection refines the rule database** — the file is accepted, and every decision is that
    of the highest rule that holds — exactly when no unexpired lease has a name that is longer than
    the resolver's field. -/
theorem projection_refines_iff {db : Db} (h : Reachable db) {now : ℕ} {f : PolicyFile}
    (hfile : db.project now = some f.text) {r : Resolver} (hcached : r.cached f = false) :
    ((dwpReload r (some f)).valid = true ∧ Refines db now (dwpReload r (some f)).rows) ↔
      ∀ x ∈ db.leases.rows, now < x.expires → x.session.toList.length ≤ 95 := by
  obtain ⟨hdb, hrev⟩ := dbOk_of_reachable h
  obtain ⟨lines, hlines, htext⟩ := map_eq_some_iff.mp hfile
  have hok := lineOk_of_mem hdb hlines
  rw [dwpReload_fileText htext.symm hcached hrev hok (length_projectLines hlines),
    ← names_fit_iff hdb hlines]
  by_cases hall : ∀ l ∈ lines, l.id.length ≤ 95
  · rw [if_pos hall]
    exact iff_of_true ⟨rfl, fun client name t ht => decides_lines hdb hlines ht client name⟩ hall
  · rw [if_neg hall]
    exact iff_of_false (fun hvalid => by cases hvalid.1) hall

/-! ### A name of 96 characters -/

/-- A call at the time 1000 that nothing goes wrong in, on a network with one device. -/
def anEnv : Env where
  now := 1000
  leases := [⟨0, "02:00:00:00:00:16", "10.0.0.5", by decide +kernel⟩]
  conflicts := false
  begins := true
  stores := true
  opens := true
  writes := true
  acknowledges := true
  commits := true
  restores := true
  now_lt := by decide

def emptyDb : Db where
  revision := 1
  leases := Table.empty
  requests := Table.empty
  overrides := Table.empty
  policies := Table.empty

/-- A trial of one rule under a session. -/
def aTrial (session : String) : Request where
  sessionId := session
  operatorId := "admin"
  requestId := "r1"
  deviceId := "02:00:00:00:00:16"
  deviceIp := "10.0.0.5"
  rules := some [⟨"ads.example.com", "exact", "block"⟩]
  scope := ⟨"device", "02:00:00:00:00:16"⟩
  providerRevision := 1
  ttlSeconds := 600
  json := "{}"

/-- The database and the file that a trial brings about. -/
def afterTrial (session : String) : Db :=
  match handleTx anEnv (some []) emptyDb .replace (aTrial session) with
  | .ok (db, _) => db
  | .error _ => emptyDb

def trialFile (session : String) : PolicyFile where
  inode := 1
  mtime := 0
  text := ((afterTrial session).project 1000).getD []

def noSnapshot : Resolver where
  valid := false
  rows := []
  revision := 0
  inode := 0
  size := 0
  mtime := 0

/-- A name that `ident` accepts, and that the resolver's field cannot hold. -/
def longSession : String := String.ofList (List.replicate 96 's')

theorem reachable_afterTrial {session : String} (hsession : ident session = true)
    (hok : ∃ x, handleTx anEnv (some []) emptyDb .replace (aTrial session) = .ok x)
    (hrev : (afterTrial session).revision < 2 ^ 63) : Reachable (afterTrial session) := by
  obtain ⟨⟨db, r⟩, hok⟩ := hok
  have hdb : afterTrial session = db := by
    unfold afterTrial
    rw [hok]
  rw [hdb] at hrev ⊢
  have hinitial : Reachable emptyDb := Reachable.initial emptyDb ⟨rfl, nofun⟩ (by decide)
  exact Reachable.handle anEnv (some []) emptyDb db .replace (aTrial session) r hinitial hsession hok
    hrev

/-- The operation is taken as far as its projection. -/
def isOk {ε α : Type} : Except ε α → Bool
  | .ok _ => true
  | .error _ => false

theorem exists_of_isOk {ε α : Type} {x : Except ε α} (h : isOk x = true) : ∃ a, x = .ok a := by
  cases x with
  | error e => cases h
  | ok a => exact ⟨a, rfl⟩

/-- **One long name spoils the snapshot**: after a trial under a session of 96 characters the file
    that is projected is refused, and with it every rule. -/
theorem long_session_refused : Reachable (afterTrial longSession) ∧
      (afterTrial longSession).project 1000 = some (trialFile longSession).text ∧
      (dwpReload noSnapshot (some (trialFile longSession))).valid = false :=
  ⟨reachable_afterTrial (by decide +kernel) (exists_of_isOk (by decide +kernel)) (by decide +kernel),
    by decide +kernel, by decide +kernel⟩

theorem projection_refines_iff_short : (dwpReload noSnapshot (some (trialFile "s1"))).valid = true ∧
      Refines (afterTrial "s1") 1000 (dwpReload noSnapshot (some (trialFile "s1"))).rows := by
  have hreach : Reachable (afterTrial "s1") :=
    reachable_afterTrial (by decide +kernel) (exists_of_isOk (by decide +kernel)) (by decide +kernel)
  have hfile : (afterTrial "s1").project 1000 = some (trialFile "s1").text := by decide +kernel
  have hcached : noSnapshot.cached (trialFile "s1") = false := rfl
  exact (projection_refines_iff hreach hfile hcached).mpr (by decide +kernel)

end DreamingOS.DnsPolicy
