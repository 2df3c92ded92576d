import DreamingOS.ApiKey.AllowList
import DreamingOS.ApiKey.Spelling

namespace DreamingOS.ApiKey

/-!
# API keys — what the gate grants

What a verdict of `ok` says about the key and the request, and that the spelling of the path does not
matter.

* `EntryAdmits`, `PatternAdmits`, `ScopeAdmits` — what the row of a key allows, in its own terms;
* `authorize_ok`, `authenticate_ok` — **what is let through is granted**;
* `gate` — the same, and **all spellings of a path have one verdict**;
* `unnarrowed_scope` — a scope that lists nothing does not narrow.
-/

open Segments Text List Option

variable {D : Type}

/-! ### What a row allows -/

/-- An entry that is the address of the peer, or has the first bits of it. -/
def EntryAdmits (entry ip : List Char) : Prop :=
  ∃ text net addr n, (Inet.pton4 text = some net ∧ Inet.pton4 ip = some addr ∨
      Inet.pton6 text = some net ∧ Inet.pton6 ip = some addr) ∧
    (entry = text ∧ n = 8 * net.length ∨
      ∃ suffix, entry = text ++ '/' :: suffix ∧ Scan.int suffix = some ((n : ℤ), []) ∧
        n ≤ 8 * net.length) ∧
    Inet.Agree n addr net

/-- An entry with something behind its slash, and no number there that a C `int` cannot hold. -/
def ProperEntry (entry : List Char) : Prop :=
  ∀ text suffix, '/' ∉ text → entry = text ++ '/' :: suffix →
    suffix ≠ [] ∧ ∀ v rest, Scan.int suffix = some (v, rest) → v < 2 ^ 31

/-- The peer is in the list of the addresses, if there is one. -/
def PeerAdmitted (allowIps : List Char) (peerIp : Option (List Char)) : Prop :=
  allowIps = [] ∨ ∃ ip ∈ peerIp, ∃ entry ∈ entries allowIps, EntryAdmits entry ip

/-- An entry of `allow` that is the path, or a subtree with the path in it. -/
def PatternAdmits (pattern norm : List UInt8) : Prop :=
  (∃ root, pattern.map lower = root ++ [0x2a] ∧ Under (root.rdropWhile (· = SLASH)) norm) ∨
    norm = pattern.map lower ∨ norm ++ [SLASH] = pattern.map lower

/-- A member of the scope that is an array, if it has items, has one with a property. -/
def Lists (scope : Json D) (key : String) (p : List UInt8 → Prop) : Prop :=
  narrowed scope key = [] ∨ ∃ e ∈ narrowed scope key, ∃ s, stringOf e = some s ∧ p s

/-- The scope, if there is one, lists the path and the method. -/
def ScopeAdmits (parse : List UInt8 → Option (Json D)) (scope : List UInt8)
    (method : Option (List UInt8)) (norm : List UInt8) : Prop :=
  scope = [] ∨ ∃ members, parse scope = some (.obj members) ∧
    Lists (.obj members) "allow" (PatternAdmits · norm) ∧
    Lists (.obj members) "methods" fun m => ∃ name ∈ method, sameName m name = true

/-- **A request that a row allows**, apart from its secret. -/
structure Granted (parse : List UInt8 → Option (Json D)) (row : KeyRow)
    (method : Option (List UInt8)) (peerIp : Option (List Char)) (now : ℤ) (norm : List UInt8) :
    Prop where
  alive : row.revokedAt ≤ 0
  current : row.expiresAt ≤ 0 ∨ now < row.expiresAt
  peer : (∀ entry ∈ entries row.allowIps, ProperEntry entry) → PeerAdmitted row.allowIps peerIp
  opened : ∀ root ∈ FORBIDDEN, ¬Under root norm
  files : Under STORAGE_FILES norm → methodIsReadonly method = true
  tier : tierParse row.tier ≠ some .control → methodIsReadonly method = true
  scope : ScopeAdmits parse row.scopeJson method norm

/-! ### Addresses -/

theorem peerAddr_cases {ip : List Char} {family : Family} {addr : List UInt8}
    (h : peerAddr ip = some (family, addr)) :
    family = .inet ∧ Inet.pton4 ip = some addr ∨ family = .inet6 ∧ Inet.pton6 ip = some addr := by
  unfold peerAddr at h
  split at h
  · next addr' haddr =>
    obtain ⟨rfl, rfl⟩ := Prod.mk.inj (some.inj h)
    exact .inl ⟨rfl, haddr⟩
  · obtain ⟨addr', haddr, heq⟩ := map_eq_some_iff.mp h
    obtain ⟨rfl, rfl⟩ := Prod.mk.inj heq
    exact .inr ⟨rfl, haddr⟩

/-- How many bits of a proper entry count. -/
theorem cidrLength_proper {text rest : List Char} {b : ℤ} {width n : ℕ}
    (hproper : ProperEntry (text ++ rest)) (htext : '/' ∉ text) (hrest : ∀ c ∈ rest.head?, c = '/')
    (hbits : cidrBits rest = some b) (hlength : cidrLength b width = some n) :
    rest = [] ∧ n = width ∨
      ∃ suffix, rest = '/' :: suffix ∧ Scan.int suffix = some ((n : ℤ), []) ∧ n ≤ width := by
  cases rest with
  | nil =>
    obtain rfl := some.inj hbits
    exact .inl ⟨rfl, (some.inj hlength).symm⟩
  | cons c suffix =>
    obtain rfl := hrest c rfl
    right
    obtain ⟨hne, hsmall⟩ := hproper text suffix htext rfl
    unfold cidrBits strtol at hbits
    dsimp only at hbits
    cases hint : Scan.int suffix with
    | none =>
      rw [hint] at hbits
      rw [getD_none] at hbits
      dsimp only at hbits
      rw [if_pos (.inl hne)] at hbits
      cases hbits
    | some r =>
      obtain ⟨v, left⟩ := r
      rw [hint] at hbits
      rw [getD_some] at hbits
      dsimp only at hbits
      have hlt := hsmall v left hint
      split at hbits
      · cases hbits
      rename_i hno
      rw [not_or, not_not, Int.not_lt] at hno
      obtain ⟨rfl, hnonneg⟩ := hno
      obtain rfl := some.inj hbits
      have hsame : v.bmod (2 ^ 32) = v := Int.bmod_eq_of_le (by omega) (by omega)
      rw [hsame] at hlength
      unfold cidrLength at hlength
      rw [if_neg (by omega)] at hlength
      split at hlength
      · cases hlength
      rename_i hle
      obtain rfl := some.inj hlength
      exact ⟨suffix, rfl, by rw [hint, Int.toNat_of_nonneg hnonneg], by omega⟩

/-- **An entry that lets a peer in** admits it. -/
theorem ipInCidr_admits {ip entry : List Char} (h : ipInCidr ip entry = true)
    (hproper : ProperEntry entry) : EntryAdmits entry ip := by
  obtain ⟨family, net, n, addr, hparse, hpeer, hagree⟩ := ipInCidr_iff.mp h
  obtain ⟨-, hnet, b, hbits, hlength⟩ := parseCidr_eq_some.mp hparse
  have hsplit : front entry ++ entry.dropWhile (· ≠ '/') = entry := takeWhile_append_dropWhile
  have hrest : ∀ c ∈ (entry.dropWhile (· ≠ '/')).head?, c = '/' := by
    intro c hc
    have hhead := head?_dropWhile_not (· ≠ '/') entry
    rw [mem_def.mp hc] at hhead
    simpa using hhead
  have htext : '/' ∉ front entry := fun hmem => by simpa using mem_takeWhile_imp hmem
  generalize front entry = text at *
  generalize entry.dropWhile (· ≠ '/') = rest at *
  subst hsplit
  rw [drop_left] at hbits
  have hpair : Inet.pton4 text = some net ∧ Inet.pton4 ip = some addr ∨
      Inet.pton6 text = some net ∧ Inet.pton6 ip = some addr := by
    obtain ⟨rfl, htext4⟩ | ⟨rfl, htext6⟩ := peerAddr_cases hnet
    · exact .inl ⟨htext4, ((peerAddr_cases hpeer).resolve_right fun hno => nomatch hno.1).2⟩
    · exact .inr ⟨htext6, ((peerAddr_cases hpeer).resolve_left fun hno => nomatch hno.1).2⟩
  refine ⟨text, net, addr, n, hpair, ?_, hagree⟩
  obtain ⟨rfl, hall⟩ | ⟨suffix, rfl, hint, hle⟩ :=
    cidrLength_proper hproper htext hrest hbits hlength
  · exact .inl ⟨append_nil _, hall⟩
  · exact .inr ⟨suffix, rfl, hint, hle⟩

theorem ipAllowed_admits {allowIps : List Char} {peerIp : Option (List Char)}
    (hlen : allowIps.length ≤ KEY_IPS_MAX)
    (h : ipAllowed (allowIps.take KEY_IPS_MAX) peerIp = true)
    (hproper : ∀ entry ∈ entries allowIps, ProperEntry entry) : PeerAdmitted allowIps peerIp := by
  rw [take_of_length_le hlen, ipAllowed_iff hlen] at h
  refine h.imp_right ?_
  rintro ⟨ip, hip, entry, hentry, hin⟩
  exact ⟨ip, hip, entry, hentry, ipInCidr_admits hin (hproper entry hentry)⟩

/-! ### Scopes -/

theorem patternAdmits_spec {norm pattern : List UInt8} (h : patternAdmits norm pattern = true) :
    PatternAdmits pattern norm := by
  unfold patternAdmits at h
  split at h
  · cases h
  dsimp only at h
  split at h
  · next hstar =>
    left
    have hlast : pattern.map lower = (pattern.map lower).dropLast ++ [0x2a] :=
      (dropLast_append_getLast? _ (mem_def.mpr hstar)).symm
    exact ⟨_, hlast, prefixMatch_iff.mp h⟩
  · right
    obtain rfl := of_decide_eq_true h
    split
    · next hslash =>
      right
      exact dropLast_append_getLast? _ (mem_def.mpr hslash.2)
    · exact .inl rfl

theorem lists_of_any {scope : Json D} {key : String} {f : List UInt8 → Bool} {p : List UInt8 → Prop}
    (hp : ∀ s, f s = true → p s)
    (h : ((narrowed scope key).isEmpty || (narrowed scope key).any fun e => (stringOf e).any f) = true) :
    Lists scope key p := by
  obtain h | h := Bool.or_eq_true_iff.mp h
  · exact .inl (List.isEmpty_iff.mp h)
  · obtain ⟨e, he, hany⟩ := List.any_eq_true.mp h
    obtain ⟨s, hs, hf⟩ := (Option.any_eq_true ..).mp hany
    exact .inr ⟨e, he, s, hs, hp s hf⟩

/-- **A scope that lets a request in** admits it. -/
theorem scopeAllows_admits {parse : List UInt8 → Option (Json D)} {scope norm : List UInt8}
    {method : Option (List UInt8)} (h : scopeAllows parse scope method norm = true) :
    ScopeAdmits parse scope method norm := by
  unfold scopeAllows at h
  split at h
  · next hnil => exact .inl hnil
  split at h
  · next members hparse =>
    obtain ⟨hallow, hmethods⟩ := Bool.and_eq_true_iff.mp h
    refine .inr ⟨members, hparse, lists_of_any (fun _ => patternAdmits_spec) hallow,
      lists_of_any (fun s hs => ?_) hmethods⟩
    obtain ⟨name, hname, hsame⟩ := (Option.any_eq_true ..).mp hs
    exact ⟨name, hname, hsame⟩
  · cases h

/-! ### Verdicts -/

/-- A text that is cut to something shorter than the room has not been cut. -/
theorem eq_of_take_eq {s t : List UInt8} {n : ℕ} (h : s.take n = t) (hlt : t.length < n) : s = t := by
  have hlen := congrArg List.length h
  rw [length_take] at hlen
  rw [← h, take_of_length_le (by omega)]

theorem tierParse_take {tier : List UInt8} (h : tierParse (tier.take 31) = some .control) :
    tierParse tier = some .control := by
  have hcut : tier.take 31 = ascii "control".toList := by
    unfold tierParse at h
    split at h
    · cases h
    split at h
    · next heq => exact heq
    · cases h
  rw [eq_of_take_eq hcut (by decide)]
  rw [hcut] at h
  exact h

section
variable {parse : List UInt8 → Option (Json D)} {row : KeyRow} {keyId : List UInt8}
  {method path : Option (List UInt8)} {peerIp : Option (List Char)} {now : ℤ} {slots : List RateSlot}

/-- **What passes the gates behind the secret** is granted. -/
theorem authorize_ok (h : (authorize parse row keyId method path peerIp now slots).1.result = .ok) :
    ∃ p norm, path = some p ∧ normalizePath p = some norm ∧
      Granted parse row method peerIp now norm := by
  unfold authorize at h
  dsimp only at h
  split at h
  · cases h
  rename_i hrevoked
  split at h
  · cases h
  rename_i hexpired
  split at h
  · cases h
  rename_i hips
  split at h
  · cases h
  split at h
  · cases h
  rename_i hforbidden
  obtain ⟨p, norm, rfl, hnorm, hopened, hfiles⟩ :=
    routeForbidden_eq_false (Bool.eq_false_iff.mpr hforbidden)
  rw [bind_some, hnorm] at h
  dsimp only at h
  split at h
  · cases h
  rename_i htier
  split at h
  · cases h
  rename_i hscope
  simp only [Bool.not_eq_true', Bool.not_eq_false] at hips hscope
  rw [take_of_length_le row.scope_len] at hscope
  refine ⟨p, norm, rfl, hnorm, Int.not_lt.mp hrevoked, ?_,
    ipAllowed_admits row.ips_len hips, hopened, hfiles, fun hno => ?_,
    scopeAllows_admits hscope⟩
  · by_contra hboth
    rw [not_or, Int.not_le, Int.not_lt] at hboth
    exact hexpired hboth
  · by_contra hmethod
    apply htier
    refine ⟨?_, by simpa using hmethod⟩
    cases hparse : tierParse (row.tier.take 31) with
    | none => rfl
    | some tier =>
      cases tier with
      | readOnly => rfl
      | control => exact absurd (tierParse_take hparse) hno

/-- The verdict depends on the form of the path only. -/
theorem authorize_congr {p q : List UInt8} (h : normalizePath p = normalizePath q) :
    authorize parse row keyId method (some p) peerIp now slots =
      authorize parse row keyId method (some q) peerIp now slots := by
  unfold authorize routeForbidden
  rw [bind_some, bind_some, h]

end

/-- Digests that compare as equal are equal. -/
theorem eq_of_ctEqual {a b : List UInt8} (h : ctEqual a b = true) : a = b := by
  unfold ctEqual at h
  rw [Bool.and_eq_true, decide_eq_true_eq, decide_eq_true_eq] at h
  obtain ⟨hfold, hlen⟩ := h
  have hzero : ∀ (l : List ℕ) (diff : UInt8),
      l.foldl (fun diff i => diff ||| (a.getD i 0 ^^^ b.getD i 0)) diff = 0 →
      diff = 0 ∧ ∀ i ∈ l, a.getD i 0 = b.getD i 0 := by
    intro l
    induction l with
    | nil => exact fun diff h => ⟨h, nofun⟩
    | cons i l ih =>
      intro diff h
      obtain ⟨hor, hrest⟩ := ih _ h
      rw [UInt8.or_eq_zero_iff, UInt8.xor_eq_zero_iff] at hor
      exact ⟨hor.1, forall_mem_cons.mpr ⟨hor.2, hrest⟩⟩
  obtain ⟨-, hall⟩ := hzero _ _ hfold
  apply ext_getElem hlen
  intro i hi hi'
  have hi := hall i (mem_range.mpr (Nat.lt_of_lt_of_le hi (Nat.le_max_left ..)))
  rw [getD_eq_getElem?_getD, getD_eq_getElem?_getD, getElem?_eq_getElem (by assumption),
    getElem?_eq_getElem hi'] at hi
  exact hi

section
variable {digest : List UInt8 → List UInt8 → Option (List UInt8)}
  {parse : List UInt8 → Option (Json D)} {table : Option (Table KeyRow.keyId)}
  {presented method path : Option (List UInt8)} {peerIp : Option (List Char)} {now : ℤ}
  {slots : List RateSlot}

/-- **What is let through**: the row of the key is there, it has the digest of the secret, and the
    request is granted. -/
theorem authenticate_ok
    (h : (authenticate digest parse table presented method path peerIp now slots).1.result = .ok) :
    ∃ db row secret p norm, table = some db ∧ row ∈ db.rows ∧
      splitKey (presented.getD []) = some (row.keyId, secret) ∧
      digest row.keyId secret = some row.keyHash ∧ path = some p ∧ normalizePath p = some norm ∧
      Granted parse row method peerIp now norm := by
  unfold authenticate at h
  split at h
  · cases h
  split at h
  · cases h
  rename_i keyId secret hsplit
  split at h
  · cases h
  rename_i db
  split at h
  · cases h
  rename_i row hfind
  obtain ⟨hrow, rfl⟩ := Table.find_eq_some.mp hfind
  split at h
  · cases h
  rename_i mac hdigest
  split at h
  · cases h
  rename_i hequal
  rw [Bool.not_eq_true', Bool.not_eq_false] at hequal
  obtain rfl := eq_of_ctEqual hequal
  rw [take_of_length_le (by rw [row.hash_len]; decide)] at hdigest
  obtain ⟨p, norm, hp, hnorm, hgranted⟩ := authorize_ok h
  exact ⟨db, row, secret, p, norm, rfl, hrow, hsplit, hdigest, hp, hnorm, hgranted⟩

theorem authenticate_congr {p q : List UInt8} (h : normalizePath p = normalizePath q) :
    authenticate digest parse table presented method (some p) peerIp now slots =
      authenticate digest parse table presented method (some q) peerIp now slots := by
  unfold authenticate
  simp only [authorize_congr h]

end

/-- **The gate**: what is let through is granted by the row of its key, and all spellings of a path
    have one verdict. -/
theorem gate (digest : List UInt8 → List UInt8 → Option (List UInt8))
    (parse : List UInt8 → Option (Json D)) (table : Option (Table KeyRow.keyId))
    (presented method : Option (List UInt8)) (peerIp : Option (List Char)) (now : ℤ)
    (slots : List RateSlot) :
    (∀ path, (authenticate digest parse table presented method path peerIp now slots).1.result = .ok →
      ∃ db row secret p norm, table = some db ∧ row ∈ db.rows ∧
        splitKey (presented.getD []) = some (row.keyId, secret) ∧
        digest row.keyId secret = some row.keyHash ∧ path = some p ∧ normalizePath p = some norm ∧
        Granted parse row method peerIp now norm) ∧
    ∀ p q, SamePath p q → WithinLimits p → WithinLimits q →
      authenticate digest parse table presented method (some p) peerIp now slots =
        authenticate digest parse table presented method (some q) peerIp now slots :=
  ⟨fun _ => authenticate_ok, fun _ _ hsame hp hq =>
    authenticate_congr (normalizePath_respelled hsame hp hq)⟩

/-- A scope that is empty narrows nothing: a request is let through that no entry lists. -/
theorem unnarrowed_scope : ¬ ∀ (digest : List UInt8 → List UInt8 → Option (List UInt8))
    (parse : List UInt8 → Option (Json Unit)) (table : Option (Table KeyRow.keyId))
    (presented method path : Option (List UInt8)) (peerIp : Option (List Char)) (now : ℤ)
    (slots : List RateSlot),
    (authenticate digest parse table presented method path peerIp now slots).1.result = .ok →
      ∃ db row norm members e pattern, table = some db ∧ row ∈ db.rows ∧
        path.bind normalizePath = some norm ∧ parse row.scopeJson = some (.obj members) ∧
        e ∈ narrowed (.obj members) "allow" ∧ stringOf e = some pattern ∧ PatternAdmits pattern norm := by
  intro hlisted
  let mac : List UInt8 := List.replicate 64 0x30
  let row : KeyRow := ⟨List.replicate 16 0x30, mac, [], ascii "read_only".toList, [], [], 0, 0,
    by decide, by decide, by decide⟩
  let db : Table KeyRow.keyId := ⟨[row], nodup_singleton _⟩
  let presented := KEY_PREFIX ++ List.replicate 16 0x30 ++ 0x5f :: List.replicate 64 0x30
  obtain ⟨_, _, _, _, _, _, -, -, -, hparse, -⟩ := hlisted (fun _ _ => some mac) (fun _ => none)
    (some db) (some presented) (some (ascii "GET".toList)) (some (ascii "/api/v1/status".toList)) none
    1000 (List.replicate RATE_SLOTS {}) (by decide +kernel)
  cases hparse

end DreamingOS.ApiKey
