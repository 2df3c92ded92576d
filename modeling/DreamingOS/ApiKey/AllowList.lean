import DreamingOS.ApiKey.Gate

namespace DreamingOS.ApiKey

open List Option

/-!
# API keys — the list of addresses

* `Says`, `Exact` — what an entry says, and a list that lets in whom its entries name;
* `parseCidr_eq_some`, `ipInCidr_iff` — what the parser and the matcher find;
* `allowIps_exact_iff` — **an accepted list is exact iff there are decimal digits behind every slash**.
-/

/-- `webd_api_key_allow_ips_valid`. -/
def allowIpsValid (allowIps : List Char) : Except String Unit :=
  if allowIps = [] then .ok ()
  else if allowIps.length > KEY_IPS_MAX then .error "allow_ips_too_long"
  else if (entries allowIps).all fun entry => entry = [] || (parseCidr entry).isSome then .ok ()
  else .error "allow_ips_entry_invalid"

/-- What is in front of the first slash. -/
def front (entry : List Char) : List Char := entry.takeWhile (· ≠ '/')

/-- What is behind the first slash, if there is one. -/
def behind (entry : List Char) : Option (List Char) :=
  match entry.drop (front entry).length with
  | [] => none
  | _ :: suffix => some suffix

/-- A number in decimal digits. -/
def Decimal (ds : List Char) (n : ℕ) : Prop :=
  ds ≠ [] ∧ (∀ c ∈ ds, c.isDigit = true) ∧ n = Nat.ofDigitChars 10 ds 0

/-- An address, alone or with a decimal number of bits behind a slash. -/
def Says (entry : List Char) (family : Family) (net : List UInt8) (n : ℕ) : Prop :=
  peerAddr (front entry) = some (family, net) ∧
    match behind entry with
    | none => n = 8 * net.length
    | some ds => Decimal ds n ∧ n ≤ 8 * net.length

/-- **A list that means what its text says.** -/
structure Exact (allowIps : List Char) : Prop where
  form : ∀ entry ∈ entries allowIps, entry ≠ [] → ∃ family net n, Says entry family net n
  allowed : ∀ peerIp, ipAllowed allowIps peerIp = true ↔ allowIps = [] ∨ ∃ ip ∈ peerIp,
    ∃ family addr, peerAddr ip = some (family, addr) ∧ ∃ entry ∈ entries allowIps, ∃ net n,
      Says entry family net n ∧ Inet.Agree n addr net

/-- Behind a slash there are digits, and their number fits a C `int`. -/
def DecimalLength (entry : List Char) : Prop :=
  ∀ ds ∈ behind entry, ∃ n, Decimal ds n ∧ n < 2 ^ 31

variable {entry ip allowIps : List Char} {family : Family} {net addr : List UInt8} {n : ℕ}

theorem peerAddr_length (h : peerAddr ip = some (family, addr)) :
    addr.length = if family = .inet then 4 else 16 := by
  unfold peerAddr at h
  split at h
  · next addr' haddr =>
    obtain ⟨rfl, rfl⟩ := Prod.mk.inj (some.inj h)
    exact Inet.length_pton4 haddr
  · obtain ⟨addr', haddr, heq⟩ := map_eq_some_iff.mp h
    obtain ⟨rfl, rfl⟩ := Prod.mk.inj heq
    exact Inet.length_pton6 haddr

/-- **What the parser finds.** -/
theorem parseCidr_eq_some : parseCidr entry = some (family, net, n) ↔
    (entry ≠ [] ∧ entry.length < 64) ∧ peerAddr (front entry) = some (family, net) ∧
      ∃ b, cidrBits (entry.drop (front entry).length) = some b ∧
        cidrLength b (8 * net.length) = some n := by
  have hparse : parseCidr entry = if entry = [] ∨ entry.length ≥ 64 then none else
      (cidrBits (entry.drop (front entry).length)).bind fun b =>
        (peerAddr (front entry)).bind fun a => (cidrLength b (8 * a.2.length)).map (a.1, a.2, ·) := by
    unfold parseCidr peerAddr front
    dsimp only
    generalize entry.takeWhile (· ≠ '/') = text
    congr 1
    cases cidrBits (entry.drop text.length) with
    | none => rfl
    | some b =>
      dsimp only [bind_some]
      cases h4 : Inet.pton4 text with
      | some net => simp [Inet.length_pton4 h4]
      | none =>
        cases h6 : Inet.pton6 text with
        | some net => simp [Inet.length_pton6 h6]
        | none => rfl
  rw [hparse]
  split
  · next hsize => exact ⟨nofun, fun h => absurd hsize (by simpa [not_or] using h.1)⟩
  rename_i hsize
  simp only [bind_eq_some_iff, map_eq_some_iff]
  constructor
  · rintro ⟨b, hb, a, ha, m, hm, heq⟩
    cases heq
    exact ⟨by simpa [not_or] using hsize, ha, b, hb, hm⟩
  · rintro ⟨-, ha, b, hb, hm⟩
    exact ⟨b, hb, _, ha, n, hm, rfl⟩

/-- **An entry with digits** is found as it is written. -/
theorem parseCidr_digits (hdec : DecimalLength entry) : parseCidr entry = some (family, net, n) ↔
    (entry ≠ [] ∧ entry.length < 64) ∧ Says entry family net n := by
  rw [parseCidr_eq_some]
  refine and_congr Iff.rfl (and_congr Iff.rfl ?_)
  unfold DecimalLength behind at hdec
  unfold behind
  cases hrest : entry.drop (front entry).length with
  | nil => simp [cidrBits, cidrLength, eq_comm]
  | cons c ds =>
    rw [hrest] at hdec
    obtain ⟨m, hm, hlt⟩ := hdec ds rfl
    have hint := Scan.int_digits hm.2.1 hm.1 (by rw [← hm.2.2]; omega) (s := []) nofun
    rw [append_nil, ← hm.2.2] at hint
    have hbits : cidrBits (c :: ds) = some (m : ℤ) := by
      unfold cidrBits strtol
      dsimp only
      rw [hint, getD_some, if_neg (by simp)]
      exact congrArg some (Int.bmod_eq_of_le (by omega) (by omega))
    have hsame : Decimal ds n ↔ m = n := ⟨fun hn => hm.2.2.trans hn.2.2.symm, fun heq => heq ▸ hm⟩
    dsimp only
    rw [hbits, hsame]
    unfold cidrLength
    simp only [some.injEq, exists_eq_left']
    rw [if_neg (by omega)]
    split
    · simp; omega
    · simp; omega

/-- What is said is in digits. -/
theorem Says.decimal (h : Says entry family net n) : DecimalLength entry := by
  obtain ⟨hpeer, hrest⟩ := h
  have hnet := peerAddr_length hpeer
  intro ds hds
  rw [mem_def.mp hds] at hrest
  obtain ⟨hn, hle⟩ := hrest
  refine ⟨n, hn, ?_⟩
  split at hnet <;> omega

/-- **Whom an entry lets in.** -/
theorem ipInCidr_iff : ipInCidr ip entry = true ↔ ∃ family net n addr,
    parseCidr entry = some (family, net, n) ∧ peerAddr ip = some (family, addr) ∧
      Inet.Agree n addr net := by
  have hlen : ∀ {family net n addr}, parseCidr entry = some (family, net, n) →
      peerAddr ip = some (family, addr) → addr.length = net.length := fun hparse hpeer =>
    (peerAddr_length hpeer).trans (peerAddr_length (parseCidr_eq_some.mp hparse).2.1).symm
  unfold ipInCidr
  constructor
  · intro h
    split at h
    · next family net n family' addr hparse hpeer =>
      simp only [Bool.and_eq_true, Bool.or_eq_true, decide_eq_true_eq] at h
      obtain ⟨⟨rfl, hfull⟩, hmask⟩ := h
      exact ⟨_, net, n, addr, hparse, hpeer, (Inet.agree_iff_octets (hlen hparse hpeer)).mpr
        ⟨hfull, fun hne => hmask.resolve_left hne⟩⟩
    · cases h
  · rintro ⟨family, net, n, addr, hparse, hpeer, hagree⟩
    obtain ⟨hfull, hmask⟩ := (Inet.agree_iff_octets (hlen hparse hpeer)).mp hagree
    rw [hparse, hpeer]
    simp only [Bool.and_eq_true, Bool.or_eq_true, decide_eq_true_eq]
    exact ⟨⟨trivial, hfull⟩, or_iff_not_imp_left.mpr hmask⟩

theorem ipAllowed_iff {peerIp : Option (List Char)} (hlen : allowIps.length ≤ KEY_IPS_MAX) :
    ipAllowed allowIps peerIp = true ↔
      allowIps = [] ∨ ∃ ip ∈ peerIp, ∃ entry ∈ entries allowIps, ipInCidr ip entry = true := by
  unfold ipAllowed
  rw [take_of_length_le hlen]
  by_cases hnil : allowIps = []
  · simp [hnil]
  rw [if_neg hnil]
  cases peerIp with
  | none => simp [hnil]
  | some ip =>
    have hne : ∀ entry, ipInCidr ip entry = true → ip ≠ [] ∧ entry ≠ [] := by
      intro entry h
      obtain ⟨_, _, _, _, hparse, hpeer, -⟩ := ipInCidr_iff.mp h
      refine ⟨?_, (parseCidr_eq_some.mp hparse).1.1⟩
      rintro rfl
      cases hpeer
    simp only [hnil, false_or, Bool.and_eq_true, decide_eq_true_eq, List.any_eq_true]
    constructor
    · rintro ⟨-, entry, hentry, -, hin⟩
      exact ⟨ip, rfl, entry, hentry, hin⟩
    · rintro ⟨ip', hip', entry, hentry, hin⟩
      obtain rfl := some.inj hip'
      obtain ⟨hip, hentry'⟩ := hne entry hin
      exact ⟨hip, entry, hentry, hentry', hin⟩

/-- An accepted list is short, and each of its entries is parsed. -/
theorem allowIpsValid_ok (h : allowIpsValid allowIps = .ok ()) : allowIps.length ≤ KEY_IPS_MAX ∧
    ∀ entry ∈ entries allowIps, entry ≠ [] →
      ∃ family net n, parseCidr entry = some (family, net, n) := by
  unfold allowIpsValid at h
  split at h
  · next hnil =>
    rw [hnil]
    exact ⟨Nat.zero_le _, nofun⟩
  split at h
  · cases h
  rename_i hlen
  split at h
  · next hall =>
    refine ⟨Nat.le_of_not_lt hlen, fun entry hentry hne => ?_⟩
    have hparsed := List.all_eq_true.mp hall entry hentry
    simpa [hne, isSome_iff_exists] using hparsed
  · cases h

/-- **An accepted list is exact iff there are decimal digits behind every slash**, whose number fits
    a C `int`. -/
theorem allowIps_exact_iff {allowIps : List Char} (h : allowIpsValid allowIps = .ok ()) :
    Exact allowIps ↔ ∀ entry ∈ entries allowIps, DecimalLength entry := by
  obtain ⟨hlen, hparsed⟩ := allowIpsValid_ok h
  constructor
  · intro hexact entry hentry
    by_cases hne : entry = []
    · rw [hne]
      nofun
    · obtain ⟨family, net, n, hmeans⟩ := hexact.form entry hentry hne
      exact hmeans.decimal
  · intro hdec
    have hmeans : ∀ entry ∈ entries allowIps, ∀ family net n,
        parseCidr entry = some (family, net, n) ↔ Says entry family net n := by
      intro entry hentry family net n
      rw [parseCidr_digits (hdec entry hentry), and_iff_right_iff_imp]
      intro hsaid
      have hne : entry ≠ [] := by
        rintro rfl
        cases hsaid.1
      obtain ⟨_, _, _, hr⟩ := hparsed entry hentry hne
      exact (parseCidr_eq_some.mp hr).1
    refine ⟨fun entry hentry hne => ?_, fun peerIp => ?_⟩
    · obtain ⟨family, net, n, hr⟩ := hparsed entry hentry hne
      exact ⟨family, net, n, (hmeans entry hentry ..).mp hr⟩
    · rw [ipAllowed_iff hlen]
      simp only [ipInCidr_iff]
      refine or_congr Iff.rfl ⟨?_, ?_⟩
      · rintro ⟨ip, hip, entry, hentry, family, net, n, addr, hparse, hpeer, hagree⟩
        exact ⟨ip, hip, family, addr, hpeer, entry, hentry, net, n,
          (hmeans entry hentry ..).mp hparse, hagree⟩
      · rintro ⟨ip, hip, family, addr, hpeer, entry, hentry, net, n, hsaid, hagree⟩
        exact ⟨ip, hip, entry, hentry, family, net, n, addr, (hmeans entry hentry ..).mpr hsaid,
          hpeer, hagree⟩

theorem allowIps_exact_iff_net : Exact "10.0.0.0/8".toList ↔
    ∀ entry ∈ entries "10.0.0.0/8".toList, DecimalLength entry :=
  allowIps_exact_iff (by decide +kernel)

/-- Nothing behind the slash: the list is accepted, and lets everybody in. -/
theorem empty_length_not_exact : allowIpsValid "10.0.0.0/".toList = .ok () ∧
    ipAllowed "10.0.0.0/".toList (some "8.8.8.8".toList) = true ∧ ¬Exact "10.0.0.0/".toList := by
  refine ⟨by decide +kernel, by decide +kernel, fun h => ?_⟩
  obtain ⟨family, net, n, hmeans⟩ := h.form "10.0.0.0/".toList (by decide +kernel) (by decide)
  obtain ⟨n, ⟨hne, -⟩, -⟩ := hmeans.decimal [] (by decide)
  exact hne rfl

end DreamingOS.ApiKey
