import DreamingOS.Lib.InetText
import Mathlib.Algebra.Group.Nat.Defs

namespace DreamingOS.DnsPolicy

open List

/-!
# DNS policy — requests and their rules

The checks of `ad_dns_control.c` on names, devices and rules.

* `ident`, `macOk`, `domainOk` — the texts that are accepted;
* `ids` — the policy and the rule that a device and a domain are stored under.

Texts are C strings: JSON escapes that would end one are not part of them.
-/

/-! ### Texts -/

def ident (s : String) : Bool :=
  s ≠ "" && s.toList.length ≤ 96 && s.toList.all fun c => c.isAlphanum || c = '_' || c = '-'

/-- The places of a mac address: every third one is a colon. -/
def macPlaces : ℕ → List Char → Bool
  | _, [] => true
  | i, c :: cs => (if i % 3 = 2 then c = ':' else Inet.isXDigit c) && macPlaces (i + 1) cs

def macOk (s : String) : Bool := s.toList.length = 17 && macPlaces 0 s.toList

/-- The loop of `domain_ok`; `label` counts the characters of the label, `prev` is the last one. -/
def domainLabels : ℕ → Char → List Char → Bool
  | label, prev, [] => label ≠ 0 && prev ≠ '-'
  | label, prev, c :: cs =>
    if c = '.' then label ≠ 0 && prev ≠ '-' && domainLabels 0 '.' cs
    else
      (c.isAlphanum || c = '-') && (label ≠ 0 || c ≠ '-') && label + 1 ≤ 63 &&
        domainLabels (label + 1) c cs

def domainOk (s : String) : Bool :=
  s ≠ "" && s.toList.length ≤ 253 && '.' ∈ s.toList && domainLabels 0 '.' s.toList

/-- `strcasecmp(a, b) == 0`. -/
def strcaseeq (a b : List Char) : Bool := a.map Char.toLower = b.map Char.toLower

/-! ### Requests -/

inductive RuleAction where
  | block
  | allow
deriving DecidableEq

def RuleAction.ofText (s : String) : Option RuleAction :=
  if s = "block" then some .block else if s = "allow" then some .allow else none

/-- A rule of a request. -/
structure RawRule where
  (domain matching action : String)

/-- A rule after normalization; it matches exactly. -/
structure Rule where
  domain : String
  action : RuleAction
deriving DecidableEq

structure Scope where
  (type deviceId : String)
deriving DecidableEq

/-- A request; `rules` is there when it is an array, and `json` is the text of the whole. -/
structure Request where
  (sessionId operatorId requestId deviceId deviceIp : String)
  trialId : String := ""
  rules : Option (List RawRule) := none
  scope : Scope := ⟨"", ""⟩
  confirmGlobal : ℤ := 0
  providerRevision : ℤ := 0
  observeTtl : ℤ := 0
  ttlSeconds : ℤ := 0
  json : String

/-- The domain of a rule as it is stored: in lower case, without a dot at the end. -/
def normalDomain (s : String) : String :=
  let d := s.toList.map Char.toLower
  String.ofList (if d.getLast? = some '.' then d.dropLast else d)

/-- The loop of `normalize_rules`; `seen` are the rules so far. -/
def normalizeLoop : List Rule → List RawRule → Option (List Rule)
  | seen, [] => some seen
  | seen, r :: rs =>
    if r.domain.utf8ByteSize > 253 then none
    else
      let d := normalDomain r.domain
      match RuleAction.ofText r.action with
      | none => none
      | some action =>
        if !domainOk d ∨ r.matching ≠ "exact" then none
        else
          match seen.find? fun x => x.domain = d with
          | some x => if x.action ≠ action then none else normalizeLoop seen rs
          | none => normalizeLoop (seen ++ [⟨d, action⟩]) rs

/-- `normalize_rules`. -/
def normalizeRules (b : Request) : Option (List Rule) :=
  match b.rules with
  | none => none
  | some raw => if raw = [] ∨ raw.length > 128 then none else normalizeLoop [] raw

/-! ### Stored names -/

def fnvPrime : ℕ := 1099511628211

/-- One byte of the FNV-1a hash. -/
def fnvByte (hash : ℕ) (b : UInt8) : ℕ := (hash ^^^ b.toNat) * fnvPrime % 2 ^ 64

def fnv (hash : ℕ) (s : String) : ℕ := s.toUTF8.toList.foldl fnvByte hash

/-- `%016llx`. -/
def hex16 (n : ℕ) : List Char := (List.range 16).map fun i => Nat.digitChar (n / 16 ^ (15 - i) % 16)

/-- `ids`: the policy of a device, and the rule of a domain for it. -/
def ids (mac domain : String) : String × String :=
  let policy :=
    if mac = "" then ""
    else String.ofList
      ("ad-device-".toList ++ (mac.toList.filter (· ≠ ':')).map Char.toLower)
  let hash := fnv (fnvByte (fnv 1469598103934665603 mac) 124) domain
  (policy, String.ofList ("ad-domain-".toList ++ hex16 hash))

/-! ### What the checks promise -/

theorem isSpace_of_alnum {c : Char} (h : c.isAlphanum = true) : Scan.isSpace c = false := by
  unfold Scan.isSpace
  simp only [Bool.or_eq_false_iff, decide_eq_false_iff_not]
  refine ⟨⟨⟨⟨⟨?_, ?_⟩, ?_⟩, ?_⟩, ?_⟩, ?_⟩ <;> rintro rfl <;> revert h <;> decide

variable {s : String}

theorem toList_ne_nil (h : s ≠ "") : s.toList ≠ [] := by
  intro hnil
  exact h (String.toList_eq_nil_iff.mp hnil)

theorem ident_field (h : ident s = true) : Scan.Field s.toList ∧ s.toList.length ≤ 96 := by
  unfold ident at h
  simp only [Bool.and_eq_true, decide_eq_true_eq] at h
  refine ⟨⟨toList_ne_nil h.1.1, ?_⟩, h.1.2⟩
  intro c hc
  have hall := List.all_eq_true.mp h.2 c hc
  simp only [Bool.or_eq_true, decide_eq_true_eq] at hall
  obtain (halnum | rfl) | rfl := hall
  · exact isSpace_of_alnum halnum
  · rfl
  · rfl

theorem macPlaces_chars {i : ℕ} {s : List Char} (h : macPlaces i s = true) :
    ∀ c ∈ s, Inet.IsAddrChar c := by
  induction s generalizing i with
  | nil => nofun
  | cons c s ih =>
    unfold macPlaces at h
    obtain ⟨hc, hs⟩ := Bool.and_eq_true _ _ ▸ h
    intro d hd
    rw [mem_cons] at hd
    obtain rfl | hd := hd
    · split at hc
      · exact .inr (.inl (of_decide_eq_true hc))
      · exact .inl hc
    · exact ih hs d hd

/-- A mac address is a field of 17 characters, and no asterisk. -/
theorem macOk_field (h : macOk s = true) :
    Scan.Field s.toList ∧ s.toList.length = 17 ∧ ∀ c ∈ s.toList, Inet.IsAddrChar c := by
  unfold macOk at h
  simp only [Bool.and_eq_true, decide_eq_true_eq] at h
  have hchars := macPlaces_chars h.2
  refine ⟨⟨?_, fun c hc => (hchars c hc).solid⟩, h.1, hchars⟩
  intro hnil
  have hlen := h.1
  rw [hnil] at hlen
  cases hlen

theorem domainLabels_solid {label : ℕ} {prev : Char} {s : List Char}
    (h : domainLabels label prev s = true) : ∀ c ∈ s, Scan.isSpace c = false := by
  induction s generalizing label prev with
  | nil => nofun
  | cons c s ih =>
    unfold domainLabels at h
    intro d hd
    rw [mem_cons] at hd
    split at h
    · next hdot =>
      obtain rfl | hd := hd
      · rw [hdot]
        rfl
      · simp only [Bool.and_eq_true] at h
        exact ih h.2 d hd
    · simp only [Bool.and_eq_true, Bool.or_eq_true, decide_eq_true_eq] at h
      obtain rfl | hd := hd
      · obtain halnum | rfl := h.1.1.1
        · exact isSpace_of_alnum halnum
        · rfl
      · exact ih h.2 d hd

theorem domainOk_field (h : domainOk s = true) : Scan.Field s.toList ∧ s.toList.length ≤ 253 := by
  unfold domainOk at h
  simp only [Bool.and_eq_true, decide_eq_true_eq] at h
  exact ⟨⟨toList_ne_nil h.1.1.1, domainLabels_solid h.2⟩, h.1.1.2⟩

variable {rules seen : List Rule} {raw : List RawRule}

/-- Normalized rules have accepted domains. -/
theorem normalizeLoop_ok
    (hseen : ∀ x ∈ seen, domainOk x.domain = true) (h : normalizeLoop seen raw = some rules) :
    ∀ x ∈ rules, domainOk x.domain = true := by
  induction raw generalizing seen with
  | nil =>
    obtain rfl := Option.some.inj h
    exact hseen
  | cons r raw ih =>
    unfold normalizeLoop at h
    dsimp only at h
    split at h
    · cases h
    split at h
    · cases h
    split at h
    · cases h
    rename_i hok
    rw [not_or] at hok
    split at h
    · split at h
      · cases h
      · exact ih hseen h
    apply ih _ h
    intro x hx
    rw [mem_append, mem_singleton] at hx
    obtain hx | rfl := hx
    · exact hseen x hx
    · simpa using hok.1

variable {b : Request}

theorem normalizeRules_ok (h : normalizeRules b = some rules) :
    ∀ x ∈ rules, domainOk x.domain = true := by
  unfold normalizeRules at h
  split at h
  · cases h
  split at h
  · cases h
  · exact normalizeLoop_ok (fun x hx => absurd hx not_mem_nil) h

/-- A loop that has seen a rule keeps one. -/
theorem normalizeLoop_ne_nil
    (hne : seen ≠ [] ∨ raw ≠ []) (h : normalizeLoop seen raw = some rules) : rules ≠ [] := by
  induction raw generalizing seen with
  | nil =>
    obtain rfl := Option.some.inj h
    exact hne.resolve_right (fun hno => hno rfl)
  | cons r raw ih =>
    unfold normalizeLoop at h
    dsimp only at h
    split at h
    · cases h
    split at h
    · cases h
    split at h
    · cases h
    split at h
    · next x hx =>
      split at h
      · cases h
      apply ih (.inl _) h
      rintro rfl
      cases hx
    · exact ih (.inl (by simp)) h

theorem normalizeRules_ne_nil (h : normalizeRules b = some rules) : rules ≠ [] := by
  unfold normalizeRules at h
  split at h
  · cases h
  split at h
  · cases h
  rename_i raw _ hraw
  rw [not_or] at hraw
  exact normalizeLoop_ne_nil (.inr hraw.1) h

theorem digitChar_field (n : ℕ) (h : n < 16) : Scan.isSpace (Nat.digitChar n) = false := by
  revert n
  decide

/-- The name of a rule is a field of 26 characters. -/
theorem ids_field (mac domain : String) :
    Scan.Field (ids mac domain).2.toList ∧ (ids mac domain).2.toList.length = 26 := by
  unfold ids
  dsimp only
  rw [String.toList_ofList]
  refine ⟨⟨by simp, ?_⟩, by simp [hex16]⟩
  intro c hc
  obtain hc | hc := mem_append.mp hc
  · have hfront : ∀ c ∈ "ad-domain-".toList, Scan.isSpace c = false :=
      Scan.solid_of_all (by decide)
    exact hfront c hc
  · obtain ⟨i, -, rfl⟩ := List.mem_map.mp hc
    exact digitChar_field _ (Nat.mod_lt _ (by decide))

end DreamingOS.DnsPolicy
