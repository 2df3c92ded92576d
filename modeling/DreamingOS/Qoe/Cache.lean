import DreamingOS.Lib.Probing
import Mathlib.Data.List.Sort

namespace DreamingOS.Qoe

/-!
# The path-quality cache

The hash table of `flowd_qoe_cache.c`, with its paths, its counters and its five operations.

* `Key`, `Entry` — what an entry is found by, and what it is;
* `lookup`, `record`, `invalidate`, `markWanDown`, `clear` — the operations.

Times are natural numbers below `2 ^ 64`; a sum of them is reduced.
-/

/-! ### Keys -/

/-- `enum flowd_qoe_scope`. -/
inductive Scope where
  | asn
  | country
  | city

def Scope.code : Scope → UInt8
  | .asn => 1
  | .country => 2
  | .city => 3

structure Key where
  key : UInt64
  (scope family : UInt8)
  policyPrio : UInt16
deriving DecidableEq

def AF_INET : UInt8 := 2
def AF_INET6 : UInt8 := 10

/-- `qoe_family_valid`. -/
def familyValid (family : UInt8) : Bool := family = AF_INET || family = AF_INET6

/-- `qoe_hash`. -/
def hash (k : Key) : UInt64 :=
  let value := k.key ^^^ k.scope.toUInt64 * 0x9e3779b97f4a7c15 ^^^
    k.family.toUInt64 * 0xd6e8feb86659fd93 ^^^ k.policyPrio.toUInt64 * 0xa0761d6478bd642f
  let value := value ^^^ value >>> 30
  let value := value * 0xbf58476d1ce4e5b9
  let value := value ^^^ value >>> 27
  let value := value * 0x94d049bb133111eb
  value ^^^ value >>> 31

/-- `flowd_qoe_key`. -/
def qoeKey (asn scopeId : UInt32) : UInt64 := asn.toUInt64 <<< 32 ||| scopeId.toUInt64

/-! ### Entries -/

/-- `struct flowd_qoe_path`. -/
structure Path where
  wanId : UInt8
  healthy : Bool
  confidence : UInt16
  (rttUs penaltyUs scoreUs : UInt32)

/-- `struct flowd_qoe_entry`; a slot whose generation is zero is free. -/
structure Entry where
  key : Key
  (learnedAtMs lastUsedMs validUntilMs : ℕ)
  generation : UInt32
  preferredWan : UInt8
  paths : List Path

/-- A slot as `calloc` and `memset` leave it. -/
def Entry.zero : Entry := ⟨⟨0, 0, 0, 0⟩, 0, 0, 0, 0, 0, []⟩

def Entry.free (e : Entry) : Bool := e.generation = 0

/-- The hits of each scope. -/
structure Hits where
  asn : UInt64 := 0
  country : UInt64 := 0
  city : UInt64 := 0

def Hits.add (h : Hits) : Scope → Hits
  | .asn => { h with asn := h.asn + 1 }
  | .country => { h with country := h.country + 1 }
  | .city => { h with city := h.city + 1 }

/-- `struct flowd_qoe_cache`; its capacity is the number of its slots. -/
structure Cache where
  entries : List Entry
  count : ℕ := 0
  lookups : UInt64 := 0
  hits : UInt64 := 0
  hitsByScope : Hits := {}
  misses : UInt64 := 0
  evictions : UInt64 := 0
  expirations : UInt64 := 0
  generation : UInt32 := 0

def Cache.capacity (c : Cache) : ℕ := c.entries.length

/-- `qoe_capacity_ok`. -/
def capacityOk (capacity : ℕ) : Bool := 2 ≤ capacity && capacity &&& (capacity - 1) = 0

/-- `flowd_qoe_cache_init`. -/
def Cache.init (capacity : ℕ) : Option Cache :=
  if capacityOk capacity then some { entries := List.replicate capacity Entry.zero } else none

/-! ### Probe loops -/

/-- Where the probes for a key start. -/
def start (capacity : ℕ) (k : Key) : ℕ := (hash k).toNat &&& (capacity - 1)

/-- The slots that are probed for a key. -/
def probes (capacity : ℕ) (k : Key) : List ℕ :=
  (List.range capacity).map fun probe => (start capacity k + probe) &&& (capacity - 1)

def UINT64_MAX : ℕ := 2 ^ 64 - 1

/-- The slots that `qoe_find_slot` has met. -/
structure Met where
  firstExpired : Option ℕ := none
  oldest : Option ℕ := none
  oldestUsed : ℕ := UINT64_MAX

def Met.see (m : Met) (slot : ℕ) (e : Entry) (now : ℕ) : Met where
  firstExpired := if e.validUntilMs ≤ now ∧ m.firstExpired = none then some slot else m.firstExpired
  oldest := if e.lastUsedMs < m.oldestUsed then some slot else m.oldest
  oldestUsed := if e.lastUsedMs < m.oldestUsed then e.lastUsedMs else m.oldestUsed

def findSlotLoop (entries : List Entry) (k : Key) (now : ℕ) : List ℕ → Met → Bool × Option ℕ
  | [], m => (false, m.firstExpired.or m.oldest)
  | slot :: slots, m =>
    match entries[slot]? with
    | none => (false, none)
    | some e =>
      if e.free then (false, m.firstExpired.or (some slot))
      else if e.key = k then (true, some slot)
      else findSlotLoop entries k now slots (m.see slot e now)

/-- `qoe_find_slot`: whether the key has been found, and the slot of its entry. -/
def findSlot (c : Cache) (k : Key) (now : ℕ) : Bool × Option ℕ :=
  findSlotLoop c.entries k now (probes c.capacity k) {}

def findExactLoop (entries : List Entry) (k : Key) : List ℕ → Option (ℕ × Entry)
  | [] => none
  | slot :: slots =>
    match entries[slot]? with
    | none => none
    | some e =>
      if e.free then none
      else if e.key = k then some (slot, e)
      else findExactLoop entries k slots

/-- `qoe_find_exact`. -/
def findExact (c : Cache) (k : Key) : Option (ℕ × Entry) :=
  findExactLoop c.entries k (probes c.capacity k)

def lookupExactLoop (c : Cache) (k : Key) (now : ℕ) : List ℕ → Option Entry × Cache
  | [] => (none, c)
  | slot :: slots =>
    match c.entries[slot]? with
    | none => (none, c)
    | some e =>
      if e.free then (none, c)
      else if e.key ≠ k then lookupExactLoop c k now slots
      else if e.validUntilMs ≤ now then (none, { c with expirations := c.expirations + 1 })
      else
        let e := { e with lastUsedMs := now }
        (some e, { c with entries := c.entries.set slot e })

/-- `qoe_lookup_exact`. -/
def lookupExact (c : Cache) (k : Key) (now : ℕ) : Option Entry × Cache :=
  lookupExactLoop c k now (probes c.capacity k)

/-! ### The preferred path -/

def MAX_WANS : ℕ := 8
def DEFAULT_TTL_MS : ℕ := 30 * 60 * 1000
def EQUIVALENT_ABS_US : ℕ := 5000
def EQUIVALENT_PERCENT : ℕ := 20
def UINT32_MAX : ℕ := 2 ^ 32 - 1

/-- `qoe_path_cmp` is not positive. -/
def Path.le (a b : Path) : Bool :=
  if a.healthy ≠ b.healthy then a.healthy
  else if a.scoreUs ≠ b.scoreUs then a.scoreUs < b.scoreUs
  else a.wanId ≤ b.wanId

/-- `qoe_equivalent_margin_us`. -/
def equivalentMarginUs (best : ℕ) : ℕ :=
  min (max (best * EQUIVALENT_PERCENT / 100) EQUIVALENT_ABS_US) UINT32_MAX

/-- The best score of the healthy paths. -/
def bestScoreUs (paths : List Path) : ℕ :=
  paths.foldl (fun best p => if p.healthy ∧ p.scoreUs.toNat < best then p.scoreUs.toNat else best)
    UINT32_MAX

/-- The path of the highest rank among those of the best quality, with its rank. -/
def selectPath (k : Key) (ceiling : ℕ) (paths : List Path) : UInt8 × UInt64 :=
  paths.foldl (fun selected p =>
    if !p.healthy || p.scoreUs.toNat > ceiling then selected
    else
      let rank := hash { k with key := k.key ^^^ p.wanId.toUInt64 <<< (56 : UInt64) }
      if selected.1 = 0 || rank > selected.2 then (p.wanId, rank) else selected) (0, 0)

/-- `qoe_choose_preferred_wan`. -/
def choosePreferredWan (k : Key) (paths : List Path) (previousWan : UInt8) : UInt8 :=
  let best := bestScoreUs paths
  if best = UINT32_MAX then 0
  else
    let ceiling := best + equivalentMarginUs best
    if previousWan ≠ 0 && paths.any fun p =>
        p.wanId = previousWan && p.healthy && p.scoreUs.toNat ≤ ceiling then previousWan
    else (selectPath k ceiling paths).1

/-- A path with its score. -/
def Path.scored (p : Path) : Path :=
  if p.scoreUs = 0 then
    { p with scoreUs := UInt32.ofNat (min (p.rttUs.toNat + p.penaltyUs.toNat) UINT32_MAX) }
  else p

/-- The paths of an entry: each line once, with its score. -/
def normalPaths : List UInt8 → List Path → List Path
  | _, [] => []
  | seen, p :: paths =>
    if p.wanId = 0 || seen.contains p.wanId then normalPaths seen paths
    else p.scored :: normalPaths (p.wanId :: seen) paths

/-! ### Operations -/

/-- `struct flowd_qoe_destination`. -/
structure Destination where
  (asn cityId countryId : UInt32)
  family : UInt8

/-- The scopes that a destination is looked up in, with their identifiers, the most specific first. -/
def Destination.scopes (d : Destination) : List (Scope × UInt32) :=
  (if d.cityId ≠ 0 then [(Scope.city, d.cityId)] else []) ++
    (if d.countryId ≠ 0 then [(Scope.country, d.countryId)] else []) ++ [(Scope.asn, 0)]

def Destination.keyOf (d : Destination) (policyPrio : UInt16) (s : Scope × UInt32) : Key :=
  ⟨qoeKey d.asn s.2, s.1.code, d.family, policyPrio⟩

/-- The scopes in order, until one of them has an entry. -/
def lookupScopes (d : Destination) (policyPrio : UInt16) (now : ℕ) :
    List (Scope × UInt32) → Cache → Option (Scope × Entry) × Cache
  | [], c => (none, c)
  | s :: scopes, c =>
    match lookupExact c (d.keyOf policyPrio s) now with
    | (some e, c) => (some (s.1, e), c)
    | (none, c) => lookupScopes d policyPrio now scopes c

/-- `flowd_qoe_cache_lookup`. -/
def lookup (c : Cache) (d : Destination) (policyPrio : UInt16) (now : ℕ) :
    Option (Scope × Entry) × Cache :=
  if d.asn = 0 ∨ policyPrio = 0 ∨ !familyValid d.family then (none, c)
  else
    let c := { c with lookups := c.lookups + 1 }
    match lookupScopes d policyPrio now d.scopes c with
    | (some (s, e), c) =>
      (some (s, e), { c with hits := c.hits + 1, hitsByScope := c.hitsByScope.add s })
    | (none, c) => (none, { c with misses := c.misses + 1 })

/-- `++generation`, without zero. -/
def nextGeneration (g : UInt32) : UInt32 := if g + 1 = 0 then 1 else g + 1

/-- The checks of `flowd_qoe_cache_record`, and the paths of the entry. -/
def recordPaths (scope : UInt32) (family : UInt8) (key : UInt64) (policyPrio : UInt16)
    (paths : List Path) : Option (List Path) :=
  if key = 0 ∨ policyPrio = 0 ∨ paths = [] ∨ paths.length > MAX_WANS ∨ scope < 1 ∨ scope > 3 ∨
      !familyValid family then none
  else
    let paths := normalPaths [] paths
    if paths = [] then none else some (paths.mergeSort Path.le)

/-- The entry that is recorded over the content of its slot. -/
def newEntry (c : Cache) (k : Key) (paths : List Path) (now ttl : ℕ) (found : Bool) (old : Entry) :
    Entry where
  key := k
  learnedAtMs := now
  lastUsedMs := now
  validUntilMs := (now + if ttl = 0 then DEFAULT_TTL_MS else ttl) % 2 ^ 64
  generation := nextGeneration c.generation
  preferredWan := choosePreferredWan k paths
    (if found ∧ old.validUntilMs > now then old.preferredWan else 0)
  paths := paths

/-- An entry is put into a slot. -/
def store (c : Cache) (found : Bool) (slot : ℕ) (old e : Entry) : Cache :=
  { c with
    evictions := if !found && !old.free then c.evictions + 1 else c.evictions
    count := if !found && old.free then c.count + 1 else c.count
    generation := nextGeneration c.generation
    entries := c.entries.set slot e }

/-- `flowd_qoe_cache_record`; `none` stands for a record that is refused. -/
def record (c : Cache) (scope : UInt32) (family : UInt8) (key : UInt64) (policyPrio : UInt16)
    (paths : List Path) (now ttl : ℕ) : Option Cache := do
  let paths ← recordPaths scope family key policyPrio paths
  let k : Key := ⟨key, scope.toUInt8, family, policyPrio⟩
  let found := findSlot c k now
  let slot ← found.2
  let old ← c.entries[slot]?
  some (store c found.1 slot old (newEntry c k paths now ttl found.1 old))

/-- `flowd_qoe_cache_invalidate`. -/
def invalidate (c : Cache) (scope : UInt32) (family : UInt8) (key : UInt64) (policyPrio : UInt16)
    (now : ℕ) : Option Cache :=
  (findExact c ⟨key, scope.toUInt8, family, policyPrio⟩).map fun found =>
    { c with entries := c.entries.set found.1 { found.2 with validUntilMs := now } }

/-- A line goes down in one entry. -/
def Entry.wanDown (wanId : UInt8) (now : ℕ) (e : Entry) : Entry :=
  if e.free || e.validUntilMs ≤ now then e
  else
    let paths := e.paths.map fun p => if p.wanId = wanId then { p with healthy := false } else p
    if e.preferredWan = wanId then
      let paths := paths.mergeSort Path.le
      { e with paths := paths, preferredWan := choosePreferredWan e.key paths 0 }
    else { e with paths := paths }

/-- How many healthy paths of an entry are over a line. -/
def Entry.healthyOver (wanId : UInt8) (now : ℕ) (e : Entry) : ℕ :=
  if e.free || e.validUntilMs ≤ now then 0
  else e.paths.countP fun p => p.wanId = wanId && p.healthy

/-- `flowd_qoe_cache_mark_wan_down`, with the number of paths that have changed. -/
def markWanDown (c : Cache) (wanId : UInt8) (now : ℕ) : Cache × ℕ :=
  if wanId = 0 then (c, 0)
  else ({ c with entries := c.entries.map (Entry.wanDown wanId now) },
    (c.entries.map (Entry.healthyOver wanId now)).sum)

/-- `flowd_qoe_cache_clear`. -/
def clear (c : Cache) : Cache := { c with entries := c.entries.map fun _ => Entry.zero, count := 0 }

end DreamingOS.Qoe
