import DreamingOS.Lib.RoundRobin
import DreamingOS.Lib.Slots

namespace DreamingOS.ReadCache

/-!
# The read cache

The snapshot table of `dw_read_cache.c`: requests are answered with the last snapshot, and a timer
on the main loop builds one snapshot per tick.

* `Entry`, `State` — `struct dw_read_cache_entry` and the table;
* `slot` — the entry of a key; a key that has none takes the place of a victim;
* `refreshOne`, `evictIdle`, `tick` — the timer.

JSON values are of a type `J`, builders of a type `B`; what a builder answers is given with each
tick.  The clock is a sequence of readings, and the state counts how many of them were taken.
-/

def MAX_ENTRIES : ℕ := 24
def KEY_MAX : ℕ := 768
def IDLE_EVICT_MS : ℤ := 60000
def REFRESH_KEEP_MS : ℤ := 5000

/-- A C string. -/
abbrev Key := List UInt8

/-- What the cache uses of json-c: `dw_read_json_clone`, which prints a value and parses the text,
    and `json_object_new_object`. -/
structure JsonC (J : Type) where
  clone : J → J
  newObject : J

/-- `struct dw_read_cache_entry`; an entry without a key is unused. -/
structure Entry (J B : Type) where
  key : Key := []
  ttlMs : ℤ := 0
  requested : Bool := false
  resident : Bool := false
  builtAtMs : ℤ := 0
  lastRequestedMs : ℤ := 0
  nextRefreshAtMs : ℤ := 0
  obj : Option J := none
  input : Option J := none
  fn : Option B := none

/-- `g_cache`, and how often the clock has been read. -/
structure State (J B : Type) where
  entries : List (Entry J B)
  (nextIndex reads : ℕ)
  length_entries : entries.length = MAX_ENTRIES
  nextIndex_lt : nextIndex < MAX_ENTRIES

variable {J B : Type}

/-- The table as `dw_read_cache_init` leaves it. -/
def State.init : State J B where
  entries := List.replicate MAX_ENTRIES {}
  nextIndex := 0
  reads := 0
  length_entries := List.length_replicate
  nextIndex_lt := by decide

/-- An entry is written, after the clock has been read `k` times. -/
def State.write (s : State J B) (i : ℕ) (e : Entry J B) (k : ℕ) : State J B where
  entries := s.entries.set i e
  nextIndex := s.nextIndex
  reads := s.reads + k
  length_entries := by rw [List.length_set, s.length_entries]
  nextIndex_lt := s.nextIndex_lt

/-- What the key of an entry stands for in the table. -/
def Entry.id (e : Entry J B) : Option Key := if e.key = [] then none else some e.key

/-! ### Slots -/

/-- `dw_read_cache_find`. -/
def find (entries : List (Entry J B)) (key : Key) : Option (ℕ × Entry J B) :=
  Slots.find (fun e => decide (e.key ≠ []) && decide (e.key = key)) entries

/-- The entry requested longest ago, as far as the loop has come. -/
def older (best : Option (ℕ × Entry J B)) (i : ℕ) (c : Entry J B) : Option (ℕ × Entry J B) :=
  match best with
  | none => some (i, c)
  | some (j, b) => if c.lastRequestedMs < b.lastRequestedMs then some (i, c) else some (j, b)

/-- The victims that the loop of `dw_read_cache_slot` has met. -/
structure Met (J B : Type) where
  oldest : Option (ℕ × Entry J B) := none
  oldestAny : Option (ℕ × Entry J B) := none

def Met.see (m : Met J B) (i : ℕ) (c : Entry J B) : Met J B where
  oldest := if c.resident then m.oldest else older m.oldest i c
  oldestAny := older m.oldestAny i c

/-- The loop of `dw_read_cache_slot`; it ends at the first unused entry. -/
def victimLoop (m : Met J B) : ℕ → List (Entry J B) → Option ℕ
  | _, [] => (m.oldest <|> m.oldestAny).map Prod.fst
  | i, c :: rest => if c.key = [] then some i else victimLoop (m.see i c) (i + 1) rest

def victim (entries : List (Entry J B)) : ℕ := (victimLoop {} 0 entries).getD 0

/-- A slot that was cleared for a key. -/
def Entry.fresh (key : Key) (now : ℤ) : Entry J B where
  key := key.take (KEY_MAX - 1)
  lastRequestedMs := now
  requested := true

/-- `dw_read_cache_slot`: the place of the entry of a key, and the entry. -/
def slot (entries : List (Entry J B)) (key : Key) (now : ℤ) : ℕ × Entry J B :=
  match find entries key with
  | some r => r
  | none => (victim entries, Entry.fresh key now)

/-! ### The calls of the handlers -/

variable (json : JsonC J) (clock : ℕ → ℤ)

/-- `dw_read_cache_entry_remember`. -/
def remember (e : Entry J B) (input : Option J) (fn : Option B) : Entry J B :=
  { e with
    fn := fn <|> e.fn
    input := (input.map json.clone) <|> e.input }

/-- `ttl_ms > 0 ? ttl_ms : 1000`. -/
def ttlOf (ttlMs : ℤ) : ℤ := if 0 < ttlMs then ttlMs else 1000

/-- A call of a builder, with the time at which its answer was stored. -/
structure Build (J B : Type) where
  key : Key
  fn : B
  input : J
  answer : Option J
  storedAtMs : ℤ

/-- What a call gives back, and the builders it has run. -/
structure Reply (J B : Type) where
  rc : ℕ := 0
  out : Option J := none
  builds : List (Build J B) := []

/-- `dw_read_cache_put`. -/
def put (s : State J B) (key : Key) (obj : Option J) (ttlMs : ℤ) (fn : Option B)
    (input : Option J) : State J B :=
  match obj with
  | none => s
  | some obj =>
    let (i, e) := slot s.entries key (clock s.reads)
    s.write i { remember json e input fn with
      obj := some obj
      ttlMs := ttlOf ttlMs
      builtAtMs := clock (s.reads + 1) } 2

/-- The entry as `dw_read_cache_get` leaves it. -/
def getEntry (e : Entry J B) (ttlMs : ℤ) (input : Option J) (fn : Option B) (now : ℤ) : Entry J B :=
  { remember json e input fn with
    ttlMs := ttlOf ttlMs
    lastRequestedMs := now
    requested := true }

/-- The answer of `dw_read_cache_get`. -/
def getReply (e : Entry J B) (now : ℤ) : Reply J B :=
  match e.obj with
  | none => {}
  | some obj =>
    if e.builtAtMs ≤ now ∧ now - e.builtAtMs < e.ttlMs then { rc := 1, out := some (json.clone obj) }
    else { rc := 2, out := some (json.clone obj) }

/-- `dw_read_cache_get`. -/
def get (s : State J B) (key : Key) (ttlMs : ℤ) (input : Option J) (fn : Option B) :
    State J B × Reply J B :=
  let (i, e) := slot s.entries key (clock s.reads)
  let now := clock (s.reads + 1)
  let e := getEntry json e ttlMs input fn now
  (s.write i e 2, getReply json e now)

/-- `dw_read_cache_prewarm`. -/
def prewarm (s : State J B) (key : Key) (input : Option J) (fn : Option B) (ttlMs : ℤ) :
    State J B :=
  match fn with
  | none => s
  | some fn =>
    let (i, e) := slot s.entries key (clock s.reads)
    s.write i { remember json e input (some fn) with
      ttlMs := ttlOf ttlMs
      resident := true
      lastRequestedMs := clock (s.reads + 1)
      requested := true
      nextRefreshAtMs := clock (s.reads + 2) } 3

/-! ### The timer -/

/-- The snapshot is younger than the TTL of the entry. -/
def Entry.isFresh (e : Entry J B) (now : ℤ) : Bool :=
  e.obj.isSome && decide (0 < e.ttlMs) && decide (e.builtAtMs ≤ now) &&
    decide (now - e.builtAtMs < e.ttlMs)

/-- The tick builds an entry that it meets. -/
def Entry.isDue (e : Entry J B) (now : ℤ) : Bool :=
  decide (e.key ≠ []) && e.requested && e.fn.isSome && decide (e.nextRefreshAtMs ≤ now) &&
    !e.isFresh now

/-- `dw_read_cache_refresh_one`, with the number of readings it takes. -/
def refreshOne (answer : B → J → Option J) (reads : ℕ) (e : Entry J B) :
    Entry J B × List (Build J B) × ℕ :=
  let input := (e.input.map json.clone).getD json.newObject
  match e.fn with
  | none => (e, [], 0)
  | some fn =>
    match answer fn input with
    | none => (e, [⟨e.key, fn, input, none, 0⟩], 0)
    | some out =>
      ({ e with obj := some out, builtAtMs := clock reads },
        [⟨e.key, fn, input, some out, clock reads⟩], 1)

/-- `dw_read_cache_evict_idle`, on one entry. -/
def evictOne (now : ℤ) (e : Entry J B) : Entry J B :=
  if e.key = [] then e
  else if e.resident then e
  else if now - e.lastRequestedMs ≤ IDLE_EVICT_MS then e
  else {}

/-- `dw_read_cache_evict_idle`. -/
def evictIdle (s : State J B) : State J B where
  entries := s.entries.map (evictOne (clock s.reads))
  nextIndex := s.nextIndex
  reads := s.reads + 1
  length_entries := by rw [List.length_map, s.length_entries]
  nextIndex_lt := s.nextIndex_lt

/-- Whether the tick that has looked at `i` entries builds the one in slot `j`. -/
def State.due (s : State J B) (i j : ℕ) : Bool :=
  (s.entries[j]?).any fun e => e.isDue (clock (s.reads + i))

/-- The loop of `dw_read_cache_tick`: the first due entry from `next_index` on is built. -/
def refreshLoop (s : State J B) (answer : B → J → Option J) : State J B × List (Build J B) :=
  match RoundRobin.serve MAX_ENTRIES (s.due clock) s.nextIndex with
  | none => ({ s with reads := s.reads + MAX_ENTRIES }, [])
  | some i =>
    let j := RoundRobin.place MAX_ENTRIES s.nextIndex i
    match s.entries[j]? with
    | none => (s, [])
    | some e =>
      let (e, builds, k) := refreshOne json clock answer (s.reads + i + 1) e
      let e := { e with
        requested := false
        nextRefreshAtMs := clock (s.reads + i) + REFRESH_KEEP_MS }
      ({ s.write j e (i + 1 + k) with
          nextIndex := RoundRobin.place MAX_ENTRIES s.nextIndex (i + 1)
          nextIndex_lt := RoundRobin.place_lt s.nextIndex_lt _ }, builds)

/-- `dw_read_cache_tick`. -/
def tick (s : State J B) (answer : B → J → Option J) : State J B × Reply J B :=
  let (s, builds) := refreshLoop json clock s answer
  (evictIdle clock s, { builds := builds })

/-! ### Calls -/

/-- A call of the cache. -/
inductive Call (J B : Type) where
  | get (key : Key) (ttlMs : ℤ) (input : Option J) (fn : Option B)
  | put (key : Key) (obj : Option J) (ttlMs : ℤ) (fn : Option B) (input : Option J)
  | prewarm (key : Key) (input : Option J) (fn : Option B) (ttlMs : ℤ)
  | tick (answer : B → J → Option J)

def step (s : State J B) : Call J B → State J B × Reply J B
  | .get key ttlMs input fn => get json clock s key ttlMs input fn
  | .put key obj ttlMs fn input => (put json clock s key obj ttlMs fn input, {})
  | .prewarm key input fn ttlMs => (prewarm json clock s key input fn ttlMs, {})
  | .tick answer => tick json clock s answer

end DreamingOS.ReadCache
