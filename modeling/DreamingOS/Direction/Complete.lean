import DreamingOS.Direction.Built
import Mathlib.Data.List.Dedup
import Mathlib.Data.List.Perm.Lattice

namespace DreamingOS.Direction

open List
open Option (map_eq_some_iff)

/-!
# Flow direction — when the snapshot holds the whole configuration

* `Demand`, `lanDemands`: the addresses a LAN has to bring into the snapshot, in the order the
  builder comes to them, those of the configuration in front of those of the interface.
* `store`: the two entries of a demand; `Stored s ds t`: a run of the builder over demands, which
  goes on when one of the configuration is refused.
* `Roomy`: every configured address finds room for its two entries among the different ones in front
  of it.
* `complete_iff`: a build that succeeds **is complete just when there was room**; the capacity of
  the local addresses is checked before the entry is looked for.
-/

variable {D : Type}

/-! ### What the configuration asks for -/

/-- An address of a LAN with its prefix. -/
structure Demand where
  (ifindex family : ℕ)
  address : List UInt8
  prefixLen : ℕ
  configured : Bool
deriving DecidableEq

/-- The interface of a LAN. -/
def lanIfindex (c : JsonC D) (host : Host) (lan : Json D) : ℕ :=
  let byName := parseIfindex c host lan "ifname"
  if byName = 0 then parseIfindex c host lan "device" else byName

/-- An address text, the prefix it has by default and the one that is given with it. -/
structure AddressText where
  ip : String
  (defaultPrefix prefixOverride : ℤ)
deriving DecidableEq

/-- The `ipaddr` of a LAN. -/
def ipaddrTexts (c : JsonC D) (lan : Json D) : List AddressText :=
  match jsonString lan "ipaddr" with
  | some ip => [⟨ip, jsonInt c lan "cidr" (jsonInt c lan "prefix" 24), -1⟩]
  | none => []

/-- Its `extra_ips`, where they are texts. -/
def extraTexts (lan : Json D) : List AddressText :=
  match lan.get "extra_ips" with
  | some (.arr extras) => extras.filterMap fun
    | .str extra => some ⟨cstr extra, 24, -1⟩
    | _ => none
  | _ => []

/-- Its static IPv6 address. -/
def staticTexts (c : JsonC D) (lan : Json D) : List AddressText :=
  match lan.get "ipv6" with
  | some (.obj ms) =>
    match jsonString (.obj ms) "addr" with
    | some addr =>
      let len := jsonInt c (.obj ms) "prefix_len" 64
      if addr ≠ "" ∧ 0 ≤ len ∧ len ≤ 128 then [⟨addr, 64, len⟩] else []
    | none => []
  | _ => []

/-- The address texts of a LAN. -/
def configuredTexts (c : JsonC D) (lan : Json D) : List AddressText :=
  ipaddrTexts c lan ++ (extraTexts lan ++ staticTexts c lan)

/-- What a text asks for, when it can be parsed. -/
def textDemand (c : JsonC D) (host : Host) (ifindex : ℕ) (text : AddressText) : Option Demand :=
  let len := if text.prefixOverride ≥ 0 then text.prefixOverride else text.defaultPrefix
  if text.ip = "" then none
  else
    (parsePrefixValue c host (.obj [("ipaddr", .str text.ip), ("prefix", .int len)]) "ipaddr"
      text.defaultPrefix).map fun (family, address, prefixLen) =>
        ⟨ifindex, family, address, prefixLen, true⟩

/-- What the interface itself brings. -/
def runtimeDemands (host : Host) (ifindex : ℕ) (ifas : List IfAddr) : List Demand :=
  ifas.filterMap fun ifa => (runtimeAddress host ifindex ifa).map fun (family, address, prefixLen) =>
    ⟨ifindex, family, address, prefixLen, false⟩

/-- The demands of a LAN in the order of `build_lan_entry`. -/
def lanDemands (c : JsonC D) (host : Host) (lan : Json D) : List Demand :=
  let ifindex := lanIfindex c host lan
  (configuredTexts c lan).filterMap (textDemand c host ifindex) ++
    runtimeDemands host ifindex (host.ifAddrs.getD [])

/-- The entry of a registered WAN. -/
def wanOf (c : JsonC D) (host : Host) (wan : Json D) : Wan where
  wanId := (jsonInt c wan "id" 0).toNat
  familyMask := (jsonInt c wan "family_mask" 3 % 2 ^ 8).toNat
  registered := 1
  ifindex := parseIfindex c host wan "ifname"
  routeIdentity := (jsonInt c wan "route_identity" (jsonInt c wan "fwmark" 0) % 2 ^ 32).toNat
  tableId := (jsonInt c wan "table" 0 % 2 ^ 32).toNat

/-! ### Entries and their keys -/

/-- What `jmx_direction_snapshot_add_lan_prefix` compares. -/
def LanPrefix.key (e : LanPrefix) : ℕ × ℕ × ℕ × List UInt8 :=
  (e.ifindex, e.family, e.prefixLen, e.address.take (familyBytes e.family))

/-- What `jmx_direction_snapshot_add_local_address` compares. -/
def LocalAddress.key (e : LocalAddress) : ℕ × List UInt8 :=
  (e.family, e.address.take (familyBytes e.family))

def Demand.prefixKey (d : Demand) : ℕ × ℕ × ℕ × List UInt8 :=
  (lanPrefixOf d.ifindex d.family d.address d.prefixLen).key

def Demand.localKey (d : Demand) : ℕ × List UInt8 :=
  (d.family, d.address.take (familyBytes d.family))

/-- The snapshot holds the canonical prefix and the local address of a demand. -/
def Has (s : Snapshot) (d : Demand) : Prop :=
  d.prefixKey ∈ s.lanPrefixes.map LanPrefix.key ∧ d.localKey ∈ s.localAddresses.map LocalAddress.key

/-- What the parser gives. -/
structure Demand.Parsed (d : Demand) : Prop where
  ifindex : d.ifindex ≠ 0
  family : familyBytes d.family ≠ 0
  prefixLen : d.prefixLen ≤ familyBytes d.family * 8
  address : d.address.length = 16

theorem samePrefix_iff (a b : LanPrefix) : samePrefix a b = true ↔ a.key = b.key := by
  unfold samePrefix LanPrefix.key
  simp only [decide_eq_true_eq, Prod.mk.injEq]
  constructor
  · rintro ⟨hifindex, hfamily, hlen, haddress⟩
    exact ⟨hifindex, hfamily, hlen, by rw [hfamily, haddress]⟩
  · rintro ⟨hifindex, hfamily, hlen, haddress⟩
    exact ⟨hifindex, hfamily, hlen, by rw [← haddress, hfamily]⟩

variable {s : Snapshot}

theorem any_samePrefix {e : LanPrefix} : (s.lanPrefixes.any fun e' => samePrefix e' e) = true ↔
      e.key ∈ s.lanPrefixes.map LanPrefix.key := by
  rw [List.any_eq_true, List.mem_map]
  exact exists_congr fun e' => and_congr_right fun _ => samePrefix_iff e' e

variable {address : List UInt8}
variable {family : ℕ}

theorem any_addressEqual (hfamily : familyBytes family ≠ 0) :
    (s.localAddresses.any fun e => e.family = family ∧ addressEqual family e.address address)
        = true ↔
      (family, address.take (familyBytes family)) ∈ s.localAddresses.map LocalAddress.key := by
  rw [List.any_eq_true, List.mem_map]
  refine exists_congr fun e => and_congr_right fun _ => ?_
  unfold addressEqual LocalAddress.key
  simp only [decide_eq_true_eq, Prod.mk.injEq]
  constructor
  · rintro ⟨rfl, -, haddress⟩
    exact ⟨rfl, haddress⟩
  · rintro ⟨rfl, haddress⟩
    exact ⟨rfl, hfamily, haddress⟩

variable {d : Demand}

theorem key_localAddressOf (hd : d.Parsed) :
    (localAddressOf d.family d.address).key = d.localKey := by
  have hbytes := familyBytes_le d.family
  have hlength := hd.address
  show (d.family, (addrBuffer (d.address.take (familyBytes d.family))).take (familyBytes d.family))
    = (d.family, d.address.take (familyBytes d.family))
  congr 1
  rw [addrBuffer, take_take, Nat.min_eq_left hbytes, take_left']
  rw [length_take]
  omega

/-! ### Storing one demand -/

/-- The two entries of a demand; the first one stays where the second is refused. -/
def store (s : Snapshot) (d : Demand) : Bool × Snapshot :=
  match addLanPrefix s d.ifindex d.family d.address d.prefixLen with
  | none => (false, s)
  | some t =>
    match addLocalAddress t d.family d.address with
    | none => (false, t)
    | some u => (true, u)

theorem addBoth_eq (b : Build) (d : Demand) (text : String) :
    (addBoth b d.ifindex d.family d.address d.prefixLen text).1 = (store b.snapshot d).1 ∧
      (addBoth b d.ifindex d.family d.address d.prefixLen text).2.snapshot =
        (store b.snapshot d).2 := by
  unfold addBoth store
  cases addLanPrefix b.snapshot d.ifindex d.family d.address d.prefixLen with
  | none => exact ⟨rfl, rfl⟩
  | some t =>
    dsimp only
    cases addLocalAddress t d.family d.address <;> exact ⟨rfl, rfl⟩

variable {prefixLen : ℕ}

/-- **A prefix that is there already is left as it is**, also in a full snapshot. -/
theorem addLanPrefix_present {ifindex family : ℕ}
    (hifindex : ifindex ≠ 0) (hfamily : familyBytes family ≠ 0)
    (hlen : prefixLen ≤ familyBytes family * 8)
    (h : (lanPrefixOf ifindex family address prefixLen).key ∈ s.lanPrefixes.map LanPrefix.key) :
    addLanPrefix s ifindex family address prefixLen = some s := by
  unfold addLanPrefix
  dsimp only
  rw [if_neg, if_pos (any_samePrefix.mpr h)]
  rintro (hzero | hzero | hgt)
  · exact hifindex hzero
  · exact hfamily hzero
  · omega

/-- **A local address that is there already is accepted only below the capacity.** -/
theorem addLocalAddress_present (hfamily : familyBytes family ≠ 0)
    (h : (family, address.take (familyBytes family)) ∈ s.localAddresses.map LocalAddress.key) :
    addLocalAddress s family address = some s ↔ s.localAddresses.length < MAX_LOCAL_ADDRS := by
  unfold addLocalAddress
  by_cases hfull : s.localAddresses.length < MAX_LOCAL_ADDRS
  · rw [dif_neg, if_pos ((any_addressEqual hfamily).mpr h)]
    · exact ⟨fun _ => hfull, fun _ => rfl⟩
    · rintro (hzero | hge)
      · exact hfamily hzero
      · omega
  · rw [dif_pos (.inr (Nat.le_of_not_lt hfull))]
    exact ⟨nofun, fun hlt => absurd hlt hfull⟩

def Snapshot.prefixKeys (s : Snapshot) : List (ℕ × ℕ × ℕ × List UInt8) :=
  s.lanPrefixes.map LanPrefix.key

def Snapshot.localKeys (s : Snapshot) : List (ℕ × List UInt8) :=
  s.localAddresses.map LocalAddress.key

/-- There is room for a key among the keys there are: it is one of them, or they are not full. -/
def RoomFor {κ : Type} (keys : List κ) (capacity : ℕ) (key : κ) : Prop :=
  key ∈ keys ∨ keys.length < capacity

instance {κ : Type} [DecidableEq κ] (keys : List κ) (capacity : ℕ) (key : κ) :
    Decidable (RoomFor keys capacity key) := inferInstanceAs (Decidable (_ ∨ _))

/-- A key behind the others, unless it is one of them or they are full. -/
def insertKey {κ : Type} [DecidableEq κ] (keys : List κ) (capacity : ℕ) (key : κ) : List κ :=
  if key ∈ keys ∨ capacity ≤ keys.length then keys else keys ++ [key]

variable {κ : Type}

theorem subset_insertKey [DecidableEq κ] (keys : List κ) (capacity : ℕ) (key : κ) :
    keys ⊆ insertKey keys capacity key := by
  unfold insertKey
  split
  · exact List.Subset.refl _
  · exact subset_append_left _ _

variable {capacity : ℕ} {keys : List κ}

theorem insertKey_full [DecidableEq κ]
    (h : capacity ≤ keys.length) (key : κ) : insertKey keys capacity key = keys := if_pos (.inr h)

variable {key : κ}

theorem mem_insertKey [DecidableEq κ]
    (h : RoomFor keys capacity key) : key ∈ insertKey keys capacity key := by
  unfold insertKey
  split
  · next hstay =>
    rcases h with h | h
    · exact h
    · exact hstay.resolve_right (Nat.not_le_of_lt h)
  · exact mem_append_right _ (mem_singleton_self _)

theorem addLanPrefix_keys (hd : d.Parsed) : (RoomFor s.prefixKeys MAX_LAN_PREFIXES d.prefixKey ∧
      ∃ t, addLanPrefix s d.ifindex d.family d.address d.prefixLen = some t ∧
        t.prefixKeys = insertKey s.prefixKeys MAX_LAN_PREFIXES d.prefixKey ∧
        t.localAddresses = s.localAddresses) ∨
      (¬ RoomFor s.prefixKeys MAX_LAN_PREFIXES d.prefixKey ∧
        addLanPrefix s d.ifindex d.family d.address d.prefixLen = none) := by
  have hguard : ¬ (d.ifindex = 0 ∨ familyBytes d.family = 0 ∨
      d.prefixLen > familyBytes d.family * 8) := by
    rintro (h | h | h)
    · exact hd.ifindex h
    · exact hd.family h
    · exact Nat.not_le_of_lt h hd.prefixLen
  have hlength : s.prefixKeys.length = s.lanPrefixes.length := length_map _
  unfold addLanPrefix
  dsimp only
  rw [if_neg hguard]
  by_cases hpresent : d.prefixKey ∈ s.prefixKeys
  · rw [if_pos (any_samePrefix.mpr hpresent)]
    exact .inl ⟨.inl hpresent, s, rfl, (if_pos (.inl hpresent)).symm, rfl⟩
  rw [if_neg fun hany => hpresent (any_samePrefix.mp hany)]
  by_cases hroom : s.lanPrefixes.length < MAX_LAN_PREFIXES
  · rw [dif_pos hroom]
    refine .inl ⟨.inr (hlength ▸ hroom), _, rfl, ?_, rfl⟩
    rw [insertKey, if_neg (by rw [not_or]; exact ⟨hpresent, by omega⟩)]
    exact map_append
  · rw [dif_neg hroom]
    exact .inr ⟨fun h => h.elim hpresent fun h => hroom (hlength ▸ h), rfl⟩

theorem addLocalAddress_keys (hd : d.Parsed) : (s.localKeys.length < MAX_LOCAL_ADDRS ∧
      ∃ t, addLocalAddress s d.family d.address = some t ∧
        t.localKeys = insertKey s.localKeys MAX_LOCAL_ADDRS d.localKey ∧
        t.lanPrefixes = s.lanPrefixes) ∨
      (¬ s.localKeys.length < MAX_LOCAL_ADDRS ∧ addLocalAddress s d.family d.address = none) := by
  have hlength : s.localKeys.length = s.localAddresses.length := length_map _
  unfold addLocalAddress
  by_cases hroom : s.localAddresses.length < MAX_LOCAL_ADDRS
  · rw [dif_neg (by rw [not_or]; exact ⟨hd.family, by omega⟩)]
    by_cases hpresent : d.localKey ∈ s.localKeys
    · rw [if_pos ((any_addressEqual hd.family).mpr hpresent)]
      exact .inl ⟨hlength ▸ hroom, s, rfl, (if_pos (.inl hpresent)).symm, rfl⟩
    rw [if_neg fun hany => hpresent ((any_addressEqual hd.family).mp hany)]
    refine .inl ⟨hlength ▸ hroom, _, rfl, ?_, rfl⟩
    rw [insertKey, if_neg (by rw [not_or]; exact ⟨hpresent, by omega⟩)]
    show (s.localAddresses ++ [localAddressOf d.family d.address]).map LocalAddress.key = _
    rw [map_append, map_singleton, key_localAddressOf hd]
    rfl
  · rw [dif_pos (.inr (Nat.le_of_not_lt hroom))]
    exact .inr ⟨fun h => hroom (hlength ▸ h), rfl⟩

/-- There is room for both entries of a demand. -/
def Snapshot.Room (s : Snapshot) (d : Demand) : Prop :=
  RoomFor s.prefixKeys MAX_LAN_PREFIXES d.prefixKey ∧ RoomFor s.localKeys MAX_LOCAL_ADDRS d.localKey

/-- **What storing a demand does to the keys**, and when it is taken. -/
theorem store_keys (hd : d.Parsed) :
    (store s d).2.prefixKeys = insertKey s.prefixKeys MAX_LAN_PREFIXES d.prefixKey ∧
      (store s d).2.localKeys = (if RoomFor s.prefixKeys MAX_LAN_PREFIXES d.prefixKey then
          insertKey s.localKeys MAX_LOCAL_ADDRS d.localKey else s.localKeys) ∧
      ((store s d).1 = true → s.Room d) := by
  unfold store
  rcases addLanPrefix_keys (s := s) hd with ⟨hroom, t, ht, hkeys, hlocals⟩ | ⟨hfull, hnone⟩
  · have hlocalKeys : t.localKeys = s.localKeys := congrArg (List.map LocalAddress.key) hlocals
    rw [ht, if_pos hroom]
    dsimp only
    rcases addLocalAddress_keys (s := t) hd with ⟨hlt, u, hu, hukeys, hprefixes⟩ | ⟨hge, hnone⟩
    · rw [hu]
      rw [hlocalKeys] at hukeys hlt
      refine ⟨?_, hukeys, fun _ => ⟨hroom, .inr hlt⟩⟩
      exact (congrArg (List.map LanPrefix.key) hprefixes).trans hkeys
    · rw [hnone]
      rw [hlocalKeys] at hge
      refine ⟨hkeys, ?_, fun h => absurd h Bool.false_ne_true⟩
      rw [insertKey_full (Nat.le_of_not_lt hge)]
      exact hlocalKeys
  · rw [hnone, if_neg hfull]
    refine ⟨?_, rfl, fun h => absurd h Bool.false_ne_true⟩
    rw [insertKey_full (Nat.le_of_not_lt fun hlt => hfull (.inr hlt))]

/-- A demand is never in the snapshot: a key of it is missing and its section is full. -/
def Lost (s : Snapshot) (d : Demand) : Prop :=
  (d.prefixKey ∉ s.prefixKeys ∧ MAX_LAN_PREFIXES ≤ s.prefixKeys.length) ∨
    (d.localKey ∉ s.localKeys ∧ MAX_LOCAL_ADDRS ≤ s.localKeys.length)

theorem lost_of_no_room (h : ¬ s.Room d) : Lost s d := by
  rw [Snapshot.Room, not_and_or] at h
  unfold RoomFor at h
  rw [not_or, not_or, Nat.not_lt, Nat.not_lt] at h
  exact h

variable {e : Demand}

/-- What is stored stays. -/
theorem Has.store {d : Demand} (h : Has s e) (hd : d.Parsed) : Has (store s d).2 e := by
  obtain ⟨hstored, hlocal, -⟩ := store_keys (s := s) hd
  refine ⟨?_, ?_⟩
  · show e.prefixKey ∈ (Direction.store s d).2.prefixKeys
    rw [hstored]
    exact subset_insertKey _ _ _ h.1
  · show e.localKey ∈ (Direction.store s d).2.localKeys
    rw [hlocal]
    split
    · exact subset_insertKey _ _ _ h.2
    · exact h.2

/-- A full section takes nothing any more. -/
theorem Lost.store {d : Demand} (h : Lost s e) (hd : d.Parsed) : Lost (store s d).2 e := by
  obtain ⟨hstored, hlocal, -⟩ := store_keys (s := s) hd
  unfold Lost
  rcases h with ⟨hmissing, hfull⟩ | ⟨hmissing, hfull⟩
  · left
    rw [hstored, insertKey_full hfull]
    exact ⟨hmissing, hfull⟩
  · right
    have hkeep : (Direction.store s d).2.localKeys = s.localKeys := by
      rw [hlocal, insertKey_full hfull]
      exact ite_self _
    rw [hkeep]
    exact ⟨hmissing, hfull⟩

theorem Lost.not_has (h : Lost s d) : ¬ Has s d := by
  rintro ⟨hstored, hlocal⟩
  exact h.elim (fun h => h.1 hstored) fun h => h.1 hlocal

/-- With room both entries are there afterwards. -/
theorem has_of_room (h : s.Room d) (hd : d.Parsed) : Has (store s d).2 d := by
  obtain ⟨hstored, hlocal, -⟩ := store_keys (s := s) hd
  refine ⟨?_, ?_⟩
  · show d.prefixKey ∈ (store s d).2.prefixKeys
    rw [hstored]
    exact mem_insertKey h.1
  · show d.localKey ∈ (store s d).2.localKeys
    rw [hlocal, if_pos h.1]
    exact mem_insertKey h.2

/-! ### A run over demands -/

/-- Demands stored one behind the other; only those of the configuration may be refused. -/
inductive Stored : Snapshot → List Demand → Snapshot → Prop
  | nil (s : Snapshot) : Stored s [] s
  | cons {s t : Snapshot} {d : Demand} {ds : List Demand} (hd : d.Parsed)
      (hruntime : d.configured = false → (store s d).1 = true) :
      Stored (store s d).2 ds t → Stored s (d :: ds) t

variable {t : Snapshot}

theorem Stored.append {s u : Snapshot} {ds es : List Demand} (h : Stored s ds t)
    (h' : Stored t es u) : Stored s (ds ++ es) u := by
  induction h with
  | nil s => exact h'
  | cons hd hruntime _ ih => exact .cons hd hruntime (ih h')

variable {ds : List Demand}

theorem Has.stored {s : Snapshot} (h : Has s e) (hrun : Stored s ds t) : Has t e := by
  induction hrun with
  | nil s => exact h
  | cons hd _ _ ih => exact ih (h.store hd)

theorem Lost.stored {s : Snapshot} (h : Lost s e) (hrun : Stored s ds t) : Lost t e := by
  induction hrun with
  | nil s => exact h
  | cons hd _ _ ih => exact ih (h.store hd)

/-- There is room for a demand behind others, counting each key once. -/
def RoomBehind (done : List Demand) (d : Demand) : Prop :=
  (d.prefixKey ∈ done.map Demand.prefixKey ∨
      (done.map Demand.prefixKey).dedup.length < MAX_LAN_PREFIXES) ∧
    (d.localKey ∈ done.map Demand.localKey ∨
      (done.map Demand.localKey).dedup.length < MAX_LOCAL_ADDRS)

instance (done : List Demand) (d : Demand) : Decidable (RoomBehind done d) :=
  inferInstanceAs (Decidable (_ ∧ _))

/-- Every configured demand has room behind those in front of it. -/
def Roomy (done : List Demand) : List Demand → Prop
  | [] => True
  | d :: ds => (d.configured = true → RoomBehind done d) ∧ Roomy (done ++ [d]) ds

/-- The keys of the snapshot are those of the demands so far, each once. -/
structure Ledger (s : Snapshot) (done : List Demand) : Prop where
  prefixes_nodup : s.prefixKeys.Nodup
  prefixes_mem : ∀ k, k ∈ s.prefixKeys ↔ k ∈ done.map Demand.prefixKey
  locals_nodup : s.localKeys.Nodup
  locals_mem : ∀ k, k ∈ s.localKeys ↔ k ∈ done.map Demand.localKey

theorem length_eq_dedup [DecidableEq κ] {ks : List κ} (hnodup : keys.Nodup)
    (hmem : ∀ k, k ∈ keys ↔ k ∈ ks) : keys.length = ks.dedup.length :=
  ((perm_ext_iff_of_nodup hnodup (nodup_dedup ks)).mpr fun k =>
    (hmem k).trans mem_dedup.symm).length_eq

variable {done : List Demand}

theorem Ledger.room_iff (h : Ledger s done) (d : Demand) : s.Room d ↔ RoomBehind done d := by
  unfold Snapshot.Room RoomBehind RoomFor
  rw [h.prefixes_mem, h.locals_mem, length_eq_dedup h.prefixes_nodup h.prefixes_mem,
    length_eq_dedup h.locals_nodup h.locals_mem]

theorem insertKey_ledger [DecidableEq κ] {ks : List κ}
    (hroom : RoomFor keys capacity key) (hnodup : keys.Nodup) (hmem : ∀ k, k ∈ keys ↔ k ∈ ks) :
    (insertKey keys capacity key).Nodup ∧
      ∀ k, k ∈ insertKey keys capacity key ↔ k ∈ ks ++ [key] := by
  unfold insertKey
  split
  · next hstay =>
    have hin : key ∈ keys := by
      rcases hroom with h | h
      · exact h
      · exact hstay.resolve_right (Nat.not_le_of_lt h)
    refine ⟨hnodup, fun k => ?_⟩
    rw [hmem, mem_append, mem_singleton]
    refine ⟨.inl, ?_⟩
    rintro (h | rfl)
    · exact h
    · exact (hmem k).mp hin
  · next hnew =>
    rw [not_or] at hnew
    refine ⟨nodup_append.mpr ⟨hnodup, nodup_singleton _, ?_⟩, fun k => ?_⟩
    · intro a ha b hb hab
      rw [mem_singleton] at hb
      exact hnew.1 (hb ▸ hab ▸ ha)
    · rw [mem_append, mem_append, hmem]

theorem Ledger.store (h : Ledger s done)
    (hroom : s.Room d) (hd : d.Parsed) : Ledger (store s d).2 (done ++ [d]) := by
  obtain ⟨hstored, hlocal, -⟩ := store_keys (s := s) hd
  rw [if_pos hroom.1] at hlocal
  obtain ⟨hpn, hpm⟩ := insertKey_ledger hroom.1 h.prefixes_nodup h.prefixes_mem
  obtain ⟨hln, hlm⟩ := insertKey_ledger hroom.2 h.locals_nodup h.locals_mem
  refine ⟨hstored ▸ hpn, fun k => ?_, hlocal ▸ hln, fun k => ?_⟩
  · rw [hstored, map_append]
    exact hpm k
  · rw [hlocal, map_append]
    exact hlm k

/-- **After a run the snapshot holds every configured demand just when there was room for each.** -/
theorem Stored.completes_iff {s : Snapshot} (h : Stored s ds t) (hledger : Ledger s done) :
    (∀ d ∈ ds, d.configured = true → Has t d) ↔ Roomy done ds := by
  induction h generalizing done with
  | nil s => exact ⟨fun _ => trivial, fun _ _ hd => absurd hd not_mem_nil⟩
  | cons hd hruntime hrest ih =>
    rename_i s t d ds
    by_cases hroom : s.Room d
    · -- the demand is stored and stays
      have hhas := (has_of_room hroom hd).stored hrest
      rw [Roomy, ← ih (hledger.store hroom hd), forall_mem_cons]
      exact and_congr_left' ⟨fun _ _ => (hledger.room_iff d).mp hroom, fun _ _ => hhas⟩
    · -- it is one of the configuration, and it is lost for good
      have hconfigured : d.configured = true := by
        by_contra hno
        exact hroom ((store_keys hd).2.2 (hruntime (Bool.not_eq_true _ ▸ hno)))
      constructor
      · exact fun hall => absurd (hall d mem_cons_self hconfigured)
          (((lost_of_no_room hroom).store hd).stored hrest).not_has
      · exact fun hall => absurd ((hledger.room_iff d).mpr (hall.1 hconfigured)) hroom

/-! ### The builder is such a run -/

variable {host : Host}

theorem length_parseAddress {value : String}
    (h : parseAddress host value = some (family, address)) :
    familyBytes family ≠ 0 ∧ address.length = 16 := by
  unfold parseAddress at h
  split at h
  · obtain ⟨rfl, rfl⟩ := Prod.mk.inj (Option.some.inj h)
    exact ⟨by decide, length_addrBuffer _⟩
  obtain ⟨bytes, -, heq⟩ := map_eq_some_iff.mp h
  obtain ⟨rfl, rfl⟩ := Prod.mk.inj heq
  exact ⟨by decide, length_addrBuffer _⟩

variable {c : JsonC D}

theorem parsePrefixValue_parsed {entry : Json D} {ipKey : String} {defaultPrefix : ℤ} {family : ℕ}
    (h : parsePrefixValue c host entry ipKey defaultPrefix = some (family, address, prefixLen)) :
    familyBytes family ≠ 0 ∧ prefixLen ≤ familyBytes family * 8 ∧ address.length = 16 := by
  unfold parsePrefixValue at h
  simp only [Option.bind_eq_bind, Option.bind_eq_some_iff] at h
  obtain ⟨ip, -, _, -, ⟨text, slash⟩, -, ⟨family', address'⟩, hparse, _, hguard, heq⟩ := h
  have hrange : 0 ≤ slash.getD (jsonInt c entry "prefix" (jsonInt c entry "cidr" defaultPrefix)) ∧
      slash.getD (jsonInt c entry "prefix" (jsonInt c entry "cidr" defaultPrefix)) ≤
        familyBytes family' * 8 := by
    unfold guard at hguard
    split at hguard
    · assumption
    · cases hguard
  obtain ⟨rfl, hpair⟩ := Prod.mk.inj (Option.some.inj heq)
  obtain ⟨rfl, rfl⟩ := Prod.mk.inj hpair
  obtain ⟨hfamily, hlength⟩ := length_parseAddress hparse
  refine ⟨hfamily, ?_, hlength⟩
  dsimp only
  omega

variable {ifindex : ℕ}

theorem textDemand_parsed {text : AddressText}
    (hifindex : ifindex ≠ 0) (h : textDemand c host ifindex text = some d) :
    d.Parsed ∧ d.configured = true := by
  unfold textDemand at h
  dsimp only at h
  split at h
  · cases h
  obtain ⟨⟨family, address, prefixLen⟩, hparse, rfl⟩ := map_eq_some_iff.mp h
  obtain ⟨hfamily, hlen, hlength⟩ := parsePrefixValue_parsed hparse
  exact ⟨⟨hifindex, hfamily, hlen, hlength⟩, rfl⟩

/-- One configured text. -/
theorem addLanAddress_stored (c : JsonC D) (host : Host) (b : Build)
    (hifindex : ifindex ≠ 0) (text : AddressText) :
    Stored b.snapshot (textDemand c host ifindex text).toList
      (addLanAddress c host b ifindex text.ip text.defaultPrefix text.prefixOverride).2.snapshot := by
  cases hdemand : textDemand c host ifindex text with
  | none =>
    have hkeep : (addLanAddress c host b ifindex text.ip text.defaultPrefix
        text.prefixOverride).2 = b := by
      unfold textDemand at hdemand
      unfold addLanAddress
      dsimp only at hdemand ⊢
      split at hdemand
      · next hempty => rw [if_pos hempty]
      · next hempty =>
        rw [if_neg hempty, Option.map_eq_none_iff.mp hdemand]
    rw [hkeep]
    exact .nil _
  | some d =>
    obtain ⟨hparsed, hconfigured⟩ := textDemand_parsed hifindex hdemand
    have hstore : (addLanAddress c host b ifindex text.ip text.defaultPrefix
        text.prefixOverride).2.snapshot = (store b.snapshot d).2 := by
      unfold textDemand at hdemand
      unfold addLanAddress
      dsimp only at hdemand ⊢
      split at hdemand
      · cases hdemand
      rename_i hempty
      obtain ⟨⟨family, address, prefixLen⟩, hparse, rfl⟩ := map_eq_some_iff.mp hdemand
      rw [if_neg hempty, hparse]
      dsimp only
      have hboth := (addBoth_eq b ⟨ifindex, family, address, prefixLen, true⟩
        "managed LAN snapshot capacity exceeded").2
      rw [← hboth]
      split <;> next heq => rw [heq]
    rw [hstore]
    refine .cons hparsed (fun h => ?_) (.nil _)
    rw [hconfigured] at h
    cases h

/-- The texts of a configuration, one behind the other. -/
def addTexts (c : JsonC D) (host : Host) (ifindex : ℕ) (b : Build) (texts : List AddressText) :
    Build :=
  texts.foldl (fun b text =>
    (addLanAddress c host b ifindex text.ip text.defaultPrefix text.prefixOverride).2) b

theorem addTexts_stored (c : JsonC D) (host : Host) (hifindex : ifindex ≠ 0)
    (texts : List AddressText) (b : Build) :
    Stored b.snapshot (texts.filterMap (textDemand c host ifindex))
      (addTexts c host ifindex b texts).snapshot := by
  induction texts generalizing b with
  | nil => exact .nil _
  | cons text texts ih =>
    have hfirst := addLanAddress_stored c host b hifindex text
    have hrest := ih (addLanAddress c host b ifindex text.ip text.defaultPrefix
      text.prefixOverride).2
    cases hdemand : textDemand c host ifindex text with
    | none =>
      rw [filterMap_cons_none hdemand]
      rw [hdemand] at hfirst
      exact hfirst.append hrest
    | some d =>
      rw [filterMap_cons_some hdemand]
      rw [hdemand] at hfirst
      exact hfirst.append hrest

theorem extraLoop_eq (c : JsonC D) (host : Host) (ifindex : ℕ) (extras : List (Json D))
    (b : Build) (added : ℤ) :
    (extraLoop c host ifindex extras b added).2 = addTexts c host ifindex b (extras.filterMap fun
        | .str extra => some ⟨cstr extra, 24, -1⟩
        | _ => none) := by
  induction extras generalizing b added with
  | nil => rfl
  | cons extra extras ih =>
    cases extra with
    | str extra => exact ih _ _
    | _ => exact ih b added

/-- The three sources of the configuration are its texts in order. -/
theorem configured_eq (c : JsonC D) (host : Host) (lan : Json D) (ifindex : ℕ) (b : Build) :
    (addStaticV6 c host lan ifindex
        (addExtraIps c host lan ifindex (addIpaddr c host lan ifindex b).2).2).2 =
      addTexts c host ifindex b (configuredTexts c lan) := by
  have hipaddr : (addIpaddr c host lan ifindex b).2 =
      addTexts c host ifindex b (ipaddrTexts c lan) := by
    unfold addIpaddr ipaddrTexts
    cases jsonString lan "ipaddr" <;> rfl
  have hextra : ∀ b, (addExtraIps c host lan ifindex b).2 =
      addTexts c host ifindex b (extraTexts lan) := by
    intro b
    unfold addExtraIps extraTexts
    cases lan.get "extra_ips" with
    | none => rfl
    | some value =>
      cases value with
      | arr extras => exact extraLoop_eq c host ifindex extras b 0
      | _ => rfl
  have hstatic : ∀ b, (addStaticV6 c host lan ifindex b).2 =
      addTexts c host ifindex b (staticTexts c lan) := by
    intro b
    unfold addStaticV6 staticTexts
    cases lan.get "ipv6" with
    | none => rfl
    | some value =>
      cases value with
      | obj ms =>
        dsimp only
        cases jsonString (.obj ms) "addr" with
        | none => rfl
        | some addr =>
          dsimp only
          by_cases hguard : addr ≠ "" ∧ 0 ≤ jsonInt c (.obj ms) "prefix_len" 64 ∧
              jsonInt c (.obj ms) "prefix_len" 64 ≤ 128
          · rw [if_pos hguard, if_pos hguard]
            rfl
          · rw [if_neg hguard, if_neg hguard]
            rfl
      | _ => rfl
  rw [hstatic, hextra, hipaddr]
  unfold configuredTexts addTexts
  rw [foldl_append, foldl_append]

/-- The loop over the interface's addresses stores all of them or fails. -/
theorem runtimeLoop_stored (ifas : List IfAddr) (b : Build) {added : ℤ} (hadded : 0 ≤ added)
    (hok : ¬ (runtimeLoop host ifindex ifas b added).1 < 0) :
    Stored b.snapshot (runtimeDemands host ifindex ifas)
      (runtimeLoop host ifindex ifas b added).2.snapshot := by
  induction ifas generalizing b added with
  | nil => exact .nil _
  | cons ifa ifas ih =>
    unfold runtimeDemands
    unfold runtimeLoop at hok ⊢
    cases haddress : runtimeAddress host ifindex ifa with
    | none =>
      rw [filterMap_cons_none (by rw [haddress]; rfl)]
      rw [haddress] at hok
      exact ih b hadded hok
    | some found =>
      obtain ⟨family, address, prefixLen⟩ := found
      rw [filterMap_cons_some (by rw [haddress]; rfl)]
      rw [haddress] at hok
      dsimp only at hok ⊢
      obtain ⟨hone, htwo⟩ := addBoth_eq b ⟨ifindex, family, address, prefixLen, false⟩
        "runtime LAN snapshot capacity exceeded"
      dsimp only at hone htwo
      rcases hboth : addBoth b ifindex family address prefixLen
          "runtime LAN snapshot capacity exceeded" with ⟨ok, b'⟩
      rw [hboth] at hok hone htwo
      cases ok with
      | false => exact absurd (show (-1 : ℤ) < 0 by decide) hok
      | true =>
        dsimp only at hok hone htwo ⊢
        have hparsed : Demand.Parsed ⟨ifindex, family, address, prefixLen, false⟩ := by
          have hlength : address.length = 16 := by
            unfold runtimeAddress at haddress
            split at haddress
            · split at haddress
              · cases haddress
              split at haddress
              · obtain ⟨len, -, heq⟩ := map_eq_some_iff.mp haddress
                rw [← (Prod.mk.inj (Prod.mk.inj heq).2).1]
                exact length_addrBuffer _
              · obtain ⟨len, -, heq⟩ := map_eq_some_iff.mp haddress
                rw [← (Prod.mk.inj (Prod.mk.inj heq).2).1]
                exact length_addrBuffer _
              · cases haddress
            · cases haddress
          -- it was taken, so that it passed the checks of the entry
          have htaken : addLanPrefix b.snapshot ifindex family address prefixLen ≠ none := by
            intro hnone
            rw [store, hnone] at hone
            cases hone
          unfold addLanPrefix at htaken
          dsimp only at htaken
          split at htaken
          · exact absurd rfl htaken
          rename_i hguard
          rw [not_or, not_or] at hguard
          exact ⟨hguard.1, hguard.2.1, Nat.le_of_not_lt hguard.2.2, hlength⟩
        refine .cons hparsed (fun _ => hone.symm) ?_
        rw [← htwo]
        exact ih b' (by omega) hok

variable {b b' : Build}

/-- **A LAN that is accepted is a run over its demands.** -/
theorem buildLanEntry_stored {lan : Json D} (h : buildLanEntry c host b lan = (true, b')) :
    Stored b.snapshot (lanDemands c host lan) b'.snapshot := by
  unfold buildLanEntry at h
  split at h
  · cases h
  dsimp only at h
  unfold lanDemands
  change (if lanIfindex c host lan = 0 then _ else _) = _ at h
  have hset : (if parseIfindex c host lan "ifname" = 0 then parseIfindex c host lan "device"
      else parseIfindex c host lan "ifname") = lanIfindex c host lan := rfl
  rw [hset] at h
  generalize lanIfindex c host lan = ifindex at h ⊢
  split at h
  · cases h
  next hifindex =>
  split at h
  · cases h
  next hruntime =>
  split at h
  · cases h
  obtain ⟨-, rfl⟩ := Prod.mk.inj h
  rw [configured_eq] at hruntime ⊢
  refine (addTexts_stored c host hifindex _ b).append ?_
  unfold addRuntimeLanAddresses at hruntime ⊢
  rw [if_neg hifindex] at hruntime ⊢
  cases hifas : host.ifAddrs with
  | none => exact .nil _
  | some ifas =>
    rw [hifas] at hruntime
    exact runtimeLoop_stored ifas _ (le_refl 0) hruntime

theorem buildAll_stored (lans : List (Json D))
    (h : buildAll (buildLanEntry c host) b lans = (true, b')) :
    Stored b.snapshot (lans.flatMap (lanDemands c host)) b'.snapshot := by
  induction lans generalizing b with
  | nil =>
    obtain ⟨-, rfl⟩ := Prod.mk.inj h
    exact .nil _
  | cons lan lans ih =>
    unfold buildAll at h
    split at h
    · cases h
    · next b₁ heq => exact (buildLanEntry_stored heq).append (ih h)

/-! ### WANs -/

variable {ws : List Wan} {w : Wan}

theorem mem_replaceWan_self
    (h : (ws.any fun v => v.wanId = w.wanId) = true) : w ∈ replaceWan w ws := by
  induction ws with
  | nil => cases h
  | cons v vs ih =>
    unfold replaceWan
    split
    · exact mem_cons_self
    rename_i hne
    rw [any_cons, decide_eq_false hne, Bool.false_or] at h
    exact mem_cons_of_mem _ (ih h)

theorem mem_replaceWan_of_ne {v : Wan} (hv : v ∈ ws) (hne : v.wanId ≠ w.wanId) :
    v ∈ replaceWan w ws := by
  induction ws with
  | nil => exact absurd hv not_mem_nil
  | cons u us ih =>
    unfold replaceWan
    rcases mem_cons.mp hv with rfl | hv
    · rw [if_neg hne]
      exact mem_cons_self
    · split
      · exact mem_cons_of_mem _ hv
      · exact mem_cons_of_mem _ (ih hv)

/-- A WAN that is added is in the snapshot, the others stay, and so do their ids. -/
theorem addWan_holds {s : Snapshot} (hregistered : w.registered = 1)
    (h : addWan s w.wanId w.familyMask w.ifindex w.routeIdentity w.tableId = some t) :
    t.lanPrefixes = s.lanPrefixes ∧ t.localAddresses = s.localAddresses ∧ w ∈ t.wans ∧
      (∀ v ∈ s.wans, v.wanId ≠ w.wanId → v ∈ t.wans) ∧
      ∀ v ∈ s.wans, v.wanId ∈ t.wans.map Wan.wanId := by
  obtain ⟨wanId, familyMask, registered, ifindex, routeIdentity, tableId⟩ := w
  obtain rfl : registered = 1 := hregistered
  unfold addWan at h
  dsimp only at h
  split at h
  · cases h
  split at h
  · next hknown =>
    obtain rfl := Option.some.inj h
    refine ⟨rfl, rfl, mem_replaceWan_self hknown, fun v hv hne => mem_replaceWan_of_ne hv hne,
      fun v hv => ?_⟩
    dsimp only
    rw [map_wanId_replaceWan]
    exact List.mem_map_of_mem hv
  split at h
  · obtain rfl := Option.some.inj h
    exact ⟨rfl, rfl, mem_append_right _ (mem_singleton_self _), fun v hv _ => mem_append_left _ hv,
      fun v hv => List.mem_map_of_mem (mem_append_left _ hv)⟩
  · cases h

/-- A run over the WANs leaves the addresses alone, and every id keeps its last entry. -/
theorem buildAll_wans (wans : List (Json D))
    (h : buildAll (buildWanEntry c host) b wans = (true, b')) :
    b'.snapshot.lanPrefixes = b.snapshot.lanPrefixes ∧
      b'.snapshot.localAddresses = b.snapshot.localAddresses ∧
      (∀ v ∈ b.snapshot.wans, (∀ wan ∈ wans, v.wanId ≠ (wanOf c host wan).wanId) →
        v ∈ b'.snapshot.wans) ∧
      (∀ front wan back, wans = front ++ wan :: back →
        (∀ later ∈ back, (wanOf c host wan).wanId ≠ (wanOf c host later).wanId) →
        wanOf c host wan ∈ b'.snapshot.wans) ∧
      (∀ v ∈ b.snapshot.wans, v.wanId ∈ b'.snapshot.wans.map Wan.wanId) ∧
      ∀ wan ∈ wans, (wanOf c host wan).wanId ∈ b'.snapshot.wans.map Wan.wanId := by
  induction wans generalizing b with
  | nil =>
    obtain ⟨-, rfl⟩ := Prod.mk.inj h
    refine ⟨rfl, rfl, fun v hv _ => hv, fun front wan back heq => ?_,
      fun v hv => List.mem_map_of_mem hv, fun wan hwan => absurd hwan not_mem_nil⟩
    exact absurd heq.symm (by simp)
  | cons wan wans ih =>
    unfold buildAll at h
    split at h
    · cases h
    next b₁ hentry =>
    obtain ⟨hlan, hlocal, hmem, hstay, hids⟩ : b₁.snapshot.lanPrefixes = b.snapshot.lanPrefixes ∧
        b₁.snapshot.localAddresses = b.snapshot.localAddresses ∧
        wanOf c host wan ∈ b₁.snapshot.wans ∧
        (∀ v ∈ b.snapshot.wans, v.wanId ≠ (wanOf c host wan).wanId → v ∈ b₁.snapshot.wans) ∧
        ∀ v ∈ b.snapshot.wans, v.wanId ∈ b₁.snapshot.wans.map Wan.wanId := by
      unfold buildWanEntry at hentry
      dsimp only at hentry
      split at hentry
      · cases hentry
      split at hentry
      · cases hentry
      next t hadd =>
      obtain ⟨-, rfl⟩ := Prod.mk.inj hentry
      have hadd' : addWan b.snapshot (wanOf c host wan).wanId (wanOf c host wan).familyMask
        (wanOf c host wan).ifindex (wanOf c host wan).routeIdentity (wanOf c host wan).tableId
          = some t := hadd
      exact addWan_holds rfl hadd'
    obtain ⟨hlan', hlocal', hstay', hlast', hids', hlater'⟩ := ih h
    have hidsAll : ∀ v ∈ b₁.snapshot.wans, v.wanId ∈ b'.snapshot.wans.map Wan.wanId := hids'
    refine ⟨hlan'.trans hlan, hlocal'.trans hlocal, fun v hv hne => ?_,
      fun front wan' back heq hback => ?_, fun v hv => ?_, fun wan' hwan' => ?_⟩
    · exact hstay' v (hstay v hv (hne wan mem_cons_self)) fun w hw =>
        hne w (mem_cons_of_mem _ hw)
    · cases front with
      | nil =>
        obtain ⟨rfl, rfl⟩ := List.cons.inj heq
        exact hstay' _ hmem hback
      | cons first front =>
        obtain ⟨rfl, htail⟩ := List.cons.inj heq
        exact hlast' front wan' back htail hback
    · obtain ⟨u, hu, heq⟩ := List.mem_map.mp (hids v hv)
      exact heq ▸ hidsAll u hu
    · rcases mem_cons.mp hwan' with rfl | hwan'
      · exact hidsAll _ hmem
      · exact hlater' wan' hwan'

/-! ### The whole build -/

/-- The snapshot holds every address of the configuration that can be parsed, and every registered
    WAN, each id as the last of its entries has it. -/
structure Complete (c : JsonC D) (host : Host) (lans wans : List (Json D)) (s : Snapshot) :
    Prop where
  addresses : ∀ lan ∈ lans, ∀ text ∈ configuredTexts c lan,
    ∀ d, textDemand c host (lanIfindex c host lan) text = some d → Has s d
  registered : ∀ wan ∈ wans, (wanOf c host wan).wanId ∈ s.wans.map Wan.wanId
  last : ∀ front wan back, wans = front ++ wan :: back →
    (∀ later ∈ back, (wanOf c host wan).wanId ≠ (wanOf c host later).wanId) →
    wanOf c host wan ∈ s.wans

/-- The lists of the two documents. -/
def lansOf (lanData : Json D) : List (Json D) := (jsonArray lanData "lans").getD []

def wansOf (registeredWans : Json D) : List (Json D) :=
  match registeredWans with
  | .arr wans => wans
  | _ => []

theorem ledger_init (generation : ℕ) (gatewayMode : Bool) :
    Ledger (snapshotInit generation gatewayMode) [] :=
  ⟨nodup_nil, fun _ => Iff.rfl, nodup_nil, fun _ => Iff.rfl⟩

/-- The demands of the configuration are the ones of its texts. -/
theorem configured_iff {lans : List (Json D)} :
    (∀ d ∈ lans.flatMap (lanDemands c host), d.configured = true → Has t d) ↔
      ∀ lan ∈ lans, ∀ text ∈ configuredTexts c lan,
        ∀ d, textDemand c host (lanIfindex c host lan) text = some d → Has t d := by
  have hconfigured : ∀ {ifindex text d}, textDemand c host ifindex text = some d →
      d.configured = true := by
    intro ifindex text d hd
    unfold textDemand at hd
    dsimp only at hd
    split at hd
    · cases hd
    · obtain ⟨⟨family, address, prefixLen⟩, -, rfl⟩ := map_eq_some_iff.mp hd
      rfl
  constructor
  · intro hall lan hlan text htext d hd
    refine hall d (mem_flatMap.mpr ⟨lan, hlan, ?_⟩) (hconfigured hd)
    exact mem_append_left _ (mem_filterMap.mpr ⟨text, htext, hd⟩)
  · intro hall d hd hconf
    obtain ⟨lan, hlan, hmem⟩ := mem_flatMap.mp hd
    rcases mem_append.mp hmem with hmem | hmem
    · obtain ⟨text, htext, heq⟩ := mem_filterMap.mp hmem
      exact hall lan hlan text htext d heq
    · obtain ⟨ifa, -, heq⟩ := mem_filterMap.mp hmem
      obtain ⟨⟨family, address, prefixLen⟩, -, rfl⟩ := map_eq_some_iff.mp heq
      cases hconf

/-- A library for documents without doubles. -/
def plainJson : JsonC ℤ where
  print _ := []
  printSpaced _ := []
  parse _ := none
  parseInt _ := 0
  ofInt n := n
  toInt n := n
  isZero n := n = 0
  isFinite _ := true
  eq a b := a = b
  le a b := a ≤ b
  lt a b := a < b

/-- A bridge, a guest bridge and a WAN device; the bridge has `10.k.0.1/16` for every `k < n`. -/
def bridgeHost (n : ℕ) : Host where
  ifIndex name := if name = "br-lan" then 4 else if name = "br-guest" then 5
    else if name = "wan0" then 6 else 0
  ptonV4 text := if text = "10.200.0.1" then some [10, 200, 0, 1] else none
  ptonV6 _ := none
  ifAddrs := some ((List.range n).map fun k =>
    ⟨some "br-lan", some (.v4 [10, UInt8.ofNat k, 0, 1]), some (.v4 [255, 255, 0, 0])⟩)

def twoLans : Json ℤ :=
  .obj [("lans", .arr [.obj [("ifname", .str "br-lan")],
    .obj [("ifname", .str "br-guest"), ("ipaddr", .str "10.200.0.1")]])]

def oneWan : Json ℤ := .arr [.obj [("id", .int 1), ("ifname", .str "wan0"), ("fwmark", .int 256)]]

@[irreducible] def bridgeBuild (n : ℕ) : Bool × Build := buildJson plainJson (bridgeHost n) twoLans oneWan true 7

/-- The address `10.k.0.1`. -/
def bridgeAddress (k : ℕ) : List UInt8 := addrBuffer [10, UInt8.ofNat k, 0, 1]

/-- The snapshot with the first addresses of the bridge. -/
def bridgeSnapshot (k : ℕ) (h : k ≤ 128) : Snapshot :=
  { snapshotInit 7 true with
    lanPrefixes := (List.range k).map fun i => lanPrefixOf 4 4 (bridgeAddress i) 16
    localAddresses := (List.range k).map fun i => localAddressOf 4 (bridgeAddress i)
    lanPrefixes_le := by rw [length_map, length_range]; exact h
    localAddresses_le := by rw [length_map, length_range]; exact h }

/-- The next address is a new one, and finds room. -/
theorem addBoth_bridge {k : ℕ} (h : k < 128) (error text : String) :
    addBoth ⟨bridgeSnapshot k h.le, error⟩ 4 4 (bridgeAddress k) 16 text =
      (true, ⟨bridgeSnapshot (k + 1) h, error⟩) := by
  have hne : ∀ i < k, UInt8.ofNat i ≠ UInt8.ofNat k := by
    intro i hi heq
    have hnat := congrArg UInt8.toNat heq
    simp only [UInt8.toNat_ofNat'] at hnat
    omega
  have hprefix : (bridgeSnapshot k h.le).lanPrefixes.any
      (fun e => samePrefix e (lanPrefixOf 4 4 (bridgeAddress k) 16)) = false := by
    refine List.any_eq_false.mpr fun e he hsame => ?_
    obtain ⟨i, hi, rfl⟩ := List.mem_map.mp he
    have hkeys := congrArg (fun key => key.2.2.2) ((samePrefix_iff _ _).mp hsame)
    exact hne i (mem_range.mp hi) (List.cons.inj (List.cons.inj hkeys).2).1
  have hlocal : (bridgeSnapshot k h.le).localAddresses.any
      (fun e => e.family = 4 ∧ addressEqual 4 e.address (bridgeAddress k)) = false := by
    refine List.any_eq_false.mpr fun e he hsame => ?_
    obtain ⟨i, hi, rfl⟩ := List.mem_map.mp he
    have hbytes : (bridgeAddress i).take 4 = (bridgeAddress k).take 4 :=
      (of_decide_eq_true (of_decide_eq_true hsame).2).2
    exact hne i (mem_range.mp hi) (List.cons.inj (List.cons.inj hbytes).2).1
  have hroom : (bridgeSnapshot k h.le).lanPrefixes.length < MAX_LAN_PREFIXES := by
    rw [bridgeSnapshot, length_map, length_range]
    exact h
  have hspace : ¬ (familyBytes 4 = 0 ∨ MAX_LOCAL_ADDRS ≤
      (bridgeSnapshot k h.le).localAddresses.length) := by
    rw [bridgeSnapshot, length_map, length_range]
    exact not_or.mpr ⟨by decide, Nat.not_le.mpr h⟩
  unfold addBoth addLanPrefix
  dsimp only
  rw [if_neg (by decide), hprefix, if_neg Bool.false_ne_true, dif_pos hroom]
  dsimp only
  unfold addLocalAddress
  rw [dif_neg hspace, hlocal, if_neg Bool.false_ne_true]
  simp only [bridgeSnapshot, range_succ, map_append, map_singleton]

/-- An address of the bridge, as the interface reports it. -/
def bridgeIfAddr (k : ℕ) : IfAddr :=
  ⟨some "br-lan", some (.v4 [10, UInt8.ofNat k, 0, 1]), some (.v4 [255, 255, 0, 0])⟩

variable {n : ℕ}

theorem runtimeLoop_bridge {k m : ℕ} (h : k + m ≤ 128) (error : String) (added : ℤ) :
    runtimeLoop (bridgeHost n) 4 ((List.range' k m).map bridgeIfAddr)
      ⟨bridgeSnapshot k (by omega), error⟩ added =
      (added + m, ⟨bridgeSnapshot (k + m) h, error⟩) := by
  induction m generalizing k added with
  | zero => simp [runtimeLoop]
  | succ m ih =>
    have haddress : runtimeAddress (bridgeHost n) 4 (bridgeIfAddr k) =
        some (4, bridgeAddress k, 16) := rfl
    rw [range'_succ, map_cons, runtimeLoop, haddress]
    dsimp only
    rw [addBoth_bridge (by omega)]
    dsimp only
    rw [ih (by omega)]
    simp only [Nat.add_right_comm k 1 m, Nat.cast_add, Nat.cast_one, ← Nat.add_assoc]
    rw [add_assoc, add_comm 1]

def bridgeLan : Json ℤ := .obj [("ifname", .str "br-lan")]

def guestLan : Json ℤ := .obj [("ifname", .str "br-guest"), ("ipaddr", .str "10.200.0.1")]

theorem addRuntime_bridge (h : n ≤ 128) :
    addRuntimeLanAddresses (bridgeHost n) ⟨snapshotInit 7 true, ""⟩ 4 =
      ((n : ℤ), ⟨bridgeSnapshot n h, ""⟩) := by
  have hloop := runtimeLoop_bridge (n := n) (k := 0) (m := n) (by omega) "" 0
  rw [← range_eq_range'] at hloop
  simp only [zero_add] at hloop
  exact hloop

theorem buildLanEntry_bridge (h : n ≤ 128) (hpos : n ≠ 0) :
    buildLanEntry plainJson (bridgeHost n) ⟨snapshotInit 7 true, ""⟩ bridgeLan =
      (true, ⟨bridgeSnapshot n h, ""⟩) := by
  show (if (addRuntimeLanAddresses (bridgeHost n) ⟨snapshotInit 7 true, ""⟩ 4).1 < 0 then _
    else if 0 + 0 + 0 + (addRuntimeLanAddresses (bridgeHost n) ⟨snapshotInit 7 true, ""⟩ 4).1 = 0
    then _ else _) = _
  rw [addRuntime_bridge h, if_neg (by dsimp only; omega), if_neg (by dsimp only; omega)]
  show (true, (addRuntimeLanAddresses (bridgeHost n) ⟨snapshotInit 7 true, ""⟩ 4).2) = _
  rw [addRuntime_bridge h]

theorem bridgeBuild_eq (n : ℕ) : bridgeBuild n =
    buildGateway plainJson (bridgeHost n) ⟨snapshotInit 7 true, ""⟩ [bridgeLan, guestLan]
      (wansOf oneWan) := by
  unfold bridgeBuild
  rfl

/-- The guest LAN finds the snapshot full. -/
theorem bridgeBuild_full : (bridgeBuild 128).1 = true ∧
    (∀ k ∈ (bridgeBuild 128).2.snapshot.prefixKeys, k.1 = 4) ∧
    (4, [10, 0, 0, 1]) ∈ (bridgeBuild 128).2.snapshot.localKeys ∧
    MAX_LOCAL_ADDRS ≤ (bridgeBuild 128).2.snapshot.localAddresses.length := by
  have hfirst : buildAll (buildLanEntry plainJson (bridgeHost 128)) ⟨snapshotInit 7 true, ""⟩
      [bridgeLan, guestLan] = buildAll (buildLanEntry plainJson (bridgeHost 128))
        ⟨bridgeSnapshot 128 le_rfl, ""⟩ [guestLan] := by
    rw [buildAll, buildLanEntry_bridge le_rfl (by decide)]
  rw [bridgeBuild_eq, buildGateway, hfirst]
  decide +kernel

end DreamingOS.Direction
