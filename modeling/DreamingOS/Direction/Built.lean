import DreamingOS.Direction.Build

namespace DreamingOS.Direction

open List Option

/-!
# Flow direction — what the builder builds

* `Entries` — every entry passes the checks of the kernel and is a value of its C type;
* `Grows` — a step of the builder: the head stays, and the entries stay good;
* `addLanPrefix_grows` … `buildWanEntry_grows` — the steps;
* `Built`, `built_of_buildJson` — **a snapshot that was built is valid for the kernel**, and is
  empty where the box is no gateway.
-/

variable {D : Type}

/-! ### Good entries -/

/-- The entries pass the checks of the kernel. -/
structure Entries (s : Snapshot) : Prop where
  lanPrefixes : ∀ p ∈ s.lanPrefixes, prefixValid p = true ∧ p.Representable
  localAddresses : ∀ a ∈ s.localAddresses, localValid a = true ∧ a.Representable
  wans : ∀ w ∈ s.wans, wanValid w = true ∧ w.registered = 1 ∧ w.Representable
  distinct : (s.wans.map Wan.wanId).Nodup

/-- From `s` to `t` entries were added, and nothing else changed. -/
structure Grows (s t : Snapshot) : Prop where
  version : t.version = s.version
  generation : t.generation = s.generation
  ready : t.ready = s.ready
  gatewayMode : t.gatewayMode = s.gatewayMode
  entries : Entries s → Entries t

theorem Grows.refl (s : Snapshot) : Grows s s := ⟨rfl, rfl, rfl, rfl, id⟩

variable {t : Snapshot}

theorem Grows.trans {s u : Snapshot} (h : Grows s t) (h' : Grows t u) : Grows s u where
  version := h'.version.trans h.version
  generation := h'.generation.trans h.generation
  ready := h'.ready.trans h.ready
  gatewayMode := h'.gatewayMode.trans h.gatewayMode
  entries := h'.entries ∘ h.entries

variable {family : ℕ}

theorem family_of_bytes (h : familyBytes family ≠ 0) :
    family = FAMILY_IPV4 ∨ family = FAMILY_IPV6 := by
  by_contra hno
  rw [not_or] at hno
  apply h
  unfold familyBytes
  rw [if_neg hno.1, if_neg hno.2]

theorem family_lt (h : familyBytes family ≠ 0) : family < 256 ^ 1 := by
  rcases family_of_bytes h with rfl | rfl <;> decide

/-! ### One more entry -/

variable {address : List UInt8}

theorem addLanPrefix_grows {s : Snapshot} {ifindex prefixLen : ℕ} (hifindex : ifindex < 256 ^ 4)
    (h : addLanPrefix s ifindex family address prefixLen = some t) : Grows s t := by
  unfold addLanPrefix at h
  dsimp only at h
  split at h
  · cases h
  next hok =>
  push Not at hok
  obtain ⟨hne, hfamily, hlen⟩ := hok
  split at h
  · -- the prefix is there already
    obtain rfl := some.inj h
    exact Grows.refl s
  split at h
  · obtain rfl := some.inj h
    refine ⟨rfl, rfl, rfl, rfl, fun he => ⟨?_, he.localAddresses, he.wans, he.distinct⟩⟩
    intro p hp
    rcases mem_append.mp hp with hp | hp
    · exact he.lanPrefixes p hp
    · rw [mem_singleton.mp hp]
      have hbytes := familyBytes_le family
      refine ⟨decide_eq_true ⟨hne, hfamily, hlen⟩, hifindex, family_lt hfamily, ?_⟩
      show prefixLen < 256 ^ 1
      omega
  · cases h

theorem addLocalAddress_grows {s : Snapshot}
    (h : addLocalAddress s family address = some t) : Grows s t := by
  unfold addLocalAddress at h
  split at h
  · cases h
  next hok =>
  rw [not_or] at hok
  split at h
  · obtain rfl := some.inj h
    exact Grows.refl s
  obtain rfl := some.inj h
  refine ⟨rfl, rfl, rfl, rfl, fun he => ⟨he.lanPrefixes, ?_, he.wans, he.distinct⟩⟩
  intro a ha
  rcases mem_append.mp ha with ha | ha
  · exact he.localAddresses a ha
  · rw [mem_singleton.mp ha]
    exact ⟨decide_eq_true hok.1, family_lt hok.1⟩

theorem mem_replaceWan {w v : Wan} {ws : List Wan} (h : v ∈ replaceWan w ws) : v = w ∨ v ∈ ws := by
  induction ws with
  | nil => cases h
  | cons u us ih =>
    unfold replaceWan at h
    split at h
    · rcases mem_cons.mp h with h | h
      · exact .inl h
      · exact .inr (mem_cons_of_mem _ h)
    · rcases mem_cons.mp h with rfl | h
      · exact .inr mem_cons_self
      · exact (ih h).imp_right (mem_cons_of_mem _)

theorem map_wanId_replaceWan (w : Wan) (ws : List Wan) :
    (replaceWan w ws).map Wan.wanId = ws.map Wan.wanId := by
  induction ws with
  | nil => rfl
  | cons u us ih =>
    unfold replaceWan
    split
    · next hid => rw [map_cons, map_cons, hid]
    · rw [map_cons, map_cons, ih]

theorem addWan_grows {s : Snapshot} {wanId familyMask ifindex routeIdentity tableId : ℕ}
    (hrep : Wan.Representable ⟨wanId, familyMask, 1, ifindex, routeIdentity, tableId⟩)
    (h : addWan s wanId familyMask ifindex routeIdentity tableId = some t) : Grows s t := by
  unfold addWan at h
  dsimp only at h
  split at h
  · cases h
  next hok =>
  rw [not_or, not_or, not_or, not_not] at hok
  obtain ⟨hid, hmask, hidentity, hbits⟩ := hok
  have hvalid : wanValid ⟨wanId, familyMask, 1, ifindex, routeIdentity, tableId⟩ = true := by
    refine decide_eq_true ⟨hid, Nat.one_ne_zero, hmask, hbits, ?_⟩
    show ifindex ≠ 0 ∨ routeIdentity ≠ 0 ∨ tableId ≠ 0
    omega
  split at h
  · -- the WAN is known
    obtain rfl := some.inj h
    refine ⟨rfl, rfl, rfl, rfl, fun he => ⟨he.lanPrefixes, he.localAddresses, ?_, ?_⟩⟩
    · intro w hw
      rcases mem_replaceWan hw with rfl | hw
      · exact ⟨hvalid, rfl, hrep⟩
      · exact he.wans w hw
    · show ((replaceWan _ s.wans).map Wan.wanId).Nodup
      rw [map_wanId_replaceWan]
      exact he.distinct
  next hnew =>
  split at h
  · obtain rfl := some.inj h
    refine ⟨rfl, rfl, rfl, rfl, fun he => ⟨he.lanPrefixes, he.localAddresses, ?_, ?_⟩⟩
    · intro w hw
      rcases mem_append.mp hw with hw | hw
      · exact he.wans w hw
      · rw [mem_singleton.mp hw]
        exact ⟨hvalid, rfl, hrep⟩
    · show ((s.wans ++ [_]).map Wan.wanId).Nodup
      rw [map_append]
      refine nodup_append.mpr ⟨he.distinct, pairwise_singleton .., ?_⟩
      intro id hid id' hid' heq
      obtain ⟨w, hw, rfl⟩ := List.mem_map.mp hid
      apply hnew
      rw [List.any_eq_true]
      exact ⟨w, hw, decide_eq_true (heq.trans (mem_singleton.mp hid'))⟩
  · cases h

/-! ### Reading JSON -/

theorem clamp32_range (n : ℤ) : -(2 ^ 31) ≤ JsonC.clamp32 n ∧ JsonC.clamp32 n ≤ 2 ^ 31 - 1 := by
  unfold JsonC.clamp32
  omega

theorem jsonInt_le (c : JsonC D) (root : Json D) (key : String) {dflt : ℤ}
    (h : dflt ≤ 2 ^ 31 - 1) : jsonInt c root key dflt ≤ 2 ^ 31 - 1 := by
  unfold jsonInt
  split
  · exact (clamp32_range _).2
  · split
    · split
      · next hn => exact hn.2
      · exact h
    · exact h
  · exact h

theorem parseIfindex_lt (c : JsonC D) (host : Host) (entry : Json D) (key : String) :
    parseIfindex c host entry key < 256 ^ 4 := by
  have hle := jsonInt_le c entry "ifindex" (by decide : (0 : ℤ) ≤ 2 ^ 31 - 1)
  unfold parseIfindex
  split
  · omega
  split
  · split
    · decide
    · exact Nat.mod_lt _ (by decide)
  · decide

/-! ### The entries of the configuration -/

variable {ifindex : ℕ}

theorem addBoth_grows (b : Build) (family : ℕ) (address : List UInt8)
    (prefixLen : ℕ) (text : String) (hifindex : ifindex < 256 ^ 4) :
    Grows b.snapshot (addBoth b ifindex family address prefixLen text).2.snapshot := by
  unfold addBoth
  cases hlan : addLanPrefix b.snapshot ifindex family address prefixLen with
  | none => exact Grows.refl _
  | some s =>
    have hs := addLanPrefix_grows hifindex hlan
    dsimp only
    cases hlocal : addLocalAddress s family address with
    | none => exact hs
    | some t => exact hs.trans (addLocalAddress_grows hlocal)

theorem addLanAddress_grows (c : JsonC D) (host : Host) (b : Build) (ip : String)
    (defaultPrefix prefixOverride : ℤ) (hifindex : ifindex < 256 ^ 4) :
    Grows b.snapshot
      (addLanAddress c host b ifindex ip defaultPrefix prefixOverride).2.snapshot := by
  unfold addLanAddress
  dsimp only
  split
  · exact Grows.refl _
  split
  · exact Grows.refl _
  next family address prefixLen _ =>
  have hboth := addBoth_grows b family address prefixLen "managed LAN snapshot capacity exceeded"
    hifindex
  split <;> rename_i heq <;> rw [heq] at hboth <;> exact hboth

theorem runtimeLoop_grows (host : Host) (hifindex : ifindex < 256 ^ 4)
    (ifas : List IfAddr) (b : Build) (added : ℤ) :
    Grows b.snapshot (runtimeLoop host ifindex ifas b added).2.snapshot := by
  induction ifas generalizing b added with
  | nil => exact Grows.refl _
  | cons ifa ifas ih =>
    unfold runtimeLoop
    split
    · exact ih b added
    next family address prefixLen _ =>
    have hboth := addBoth_grows b family address prefixLen
      "runtime LAN snapshot capacity exceeded" hifindex
    split
    · next heq =>
      rw [heq] at hboth
      exact hboth
    · next b' heq =>
      rw [heq] at hboth
      exact hboth.trans (ih b' _)

theorem addRuntimeLanAddresses_grows (host : Host) (b : Build) (hifindex : ifindex < 256 ^ 4) :
    Grows b.snapshot (addRuntimeLanAddresses host b ifindex).2.snapshot := by
  unfold addRuntimeLanAddresses
  split
  · exact Grows.refl _
  split
  · exact Grows.refl _
  · exact runtimeLoop_grows host hifindex _ b 0

theorem extraLoop_grows (c : JsonC D) (host : Host) (hifindex : ifindex < 256 ^ 4)
    (extras : List (Json D)) (b : Build) (added : ℤ) :
    Grows b.snapshot (extraLoop c host ifindex extras b added).2.snapshot := by
  induction extras generalizing b added with
  | nil => exact Grows.refl _
  | cons extra extras ih =>
    cases extra with
    | str extra =>
      unfold extraLoop
      exact (addLanAddress_grows c host b (cstr extra) 24 (-1) hifindex).trans (ih _ _)
    | _ =>
      unfold extraLoop
      exact ih b added

theorem addIpaddr_grows (c : JsonC D) (host : Host) (lan : Json D) (b : Build)
    (hifindex : ifindex < 256 ^ 4) :
    Grows b.snapshot (addIpaddr c host lan ifindex b).2.snapshot := by
  unfold addIpaddr
  split
  · exact Grows.refl _
  · exact addLanAddress_grows c host b _ _ _ hifindex

theorem addExtraIps_grows (c : JsonC D) (host : Host) (lan : Json D) (b : Build)
    (hifindex : ifindex < 256 ^ 4) :
    Grows b.snapshot (addExtraIps c host lan ifindex b).2.snapshot := by
  unfold addExtraIps
  split
  · exact extraLoop_grows c host hifindex _ b 0
  · exact Grows.refl _

theorem addStaticV6_grows (c : JsonC D) (host : Host) (lan : Json D) (b : Build)
    (hifindex : ifindex < 256 ^ 4) :
    Grows b.snapshot (addStaticV6 c host lan ifindex b).2.snapshot := by
  unfold addStaticV6
  split
  · split
    · dsimp only
      split
      · exact addLanAddress_grows c host b _ _ _ hifindex
      · exact Grows.refl _
    · exact Grows.refl _
  · exact Grows.refl _

theorem buildLanEntry_grows (c : JsonC D) (host : Host) (b : Build) (lan : Json D) :
    Grows b.snapshot (buildLanEntry c host b lan).2.snapshot := by
  have hifindex : (if parseIfindex c host lan "ifname" = 0 then parseIfindex c host lan "device"
      else parseIfindex c host lan "ifname") < 256 ^ 4 := by
    split <;> exact parseIfindex_lt c host lan _
  unfold buildLanEntry
  split
  · exact Grows.refl _
  dsimp only
  generalize (if parseIfindex c host lan "ifname" = 0 then parseIfindex c host lan "device"
      else parseIfindex c host lan "ifname") = ifindex at hifindex ⊢
  split
  · exact Grows.refl _
  -- the four sources of addresses, one behind the other
  have hipaddr := addIpaddr_grows c host lan b hifindex
  have hextra := addExtraIps_grows c host lan (addIpaddr c host lan ifindex b).2 hifindex
  have hstatic := addStaticV6_grows c host lan
    (addExtraIps c host lan ifindex (addIpaddr c host lan ifindex b).2).2 hifindex
  have hruntime := addRuntimeLanAddresses_grows host (addStaticV6 c host lan ifindex
    (addExtraIps c host lan ifindex (addIpaddr c host lan ifindex b).2).2).2 hifindex
  have hall := ((hipaddr.trans hextra).trans hstatic).trans hruntime
  split
  · exact hall
  split
  · exact hall
  · exact hall

theorem buildWanEntry_grows (c : JsonC D) (host : Host) (b : Build) (wan : Json D) :
    Grows b.snapshot (buildWanEntry c host b wan).2.snapshot := by
  unfold buildWanEntry
  dsimp only
  split
  · exact Grows.refl _
  next hok =>
  split
  · exact Grows.refl _
  next s hadd =>
  refine addWan_grows ?_ hadd
  have hifindex := parseIfindex_lt c host wan "ifname"
  refine ⟨?_, ?_, Nat.one_lt_two_pow (by decide : 8 ≠ 0), hifindex, ?_, ?_⟩
  · show (jsonInt c wan "id" 0).toNat < 256 ^ 1
    omega
  · show (jsonInt c wan "family_mask" 3 % 2 ^ 8).toNat < 256 ^ 1
    omega
  · show (_ % (2 ^ 32 : ℤ)).toNat < 256 ^ 4
    omega
  · show (_ % (2 ^ 32 : ℤ)).toNat < 256 ^ 4
    omega

theorem buildAll_grows {entry : Build → Json D → Bool × Build}
    (hentry : ∀ b item, Grows b.snapshot (entry b item).2.snapshot) (b : Build)
    (items : List (Json D)) : Grows b.snapshot (buildAll entry b items).2.snapshot := by
  induction items generalizing b with
  | nil => exact Grows.refl _
  | cons item items ih =>
    have hitem := hentry b item
    unfold buildAll
    split
    · next heq =>
      rw [heq] at hitem
      exact hitem
    · next b' heq =>
      rw [heq] at hitem
      exact hitem.trans (ih b')

/-! ### The snapshot that was built -/

/-- What a snapshot of the builder is. -/
structure Built (s : Snapshot) (gateway : Bool) (current : ℕ) : Prop where
  version : s.version = NL_ABI_VERSION
  generation : s.generation = current
  nonzero : current ≠ 0
  ready : s.ready = 1
  gatewayMode : s.gatewayMode = if gateway then 1 else 0
  entries : Entries s
  validate : Direction.validate s = true
  bypass : gateway = false → s.lanPrefixes = [] ∧ s.localAddresses = [] ∧ s.wans = []

theorem entries_init (generation : ℕ) (gatewayMode : Bool) :
    Entries (snapshotInit generation gatewayMode) where
  lanPrefixes _ hp := absurd hp not_mem_nil
  localAddresses _ ha := absurd ha not_mem_nil
  wans _ hw := absurd hw not_mem_nil
  distinct := nodup_nil

variable {c : JsonC D} {host : Host} {b : Build}

theorem buildGateway_spec {b' : Build} {lans wans : List (Json D)}
    (h : buildGateway c host b lans wans = (true, b')) :
    Grows b.snapshot b'.snapshot ∧ validate b'.snapshot = true := by
  unfold buildGateway at h
  have hlans := buildAll_grows (buildLanEntry_grows c host) b lans
  split at h
  · cases h
  next b₁ heq₁ =>
  rw [heq₁] at hlans
  have hwans := buildAll_grows (buildWanEntry_grows c host) b₁ wans
  split at h
  · cases h
  next b₂ heq₂ =>
  rw [heq₂] at hwans
  split at h
  · next hvalid =>
    obtain ⟨-, rfl⟩ := Prod.mk.inj h
    exact ⟨hlans.trans hwans, hvalid⟩
  · cases h

/-- **A snapshot that was built is good**, and is empty where the box is no gateway. -/
theorem built_of_buildJson {lanData registeredWans : Json D} {gatewayMode : Bool} {generation : ℕ}
    (h : buildJson c host lanData registeredWans gatewayMode generation = (true, b)) :
    Built b.snapshot gatewayMode generation := by
  unfold buildJson at h
  dsimp only at h
  split at h
  · cases h
  next hgeneration =>
  cases gatewayMode with
  | false =>
    rw [if_pos (by decide)] at h
    obtain ⟨-, rfl⟩ := Prod.mk.inj h
    refine ⟨rfl, rfl, hgeneration, rfl, rfl, entries_init _ _, ?_, fun _ => ⟨rfl, rfl, rfl⟩⟩
    show validate (snapshotInit generation false) = true
    have hmode : (snapshotInit generation false).gatewayMode = 0 := rfl
    unfold validate
    rw [if_neg, if_pos hmode]
    rintro (hbad | hbad | hbad)
    · exact hbad rfl
    · cases hbad
    · exact hgeneration hbad
  | true =>
    rw [if_neg (by decide)] at h
    split at h
    · split at h
      · cases h
      obtain ⟨hgrows, hvalid⟩ := buildGateway_spec h
      refine ⟨hgrows.version, hgrows.generation, hgeneration, hgrows.ready, hgrows.gatewayMode,
        hgrows.entries (entries_init _ _), hvalid, ?_⟩
      intro hmode
      cases hmode
    · cases h

variable {s : Snapshot} {gateway : Bool} {current : ℕ}

theorem Built.nonempty (h : Built s true current) : s.lanPrefixes ≠ [] ∧ s.wans ≠ [] := by
  have hvalidate := h.validate
  have hmode : s.gatewayMode = 1 := h.gatewayMode
  unfold Direction.validate at hvalidate
  split at hvalidate
  · cases hvalidate
  rw [if_neg (by omega)] at hvalidate
  split at hvalidate
  · cases hvalidate
  · next hempty => exact not_or.mp hempty

/-- The kernel takes what was built. -/
theorem Built.valid (h : Built s gateway current) : s.Valid where
  version := h.version
  generation := by
    rw [h.generation]
    exact h.nonzero
  ready := le_of_eq h.ready
  gatewayMode := by
    rw [h.gatewayMode]
    cases gateway <;> decide
  unready := fun hzero => absurd (h.ready.symm.trans hzero) Nat.one_ne_zero
  gateway := by
    intro _ hmode
    cases gateway with
    | false => exact absurd h.gatewayMode hmode
    | true => exact h.nonempty
  lanPrefixes p hp := (h.entries.lanPrefixes p hp).1
  localAddresses a ha := (h.entries.localAddresses a ha).1
  wans w hw := (h.entries.wans w hw).1
  distinct := h.entries.distinct

theorem Built.representable (h : Built s gateway current) (hcurrent : current < 2 ^ 64) :
    s.Representable where
  generation := by
    rw [h.generation]
    exact hcurrent
  lanPrefixes p hp := (h.entries.lanPrefixes p hp).2
  localAddresses a ha := (h.entries.localAddresses a ha).2
  wans w hw := (h.entries.wans w hw).2.2

end DreamingOS.Direction
