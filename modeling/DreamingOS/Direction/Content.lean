import DreamingOS.Direction.Classify
import Mathlib.Data.List.Nodup
import Mathlib.Data.List.Perm.Subperm

namespace DreamingOS.Direction

open Bytes List

/-!
# Flow direction — when the classification depends on the packet only

* `ContentOnly` — a linear and a paged buffer with the same frame get the same answer, whatever
  the stack holds;
* `AddressBlind` — the snapshots that classify all IPv6 addresses alike;
* `contentOnly_iff` — **the exact condition**: no header is read, or the snapshot does not look at
  the addresses.
-/

/-- The same bytes, mark and interfaces get the same answer, in a linear and in a paged buffer. -/
def ContentOnly (rt : Runtime) (ingress egress : ℕ) (frame : Frame) : Prop :=
  ∀ linear paged : SkBuff, linear.frame = frame → paged.frame = frame →
    linear.headLen = frame.data.length → paged.headLen < frame.data.length →
    ∀ r r' : Residue,
      classifySkb rt r ingress egress linear = classifySkb rt r' ingress egress paged

/-- The snapshot classifies the IPv6 packets between two interfaces alike, whatever their
    addresses. -/
def AddressBlind (s : Snapshot) (mark ingress egress : ℕ) : Prop :=
  s.Unusable ∨ s.gatewayMode = 0 ∨ ((∀ entry ∈ s.localAddresses, entry.family ≠ FAMILY_IPV6) ∧
      (∀ a b a' b' : List UInt8, a.length = 16 → a'.length = 16 →
        lanIngress s (packetV6 mark ingress egress a b)
          = lanIngress s (packetV6 mark ingress egress a' b')) ∧
      ((∀ a b : List UInt8, a.length = 16 →
          lanIngress s (packetV6 mark ingress egress a b) = false) ∨
        (∀ a b : List UInt8, wanEgress s (packetV6 mark ingress egress a b) = true) ∨
        ∀ a b a' b' : List UInt8, b.length = 16 → b'.length = 16 →
          lanEgress s (packetV6 mark ingress egress a b)
            = lanEgress s (packetV6 mark ingress egress a' b')))

/-! ### Addresses -/

/-- Some address is none of a local table. -/
theorem exists_not_local (s : Snapshot) :
    ∃ a : List UInt8, a.length = 16 ∧ addressIsLocal s FAMILY_IPV6 a = false := by
  by_contra hall
  -- 256 addresses, more than the table can hold
  let probe : ℕ → List UInt8 := fun i => UInt8.ofNat i :: List.replicate 15 0
  have hnodup : ((List.range 256).map probe).Nodup := by
    refine nodup_range.map_on fun i hi j hj h => ?_
    have hheads : (UInt8.ofNat i).toNat = (UInt8.ofNat j).toNat := by rw [(List.cons.inj h).1]
    rw [mem_range] at hi hj
    simpa [Nat.mod_eq_of_lt hi, Nat.mod_eq_of_lt hj] using hheads
  have hsub : (List.range 256).map probe ⊆ s.localAddresses.map LocalAddress.address := by
    intro a ha
    obtain ⟨i, -, rfl⟩ := List.mem_map.mp ha
    have hlocal : addressIsLocal s FAMILY_IPV6 (probe i) = true := by
      by_contra hno
      exact hall ⟨probe i, rfl, by simpa using hno⟩
    obtain ⟨entry, hentry, hmatch⟩ := List.any_eq_true.mp hlocal
    simp only [decide_eq_true_eq, addressEqual, familyBytes, FAMILY_IPV4, FAMILY_IPV6] at hmatch
    have heq : entry.address.take 16 = (probe i).take 16 := by simpa using hmatch.2
    rw [take_of_length_le entry.length_address.le, take_of_length_le (by simp [probe])]
      at heq
    exact List.mem_map.mpr ⟨entry, hentry, heq⟩
  have hle := (hnodup.subperm hsub).length_le
  rw [length_map, length_map, length_range] at hle
  have hcap := s.localAddresses_le
  simp only [MAX_LOCAL_ADDRS] at hcap
  omega

/-- A local address of the table is local. -/
theorem local_of_mem {s : Snapshot} {entry : LocalAddress} (h : entry ∈ s.localAddresses)
    (hfamily : entry.family = FAMILY_IPV6) : addressIsLocal s FAMILY_IPV6 entry.address = true :=
  List.any_eq_true.mpr ⟨entry, h, by
    simp [hfamily, addressEqual, familyBytes, FAMILY_IPV4, FAMILY_IPV6]⟩

theorem not_local_of_family {s : Snapshot} (h : ∀ entry ∈ s.localAddresses,
    entry.family ≠ FAMILY_IPV6) (a : List UInt8) : addressIsLocal s FAMILY_IPV6 a = false := by
  apply Bool.eq_false_iff.mpr
  intro hlocal
  obtain ⟨entry, hentry, hmatch⟩ := List.any_eq_true.mp hlocal
  simp only [decide_eq_true_eq] at hmatch
  exact h entry hentry hmatch.1

theorem wanEgress_packetV6 (s : Snapshot) (mark ingress egress : ℕ) (a b a' b' : List UInt8) :
    wanEgress s (packetV6 mark ingress egress a b)
      = wanEgress s (packetV6 mark ingress egress a' b') := rfl

/-! ### Blind snapshots -/
variable {a b : List UInt8}


section
variable {s : Snapshot} {mark ingress egress : ℕ}

/-- The class of a packet between foreign addresses. -/
theorem gatewayClass_foreign (ha : addressIsLocal s FAMILY_IPV6 a = false)
    (hb : addressIsLocal s FAMILY_IPV6 b = false) :
    gatewayClass s (packetV6 mark ingress egress a b) =
      if lanIngress s (packetV6 mark ingress egress a b) ∧
          wanEgress s (packetV6 mark ingress egress a b) then .lanWan
      else if lanIngress s (packetV6 mark ingress egress a b) ∧
          lanEgress s (packetV6 mark ingress egress a b) then .lanLan
      else .unknown := by
  have hnone : ¬ (addressIsLocal s FAMILY_IPV6 b = true ∨ addressIsLocal s FAMILY_IPV6 a = true) := by
    simp [ha, hb]
  exact (if_neg hnone).trans (if_neg (by simp [packetV6]))

theorem gatewayClass_local (ha : addressIsLocal s FAMILY_IPV6 a = true) :
    gatewayClass s (packetV6 mark ingress egress a b) = .wanLocal ∨
      gatewayClass s (packetV6 mark ingress egress a b) = .routerLocal := by
  have hclass : gatewayClass s (packetV6 mark ingress egress a b)
      = if wanIngress s (packetV6 mark ingress egress a b) then .wanLocal else .routerLocal :=
    if_pos (.inr ha)
  rw [hclass]
  split
  · exact .inl rfl
  · exact .inr rfl

theorem classify_of_blind (h : AddressBlind s mark ingress egress) {a b a' b' : List UInt8}
    (ha : a.length = 16) (hb : b.length = 16) (ha' : a'.length = 16) (hb' : b'.length = 16) :
    classify s (packetV6 mark ingress egress a b)
      = classify s (packetV6 mark ingress egress a' b') := by
  unfold classify
  dsimp only
  by_cases hunusable : s.Unusable
  · rw [if_pos hunusable, if_pos hunusable]
  rw [if_neg hunusable, if_neg hunusable]
  by_cases hgateway : s.gatewayMode = 0
  · rw [if_pos hgateway, if_pos hgateway]
  rw [if_neg hgateway, if_neg hgateway]
  rcases h with h | h | ⟨hlocal, hlan, hrest⟩
  · exact absurd h hunusable
  · exact absurd h hgateway
  have hclass : gatewayClass s (packetV6 mark ingress egress a b)
      = gatewayClass s (packetV6 mark ingress egress a' b') := by
    rw [gatewayClass_foreign (not_local_of_family hlocal a) (not_local_of_family hlocal b),
      gatewayClass_foreign (not_local_of_family hlocal a') (not_local_of_family hlocal b'),
      hlan a b a' b' ha ha', wanEgress_packetV6 s mark ingress egress a b a' b']
    rcases hrest with hnever | hwan | hdest
    · simp [hnever a' b' ha']
    · rw [hwan a' b']
      cases lanIngress s (packetV6 mark ingress egress a' b') <;> simp
    · rw [hdest a b a' b' hb hb']
  rw [hclass, hlan a b a' b' ha ha', wanEgress_packetV6 s mark ingress egress a b a' b']

/-- A snapshot that classifies all addresses alike is blind. -/
theorem blind_of_classify (h : ∀ a b a' b' : List UInt8, a.length = 16 → b.length = 16 →
    a'.length = 16 → b'.length = 16 → classify s (packetV6 mark ingress egress a b)
      = classify s (packetV6 mark ingress egress a' b')) : AddressBlind s mark ingress egress := by
  by_cases hunusable : s.Unusable
  · exact .inl hunusable
  by_cases hgateway : s.gatewayMode = 0
  · exact .inr (.inl hgateway)
  unfold classify at h
  simp only [hunusable, hgateway, if_false, Decision.mk.injEq, and_true] at h
  obtain ⟨free, hfree, hnot⟩ := exists_not_local s
  -- a local address gets a class that no packet between foreign addresses gets
  have hlocal : ∀ entry ∈ s.localAddresses, entry.family ≠ FAMILY_IPV6 := by
    intro entry hentry hfamily
    have hin := local_of_mem hentry hfamily
    have heq := (h entry.address free free free entry.length_address hfree hfree hfree).1
    rw [gatewayClass_foreign hnot hnot] at heq
    have hclass : gatewayClass s (packetV6 mark ingress egress entry.address free) = .wanLocal ∨
        gatewayClass s (packetV6 mark ingress egress entry.address free) = .routerLocal :=
      gatewayClass_local hin
    rcases hclass with hclass | hclass <;> rw [hclass] at heq
    · split at heq
      · cases heq
      · split at heq <;> cases heq
    · split at heq
      · cases heq
      · split at heq <;> cases heq
  have hlan : ∀ a b a' b' : List UInt8, a.length = 16 → a'.length = 16 →
      lanIngress s (packetV6 mark ingress egress a b)
        = lanIngress s (packetV6 mark ingress egress a' b') :=
    fun a _ a' _ ha ha' => (h a free a' free ha hfree ha' hfree).2.1
  refine .inr (.inr ⟨hlocal, hlan, ?_⟩)
  by_cases hin : lanIngress s (packetV6 mark ingress egress free free) = true
  · by_cases hwan : wanEgress s (packetV6 mark ingress egress free free) = true
    · exact .inr (.inl fun a b => hwan)
    refine .inr (.inr fun a b a' b' hb hb' => ?_)
    have heq := (h free b free b' hfree hb hfree hb').1
    have hclass : ∀ d, d.length = 16 → gatewayClass s (packetV6 mark ingress egress free d)
        = if lanEgress s (packetV6 mark ingress egress free d) then .lanLan else .unknown := by
      intro d hd
      rw [gatewayClass_foreign hnot (not_local_of_family hlocal d),
        hlan free d free free hfree hfree, hin,
        wanEgress_packetV6 s mark ingress egress free d free free, Bool.eq_false_iff.mpr hwan]
      simp
    rw [hclass b hb, hclass b' hb'] at heq
    show lanEgress s (packetV6 mark ingress egress free b)
      = lanEgress s (packetV6 mark ingress egress free b')
    cases hb₁ : lanEgress s (packetV6 mark ingress egress free b) <;>
      cases hb₂ : lanEgress s (packetV6 mark ingress egress free b') <;>
      simp [hb₁, hb₂] at heq ⊢
  · exact .inl fun a b ha =>
      (hlan a b free free ha hfree).trans (Bool.eq_false_iff.mpr hin)

end

/-! ### Buffers -/

/-- The frames of which no header is read, or only by a snapshot that does not look at it. -/
def Unread (rt : Runtime) (ingress egress : ℕ) (frame : Frame) : Prop :=
  (frame.protocol = ETH_P_IP → frame.data.length < frame.networkOffset + sizeofIphdr) ∧
    (frame.protocol = ETH_P_IPV6 → frame.data.length < frame.networkOffset + sizeofIpv6hdr ∨
      rt.initialized = false ∨
      AddressBlind (rt.slots rt.activeSlot) frame.mark ingress egress)

/-- The buffer with all bytes in the linear part. -/
def SkBuff.linear (frame : Frame) : SkBuff := ⟨frame, frame.data.length, le_rfl⟩

/-- The buffer with all bytes in pages. -/
def SkBuff.paged (frame : Frame) : SkBuff := ⟨frame, 0, Nat.zero_le _⟩

/-- A stack with these IPv6 addresses. -/
def Residue.addresses {a b : List UInt8} (ha : a.length = 16) (hb : b.length = 16) : Residue where
  iph := List.replicate sizeofIphdr 0
  ip6h := List.replicate 8 0 ++ a ++ b
  length_iph := length_zeros _
  length_ip6h := by simp [ha, hb, sizeofIpv6hdr]

/-- A stack with the first byte of an IPv4 header. -/
def Residue.fiveWords : Residue where
  iph := 0x45 :: List.replicate 19 0
  ip6h := List.replicate sizeofIpv6hdr 0
  length_iph := rfl
  length_ip6h := length_zeros _

variable {frame : Frame} {len : ℕ}

theorem headerPointer_linear
    (h : frame.networkOffset + len ≤ frame.data.length) (buffer : List UInt8) :
    headerPointer (.linear frame) frame.networkOffset len buffer
      = (some (fieldBytes frame.data frame.networkOffset len), buffer) :=
  if_pos h

variable {skb : SkBuff} {offset : ℕ}

/-- Without a complete header the buffer is not written. -/
theorem headerPointer_short (h : skb.frame.data.length < offset + len) (buffer : List UInt8) :
    headerPointer skb offset len buffer = (none, buffer) := by
  have hhead := skb.headLen_le
  unfold headerPointer
  rw [if_neg (by omega), if_neg (by omega)]

theorem fieldBytes_length {bs : List UInt8} {off w : ℕ} (h : off + w ≤ bs.length) :
    (fieldBytes bs off w).length = w := by
  simp only [fieldBytes, length_take, length_drop]
  omega

/-- The buffer behind a found header has the length of the header. -/
theorem headerPointer_length {buffer : List UInt8}
    (h : offset + len ≤ skb.frame.data.length) (hbuf : buffer.length = len) :
    ∃ bytes after, headerPointer skb offset len buffer = (some bytes, after) ∧
      after.length = len := by
  unfold headerPointer
  dsimp only
  by_cases hhead : offset + len ≤ skb.headLen
  · rw [if_pos hhead]
    exact ⟨_, _, rfl, hbuf⟩
  · rw [if_neg hhead, if_pos h]
    exact ⟨_, _, rfl, fieldBytes_length h⟩

/-- What an IPv6 frame with a complete header is classified as, by the addresses that are read. -/
theorem classifySkb_v6 (rt : Runtime) (r : Residue) (ingress egress : ℕ) (skb : SkBuff)
    (hv6 : skb.frame.protocol = ETH_P_IPV6)
    (h : skb.frame.networkOffset + sizeofIpv6hdr ≤ skb.frame.data.length) :
    ∃ a b : List UInt8, a.length = 16 ∧ b.length = 16 ∧ classifySkb rt r ingress egress skb =
        if !rt.initialized then (some .ENODEV, {})
        else (none, classify (rt.slots rt.activeSlot)
          (packetV6 skb.frame.mark ingress egress a b)) := by
  obtain ⟨bytes, ip6h, heq, hlen⟩ := headerPointer_length h r.length_ip6h
  refine ⟨fieldBytes ip6h 8 16, fieldBytes ip6h 24 16, fieldBytes_length ?_, fieldBytes_length ?_,
    ?_⟩
  · rw [hlen]
    decide
  · rw [hlen]
    decide
  · unfold classifySkb packetFromSkb
    rw [if_neg (by rw [hv6]; decide), if_pos hv6, heq]

/-- In a linear buffer the addresses are those on the stack. -/
theorem classifySkb_linear_v6 (rt : Runtime) (ingress egress : ℕ)
    (hv6 : frame.protocol = ETH_P_IPV6)
    (h : frame.networkOffset + sizeofIpv6hdr ≤ frame.data.length)
    (ha : a.length = 16) (hb : b.length = 16) :
    classifySkb rt (.addresses ha hb) ingress egress (.linear frame) =
      if !rt.initialized then (some .ENODEV, {})
      else (none, classify (rt.slots rt.activeSlot) (packetV6 frame.mark ingress egress a b)) := by
  have hsrc : fieldBytes (Residue.addresses ha hb).ip6h 8 16 = a := by
    show fieldBytes (List.replicate 8 0 ++ a ++ b) 8 16 = a
    rw [append_assoc, fieldBytes_behind (by simp), length_replicate, fieldBytes_append ha]
  have hdst : fieldBytes (Residue.addresses ha hb).ip6h 24 16 = b := by
    show fieldBytes (List.replicate 8 0 ++ a ++ b) 24 16 = b
    rw [fieldBytes_behind (by simp [ha]), length_append, length_replicate, ha, fieldBytes_all hb]
  have hproto : (SkBuff.linear frame).frame.protocol = ETH_P_IPV6 := hv6
  have hpointer : ∀ buffer, headerPointer (.linear frame) (SkBuff.linear frame).frame.networkOffset
      sizeofIpv6hdr buffer
        = (some (fieldBytes frame.data frame.networkOffset sizeofIpv6hdr), buffer) :=
    headerPointer_linear h
  unfold classifySkb packetFromSkb
  rw [if_neg (by rw [hproto]; decide), if_pos hproto, hpointer]
  simp only [hsrc, hdst]
  rfl

/-- An IPv4 frame with a complete header gets two answers, by what the stack holds. -/
theorem classifySkb_linear_v4 (rt : Runtime) (ingress egress : ℕ) (hv4 : frame.protocol = ETH_P_IP)
    (h : frame.networkOffset + sizeofIphdr ≤ frame.data.length) :
    (classifySkb rt .zero ingress egress (.linear frame)).1 = some .EINVAL ∧
      (classifySkb rt .fiveWords ingress egress (.linear frame)).1 ≠ some .EINVAL := by
  have hpointer : ∀ buffer, headerPointer (.linear frame) (SkBuff.linear frame).frame.networkOffset
      sizeofIphdr buffer = (some (fieldBytes frame.data frame.networkOffset sizeofIphdr), buffer) :=
    headerPointer_linear h
  have hproto : (SkBuff.linear frame).frame.protocol = ETH_P_IP := hv4
  constructor
  · unfold classifySkb packetFromSkb
    rw [if_pos hproto, hpointer]
    rfl
  · unfold classifySkb packetFromSkb
    rw [if_pos hproto, hpointer]
    have hihl : ¬ ihl Residue.fiveWords.iph < 5 := by decide
    simp only [hihl, if_false]
    split <;> simp

/-- **The classification depends on the content of the frame only iff it does not depend on the
    addresses at all.** -/
theorem contentOnly_iff (rt : Runtime) (ingress egress : ℕ) (frame : Frame) :
    ContentOnly rt ingress egress frame ↔ Unread rt ingress egress frame := by
  constructor
  · intro h
    refine ⟨fun hv4 => ?_, fun hv6 => ?_⟩
    · by_contra hshort
      have hlen : frame.networkOffset + sizeofIphdr ≤ frame.data.length := by omega
      obtain ⟨hzero, hfive⟩ := classifySkb_linear_v4 rt ingress egress hv4 hlen
      have hpos : 0 < frame.data.length := by
        simp only [sizeofIphdr] at hlen
        omega
      have h₁ := h (.linear frame) (.paged frame) rfl rfl rfl hpos .zero .zero
      have h₂ := h (.linear frame) (.paged frame) rfl rfl rfl hpos .fiveWords .zero
      rw [h₂, ← h₁] at hfive
      exact hfive hzero
    · by_contra hread
      rw [not_or, not_or] at hread
      obtain ⟨hlen, hinit, hblind⟩ := hread
      have hlen : frame.networkOffset + sizeofIpv6hdr ≤ frame.data.length := by omega
      have hpos : 0 < frame.data.length := by
        simp only [sizeofIpv6hdr] at hlen
        omega
      apply hblind
      apply blind_of_classify
      intro a b a' b' ha hb ha' hb'
      have h₁ := h (.linear frame) (.paged frame) rfl rfl rfl hpos (.addresses ha hb) .zero
      have h₂ := h (.linear frame) (.paged frame) rfl rfl rfl hpos (.addresses ha' hb') .zero
      have heq := h₁.trans h₂.symm
      rw [classifySkb_linear_v6 rt ingress egress hv6 hlen ha hb,
        classifySkb_linear_v6 rt ingress egress hv6 hlen ha' hb'] at heq
      simpa [hinit] using heq
  · rintro ⟨hv4, hv6⟩ linear paged rfl hpaged - - r r'
    by_cases hip : linear.frame.protocol = ETH_P_IP
    · have hshort := hv4 hip
      unfold classifySkb packetFromSkb
      rw [hpaged, if_pos hip, if_pos hip, headerPointer_short hshort,
        headerPointer_short (hpaged ▸ hshort)]
    by_cases hip6 : linear.frame.protocol = ETH_P_IPV6
    · by_cases hshort : linear.frame.data.length < linear.frame.networkOffset + sizeofIpv6hdr
      · unfold classifySkb packetFromSkb
        rw [hpaged, if_neg hip, if_neg hip, if_pos hip6, if_pos hip6, headerPointer_short hshort,
          headerPointer_short (hpaged ▸ hshort)]
      obtain ⟨a, b, ha, hb, h₁⟩ := classifySkb_v6 rt r ingress egress linear hip6 (not_lt.mp hshort)
      obtain ⟨a', b', ha', hb', h₂⟩ := classifySkb_v6 rt r' ingress egress paged
        (hpaged ▸ hip6) (hpaged ▸ not_lt.mp hshort)
      rw [h₁, h₂, hpaged]
      rcases hv6 hip6 with hlen | hinit | hblind
      · exact absurd hlen hshort
      · rw [hinit]
        rfl
      · rw [classify_of_blind hblind ha hb ha' hb']
    · unfold classifySkb packetFromSkb
      rw [hpaged, if_neg hip, if_neg hip, if_neg hip6, if_neg hip6]

/-- An IPv4 header from 10.0.0.2 to 10.0.0.3. -/
def plainFrame : Frame where
  data := [0x45, 0, 0, 20, 0, 0, 0, 0, 64, 17, 0, 0, 10, 0, 0, 2, 10, 0, 0, 3]
  networkOffset := 0
  protocol := ETH_P_IP
  mark := 0

/-- **Two buffers with one content, two answers**: with zeros on the stack the linear buffer is
    refused, and the paged one is classified. -/
theorem linear_buffer_refused : classifySkb {} .zero 1 2 (.linear plainFrame) = (some .EINVAL, {}) ∧
      classifySkb {} .zero 1 2 (.paged plainFrame) = (none, { generation := 1 }) ∧
      ¬ ContentOnly {} 1 2 plainFrame := by
  have hlinear : classifySkb {} .zero 1 2 (.linear plainFrame) = (some .EINVAL, {}) := by
    decide +kernel
  have hpaged : classifySkb {} .zero 1 2 (.paged plainFrame) = (none, { generation := 1 }) := by
    decide +kernel
  refine ⟨hlinear, hpaged, fun h => ?_⟩
  have heq := h (.linear plainFrame) (.paged plainFrame) rfl rfl rfl (by decide) .zero .zero
  rw [hlinear, hpaged] at heq
  exact absurd heq (by decide)

end DreamingOS.Direction
