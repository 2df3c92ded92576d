import DreamingOS.Geoip.Prefix

namespace DreamingOS.Geoip

open List
open Ordering (then_eq_eq then_eq_lt)
open List (mem_map mem_map_of_mem)

/-!
# Aggregation of the country prefixes

* `normalizePrefixes`: sorting in place, then one pass that writes the list over itself and joins
  the last two prefixes written as long as they are halves of one.
* `normalizePrefixes_eq`: the pass is that of a stack; what is written never reaches what is still
  to be read.
* `normalize_aggregates`: for disjoint prefixes the result is the sorted shortest list of prefixes
  with the same addresses under every country and family, and normalising it again changes nothing;
  without merging it is the sorted input.
-/

/-- The list while it is written over itself: its first `write` items are the result so far. -/
structure Work where
  items : List Prefix
  (write mergedPrefixes : ℕ)

/-- The `while` loop over the last two items written. -/
def mergeTop : ℕ → List Prefix → ℕ → Work
  | write + 2, items, merged =>
    let parent := items.getD write default
    if canMerge parent (items.getD (write + 1) default) then
      mergeTop (write + 1) (items.set write (joined parent)) (merged + 1)
    else ⟨items, write + 2, merged⟩
  | write, items, merged => ⟨items, write, merged⟩

/-- The body of the `for` loop. -/
def normalizeStep (merge : Bool) (work : Work) (read : ℕ) : Work :=
  let current := work.items.getD read default
  if work.write ≠ 0 ∧ comparePrefix (work.items.getD (work.write - 1) default) current = .eq then
    work
  else
    let items := work.items.set work.write current
    if merge then mergeTop (work.write + 1) items work.mergedPrefixes
    else ⟨items, work.write + 1, work.mergedPrefixes⟩

/-- `qsort`; items that compare equal are the same prefix (`comparePrefix_eq_iff`). -/
def sortPrefixes (items : List Prefix) : List Prefix :=
  items.mergeSort fun a b => (comparePrefix a b).isLE

/-- The normalised list, with the number of joins that went into it. -/
def normalizePrefixes (merge : Bool) (items : List Prefix) : List Prefix × ℕ :=
  let sorted := sortPrefixes items
  let work := (List.range sorted.length).foldl (normalizeStep merge) ⟨sorted, 0, 0⟩
  (work.items.take work.write, work.mergedPrefixes)

/-- Two prefixes of one country and family that differ in their last bit only. -/
def Prefix.Sibling (p q : Prefix) : Prop :=
  p.isoCode = q.isoCode ∧ p.family = q.family ∧ p.prefixLen = q.prefixLen ∧ ∃ n,
    p.prefixLen = n + 1 ∧ (∀ bit < n, getAddressBit p.address bit = getAddressBit q.address bit) ∧
      getAddressBit p.address n ≠ getAddressBit q.address n

/-! ### The order -/

theorem comparePrefix_eq_compareLex :
    comparePrefix = compareLex (compareOn Prefix.isoCode) (compareLex (compareOn Prefix.family)
      (compareLex (compareOn fun p : Prefix => p.address.1.take (if p.family = 4 then 4 else 16))
        (compareOn Prefix.prefixLen))) := by
  funext p q
  simp only [comparePrefix, compareLex, compareOn]
  congr 1
  -- the second family counts only where it is the first one
  rcases hfamily : compare p.family q.family with _ | _ | _
  · rfl
  · rw [Std.LawfulEqCmp.eq_of_compare hfamily]
  · rfl

instance : Std.TransCmp comparePrefix := by
  rw [comparePrefix_eq_compareLex]
  infer_instance

theorem sortPrefixes_perm (items : List Prefix) : (sortPrefixes items).Perm items :=
  mergeSort_perm _ _

theorem sortPrefixes_sorted (items : List Prefix) :
    (sortPrefixes items).Pairwise fun a b => (comparePrefix a b).isLE := by
  refine pairwise_mergeSort (fun a b c hab hbc => ?_) (fun a b => ?_) _
  · exact Std.TransCmp.isLE_trans hab hbc
  · have hswap : comparePrefix b a = (comparePrefix a b).swap := Std.OrientedCmp.eq_swap
    rw [hswap]
    cases comparePrefix a b <;> rfl

theorem sortPrefixes_eq_self {items : List Prefix}
    (h : items.Pairwise fun a b => comparePrefix a b = .lt) : sortPrefixes items = items :=
  mergeSort_of_pairwise (h.imp fun hlt => by rw [hlt]; rfl)

variable {p q : Prefix}

/-- The bytes that are compared give the numbers of the addresses. -/
theorem compare_bytes (hfamily : p.family = q.family) :
    compare (p.address.1.take (if p.family = 4 then 4 else 16))
        (q.address.1.take (if p.family = 4 then 4 else 16)) =
      compare (value p.family p.address) (value q.family q.address) := by
  have hbytes : (if p.family = 4 then 4 else 16) ≤ 16 := by split <;> omega
  have hwidth : 8 * (if p.family = 4 then 4 else 16) = width p.family := by
    unfold width
    split <;> rfl
  have hlength : (p.address.1.take (if p.family = 4 then 4 else 16)).length =
      (q.address.1.take (if p.family = 4 then 4 else 16)).length := by
    rw [length_take, length_take, p.address.2, q.address.2]
  rw [Bytes.compare_ofBE hlength, ofBE_take hbytes, ofBE_take hbytes, hwidth]
  show _ = compare (value p.family p.address) (leading (width q.family) q.address)
  rw [← hfamily]
  rfl

/-- **Only equal prefixes compare equal.** -/
theorem comparePrefix_eq_iff (hp : Collected p) (hq : Collected q) :
    comparePrefix p q = .eq ↔ p = q := by
  constructor
  · intro h
    rw [comparePrefix] at h
    simp only [then_eq_eq] at h
    obtain ⟨hiso, hfamily, hbytes, hlen⟩ := h
    have hfamily := Std.LawfulEqCmp.eq_of_compare hfamily
    rw [compare_bytes hfamily] at hbytes
    have hvalue := Std.LawfulEqCmp.eq_of_compare hbytes
    have hlen := Std.LawfulEqCmp.eq_of_compare hlen
    have haddress : p.address = q.address := by
      refine address_ext fun bit hbit => ?_
      by_cases hin : bit < width p.family
      · rw [value, value, ← hfamily] at hvalue
        exact (leading_eq_iff (width_le _)).mp hvalue bit hin
      have hple := hp.prefixLen_le
      have hqle := hq.prefixLen_le
      rw [← hfamily] at hqle
      rw [hp.clear bit (by omega) hbit, hq.clear bit (by omega) hbit]
    cases p
    cases q
    congr
    exact Std.LawfulEqCmp.eq_of_compare hiso
  · rintro rfl
    exact Std.ReflCmp.compare_self

/-- **A prefix whose block lies before another one stands before it in the list.** -/
theorem comparePrefix_of_before (hp : Collected p) (hq : Collected q)
    (h : Cidr.Before KeyLt (toBlock p) (toBlock q)) : comparePrefix p q = .lt := by
  rw [comparePrefix]
  rcases h with h | ⟨hkey, hle⟩
  · rw [KeyLt, then_eq_lt] at h
    rcases h with h | ⟨hiso, hfamily⟩
    · exact then_eq_lt.mpr (.inl h)
    · exact then_eq_lt.mpr (.inr ⟨hiso, then_eq_lt.mpr (.inl hfamily)⟩)
  · obtain ⟨hiso, hfamily⟩ := Prod.mk.inj hkey
    have hlt := Nat.lt_of_lt_of_le (toBlock p).start_lt_stop hle
    rw [start_toBlock hp, start_toBlock hq] at hlt
    have hbytes := compare_bytes hfamily
    rw [Nat.compare_eq_lt.mpr hlt] at hbytes
    refine then_eq_lt.mpr (.inr ⟨?_, then_eq_lt.mpr (.inr ⟨?_, ?_⟩)⟩)
    · rw [hiso]
      exact Std.ReflCmp.compare_self
    · rw [hfamily]
      exact Std.ReflCmp.compare_self
    · exact then_eq_lt.mpr (.inl hbytes)

/-- Of two prefixes without a common address the one that stands first lies before the other. -/
theorem before_of_comparePrefix (hp : Collected p) (hq : Collected q)
    (hle : (comparePrefix p q).isLE) (hdisjoint : ¬ p.Overlap q) :
    Cidr.Before KeyLt (toBlock p) (toBlock q) := by
  by_cases hkey : (p.isoCode, p.family) = (q.isoCode, q.family)
  · obtain ⟨hiso, hfamily⟩ := Prod.mk.inj hkey
    refine .inr ⟨hkey, ?_⟩
    have hcmp : (comparePrefix p q) = (compare (value p.family p.address)
        (value q.family q.address)).then (compare p.prefixLen q.prefixLen) := by
      have hself : compare q.isoCode q.isoCode = .eq := Std.ReflCmp.compare_self
      have hself' : compare q.family q.family = .eq := Std.ReflCmp.compare_self
      rw [← compare_bytes hfamily, comparePrefix, hiso, hself, hfamily, hself']
      rfl
    -- otherwise the first address of `q` would be one of `p`
    by_contra hlt
    refine hdisjoint ⟨hfamily, q.address, ?_, fun _ _ => rfl⟩
    have hstart : (toBlock p).start ≤ (toBlock q).start := by
      rw [start_toBlock hp, start_toBlock hq]
      by_contra hgt
      rw [hcmp, Nat.compare_eq_gt.mpr (Nat.lt_of_not_le hgt)] at hle
      cases hle
    have hcov : (toBlock p).Covers (p.isoCode, p.family) (value p.family q.address) := by
      rw [Cidr.Block.covers_iff, hfamily, ← start_toBlock hq, ← hfamily]
      exact ⟨rfl, hstart, Nat.lt_of_not_le hlt⟩
    exact ((covers_toBlock hp).mp hcov).2.2
  · refine .inl ?_
    rw [comparePrefix] at hle
    have hcases : ∀ a b c : Ordering, (a.then (b.then c)).isLE → a.then b ≠ .eq →
        a.then b = .lt := by decide
    refine hcases _ _ _ hle fun heq => hkey ?_
    obtain ⟨hiso, hfamily⟩ := then_eq_eq.mp heq
    exact Prod.ext (Std.LawfulEqCmp.eq_of_compare hiso) (Std.LawfulEqCmp.eq_of_compare hfamily)

/-! ### The pass over the list as a stack -/

/-- `mergeTop` on a stack whose top has just been pushed. -/
def settlePrefix (x : Prefix) : List Prefix → List Prefix
  | [] => [x]
  | y :: st => if canMerge y x then settlePrefix (joined y) st else x :: y :: st

/-- `normalizeStep` on a stack. -/
def stackStep (merge : Bool) (st : List Prefix) (x : Prefix) : List Prefix :=
  if st.head?.any fun y => comparePrefix y x = .eq then st
  else if merge then settlePrefix x st else x :: st

/-- The first items of the list are the stack from the bottom up, and `rest` is still to be read. -/
structure Work.Holds (work : Work) (st rest : List Prefix) (read : ℕ) : Prop where
  write_eq : work.write = st.length
  items_eq : ∃ junk, work.items = st.reverse ++ (junk ++ rest) ∧ st.length + junk.length = read

theorem getD_top (y : Prefix) (st tail : List Prefix) :
    ((y :: st).reverse ++ tail).getD st.length default = y := by
  rw [reverse_cons, append_assoc, getD_eq_getElem?_getD,
    getElem?_append_right (by rw [length_reverse]), length_reverse, Nat.sub_self]
  rfl

/-- The loop over the last two items written is `settlePrefix`, and what is behind them is left. -/
theorem mergeTop_holds (x : Prefix) (st junk rest : List Prefix) (merged : ℕ) {read : ℕ}
    (hread : st.length + 1 + junk.length = read) :
    (mergeTop (st.length + 1) ((x :: st).reverse ++ (junk ++ rest)) merged).Holds
      (settlePrefix x st) rest read := by
  induction st generalizing x junk merged with
  | nil => exact ⟨rfl, junk, rfl, hread⟩
  | cons y st ih =>
    have hsecond : ((x :: y :: st).reverse ++ (junk ++ rest)).getD st.length default = y := by
      rw [reverse_cons, append_assoc]
      exact getD_top y st _
    have hfirst : ((x :: y :: st).reverse ++ (junk ++ rest)).getD (st.length + 1) default = x :=
      getD_top x (y :: st) _
    rw [length_cons, mergeTop, hsecond, hfirst, settlePrefix]
    by_cases hmerge : canMerge y x = true
    · rw [if_pos hmerge, if_pos hmerge]
      have hset : ((x :: y :: st).reverse ++ (junk ++ rest)).set st.length (joined y) =
          (joined y :: st).reverse ++ ((x :: junk) ++ rest) := by
        rw [reverse_cons, reverse_cons, reverse_cons, append_assoc,
          append_assoc, append_assoc, set_append_right _ _ (by simp)]
        simp
      rw [hset]
      refine ih (joined y) (x :: junk) (merged + 1) ?_
      rw [length_cons] at hread ⊢
      omega
    · rw [if_neg hmerge, if_neg hmerge]
      exact ⟨rfl, junk, rfl, hread⟩

/-- **One step of the loop is one step of the stack.** -/
theorem normalizeStep_holds {merge : Bool} {work : Work} {st rest : List Prefix} {x : Prefix}
    {read : ℕ} (h : work.Holds st (x :: rest) read) :
    (normalizeStep merge work read).Holds (stackStep merge st x) rest (read + 1) := by
  obtain ⟨hwrite, junk, hitems, hread⟩ := h
  have hcurrent : work.items.getD read default = x := by
    rw [hitems, ← append_assoc, getD_eq_getElem?_getD,
      getElem?_append_right (by rw [length_append, length_reverse]; omega)]
    have hzero : read - (st.reverse ++ junk).length = 0 := by
      rw [length_append, length_reverse]
      omega
    rw [hzero]
    rfl
  have hdup : (work.write ≠ 0 ∧ comparePrefix (work.items.getD (work.write - 1) default) x = .eq) ↔
        st.head?.any (fun y => comparePrefix y x = .eq) = true := by
    cases st with
    | nil => simp [hwrite]
    | cons y st =>
      rw [hwrite, hitems, length_cons, Nat.add_sub_cancel, getD_top]
      simp
  -- the item is written over the first one that is not needed any more, or over itself
  have hset : ∃ junk', work.items.set work.write x = (x :: st).reverse ++ (junk' ++ rest) ∧
      st.length + 1 + junk'.length = read + 1 := by
    rw [hwrite, hitems]
    cases junk with
    | nil =>
      refine ⟨[], ?_, by simpa using hread⟩
      rw [reverse_cons, append_assoc, set_append_right _ _ (by simp)]
      simp
    | cons j junk =>
      refine ⟨junk ++ [x], ?_, ?_⟩
      · rw [reverse_cons, append_assoc, set_append_right _ _ (by simp)]
        simp
      · rw [length_cons] at hread
        rw [length_append, length_singleton]
        omega
  unfold normalizeStep stackStep
  rw [hcurrent]
  dsimp only
  by_cases hskip : st.head?.any (fun y => comparePrefix y x = .eq) = true
  · rw [if_pos (hdup.mpr hskip), if_pos hskip]
    refine ⟨hwrite, junk ++ [x], ?_, ?_⟩
    · rw [hitems, append_assoc]
      rfl
    · rw [length_append, length_singleton]
      omega
  · rw [if_neg fun hc => hskip (hdup.mp hc), if_neg hskip]
    obtain ⟨junk', hitems', hread'⟩ := hset
    rw [hitems', hwrite]
    cases merge with
    | true => exact mergeTop_holds x st junk' rest _ hread'
    | false => exact ⟨rfl, junk', rfl, hread'⟩

/-- **The pass in place is the pass of the stack over the sorted list.** -/
theorem normalizePrefixes_eq (merge : Bool) (items : List Prefix) :
    (normalizePrefixes merge items).1 =
      ((sortPrefixes items).foldl (stackStep merge) []).reverse := by
  have hrun : ∀ (rest st : List Prefix) (work : Work) (read : ℕ), work.Holds st rest read →
      ∃ junk, ((List.range' read rest.length).foldl (normalizeStep merge) work).items =
          (rest.foldl (stackStep merge) st).reverse ++ junk ∧
        ((List.range' read rest.length).foldl (normalizeStep merge) work).write =
          (rest.foldl (stackStep merge) st).length := by
    intro rest
    induction rest with
    | nil =>
      intro st work read h
      obtain ⟨junk, hitems, -⟩ := h.items_eq
      exact ⟨junk, by rw [append_nil] at hitems; exact hitems, h.write_eq⟩
    | cons x rest ih =>
      intro st work read h
      rw [length_cons, range'_succ, foldl_cons, foldl_cons]
      exact ih _ _ _ (normalizeStep_holds h)
  obtain ⟨junk, hitems, hwrite⟩ := hrun (sortPrefixes items) [] ⟨sortPrefixes items, 0, 0⟩ 0
    ⟨rfl, [], rfl, rfl⟩
  unfold normalizePrefixes
  dsimp only
  rw [range_eq_range', hitems, hwrite]
  exact take_left' length_reverse

/-! ### The stack of blocks -/

/-- Joining on the stack of prefixes is settling on the stack of their blocks. -/
theorem settlePrefix_blocks {x : Prefix} {st : List Prefix} (h : ∀ p ∈ x :: st, Collected p) :
    (settlePrefix x st).map toBlock = Cidr.settle (toBlock x) (st.map toBlock) ∧
      ∀ p ∈ settlePrefix x st, Collected p := by
  induction st generalizing x with
  | nil => exact ⟨rfl, h⟩
  | cons y st ih =>
    have hx : Collected x := h x mem_cons_self
    have hy : Collected y := h y (mem_cons_of_mem _ mem_cons_self)
    rw [settlePrefix, map_cons, Cidr.settle]
    by_cases hmerge : canMerge y x = true
    · have hzero : y.prefixLen ≠ 0 := fun hzero => by
        rw [canMerge, if_pos (.inr (.inl hzero))] at hmerge
        exact Bool.false_ne_true hmerge
      rw [if_pos hmerge, if_pos ((canMerge_iff hy hx).mp hmerge), ← toBlock_joined hy hzero]
      refine ih fun p hp => ?_
      rcases mem_cons.mp hp with rfl | hp
      · exact joined_collected hy
      · exact h p (mem_cons_of_mem _ (mem_cons_of_mem _ hp))
    · rw [if_neg hmerge, if_neg fun hsib => hmerge ((canMerge_iff hy hx).mpr hsib)]
      exact ⟨rfl, h⟩

variable {l : List Prefix}

/-- Over an ordered list nothing is skipped, and the pass is the one of the blocks. -/
theorem foldl_stackStep (hl : ∀ p ∈ l, Collected p)
    (hordered : (l.map toBlock).Pairwise (Cidr.Before KeyLt)) (st : List Prefix)
    (hst : ∀ p ∈ st, Collected p)
    (hahead : ∀ b ∈ st.map toBlock, ∀ r ∈ l, Cidr.Before KeyLt b (toBlock r)) :
    (l.foldl (stackStep true) st).map toBlock =
        (l.map toBlock).foldl (fun st x => Cidr.settle x st) (st.map toBlock) ∧
      ∀ p ∈ l.foldl (stackStep true) st, Collected p := by
  induction l generalizing st with
  | nil => exact ⟨rfl, hst⟩
  | cons x l ih =>
    rw [map_cons, pairwise_cons] at hordered
    obtain ⟨hx, hrest⟩ := hordered
    have hxc : Collected x := hl x mem_cons_self
    have hstep : stackStep true st x = settlePrefix x st := by
      cases st with
      | nil => rfl
      | cons y st =>
        have hlt := comparePrefix_of_before (hst y mem_cons_self) hxc
          (hahead _ (mem_map_of_mem mem_cons_self) x mem_cons_self)
        rw [stackStep, if_neg (by simp [hlt]), if_pos rfl]
    have hpush : ∀ p ∈ x :: st, Collected p := fun p hp => by
      rcases mem_cons.mp hp with rfl | hp
      · exact hxc
      · exact hst p hp
    obtain ⟨hblocks, hcollected⟩ := settlePrefix_blocks hpush
    rw [foldl_cons, map_cons, foldl_cons, hstep, ← hblocks]
    refine ih (fun p hp => hl p (mem_cons_of_mem _ hp)) hrest _ hcollected fun b hb r hr => ?_
    rw [hblocks] at hb
    refine Cidr.settle_before (fun c hc => ?_) b hb
    rcases mem_cons.mp hc with rfl | hc
    · exact hx _ (mem_map_of_mem hr)
    · exact hahead c hc r (mem_cons_of_mem _ hr)

theorem Prefix.Overlap.symm (h : p.Overlap q) : q.Overlap p := by
  obtain ⟨hfamily, address, hp, hq⟩ := h
  exact ⟨hfamily.symm, address, hq, hp⟩

/-- The sorted list of disjoint prefixes is an ordered list of blocks. -/
theorem sortPrefixes_before (hl : ∀ p ∈ l, Collected p)
    (hdisjoint : l.Pairwise fun p q => ¬ p.Overlap q) :
    ((sortPrefixes l).map toBlock).Pairwise (Cidr.Before KeyLt) := by
  have hmem : ∀ p ∈ sortPrefixes l, Collected p := fun p hp =>
    hl p ((sortPrefixes_perm l).mem_iff.mp hp)
  have hsorted := (sortPrefixes_sorted l).and <|
    ((sortPrefixes_perm l).pairwise_iff fun hno hback => hno hback.symm).mpr hdisjoint
  rw [pairwise_map]
  exact hsorted.imp_of_mem fun hp hq h => before_of_comparePrefix (hmem _ hp) (hmem _ hq) h.1 h.2

/-- **The merged list is the aggregation of the blocks of the sorted one.** -/
theorem normalize_blocks (hl : ∀ p ∈ l, Collected p)
    (hdisjoint : l.Pairwise fun p q => ¬ p.Overlap q) :
    (normalizePrefixes true l).1.map toBlock = Cidr.aggregate ((sortPrefixes l).map toBlock) ∧
      ∀ p ∈ (normalizePrefixes true l).1, Collected p := by
  have hmem : ∀ p ∈ sortPrefixes l, Collected p := fun p hp =>
    hl p ((sortPrefixes_perm l).mem_iff.mp hp)
  obtain ⟨hblocks, hcollected⟩ := foldl_stackStep hmem (sortPrefixes_before hl hdisjoint) []
    (fun p hp => absurd hp not_mem_nil) fun b hb => absurd hb not_mem_nil
  rw [normalizePrefixes_eq]
  refine ⟨?_, fun p hp => hcollected p (mem_reverse.mp hp)⟩
  rw [map_reverse, hblocks]
  rfl

theorem exists_covers_iff (hl : ∀ p ∈ l, Collected p) {isoCode : List UInt8}
    {family : ℕ} {address : Address} :
    (∃ b ∈ l.map toBlock, b.Covers (isoCode, family) (value family address)) ↔
      ∃ p ∈ l, p.Covers isoCode family address := by
  simp only [mem_map, exists_exists_and_eq_and]
  exact exists_congr fun p => and_congr_right fun hp => covers_toBlock (hl p hp)

/-- Halves of one prefix are halves of one block, in one of the two orders. -/
theorem Prefix.Sibling.blocks (hp : Collected p) (h : p.Sibling q) :
    (toBlock p).Siblings (toBlock q) ∨ (toBlock q).Siblings (toBlock p) := by
  obtain ⟨hiso, hfamily, hlen, n, hn, hsame, hbit⟩ := h
  have hlt : n < 128 := by
    have := hp.prefixLen_le.trans (width_le _)
    omega
  have hkey : (toBlock p).key = (toBlock q).key := Prod.ext hiso hfamily
  have hbits : (toBlock p).bits = (toBlock q).bits := by
    show width p.family - p.prefixLen = width q.family - q.prefixLen
    rw [hfamily, hlen]
  have hleading := (leading_eq_iff (Nat.le_of_lt hlt)).mpr hsame
  have hphead : (toBlock p).head = 2 * leading n p.address + (getAddressBit p.address n).toNat := by
    show leading p.prefixLen _ = _
    rw [hn, leading_succ hlt]
  have hqhead : (toBlock q).head = 2 * leading n p.address + (getAddressBit q.address n).toNat := by
    show leading q.prefixLen _ = _
    rw [← hlen, hn, leading_succ hlt, hleading]
  cases hpbit : getAddressBit p.address n <;> cases hqbit : getAddressBit q.address n <;>
    rw [hpbit] at hphead hbit <;> rw [hqbit] at hqhead hbit
  · exact absurd rfl hbit
  · rw [Bool.toNat_false] at hphead
    rw [Bool.toNat_true] at hqhead
    exact .inl ⟨hkey, hbits, by omega, by omega⟩
  · rw [Bool.toNat_true] at hphead
    rw [Bool.toNat_false] at hqhead
    exact .inr ⟨hkey.symm, hbits.symm, by omega, by omega⟩
  · exact absurd rfl hbit

/-- **Without merging the list is sorted and every prefix stands in it once.** -/
theorem normalize_sorts (hl : ∀ p ∈ l, Collected p) :
    ((normalizePrefixes false l).1.Pairwise fun p q => comparePrefix p q = .lt) ∧
      ∀ p, p ∈ (normalizePrefixes false l).1 ↔ p ∈ l := by
  have hrun : ∀ rest st : List Prefix, (∀ p ∈ st ++ rest, Collected p) →
      (st.Pairwise fun p q => comparePrefix q p = .lt) →
      (rest.Pairwise fun p q => (comparePrefix p q).isLE) →
      (∀ p ∈ st, ∀ q ∈ rest, (comparePrefix p q).isLE) →
      ((rest.foldl (stackStep false) st).Pairwise fun p q => comparePrefix q p = .lt) ∧
        ∀ p, p ∈ rest.foldl (stackStep false) st ↔ p ∈ st ∨ p ∈ rest := by
    intro rest
    induction rest with
    | nil => exact fun st _ hst _ _ => ⟨hst, fun p => by simp⟩
    | cons x rest ih =>
      intro st hcollected hst hrest hahead
      obtain ⟨hx, hrest⟩ := pairwise_cons.mp hrest
      rw [foldl_cons]
      by_cases hskip : st.head?.any (fun y => comparePrefix y x = .eq) = true
      · -- the item on top is `x` already
        obtain ⟨y, hy, heq⟩ : ∃ y, st.head? = some y ∧ decide (comparePrefix y x = .eq) = true := by
          cases hhead : st.head? with
          | none => rw [hhead] at hskip; cases hskip
          | some y => exact ⟨y, rfl, by rwa [hhead] at hskip⟩
        have hyst : y ∈ st := mem_of_head? hy
        have hyx : y = x := (comparePrefix_eq_iff (hcollected y (mem_append_left _ hyst))
          (hcollected x (mem_append_right _ mem_cons_self))).mp (of_decide_eq_true heq)
        rw [stackStep, if_pos hskip]
        obtain ⟨hpairs, hmem⟩ := ih st
          (fun p hp => hcollected p (by
            rcases mem_append.mp hp with hp | hp
            · exact mem_append_left _ hp
            · exact mem_append_right _ (mem_cons_of_mem _ hp)))
          hst hrest fun p hp q hq => hahead p hp q (mem_cons_of_mem _ hq)
        refine ⟨hpairs, fun p => (hmem p).trans ?_⟩
        rw [mem_cons]
        refine or_congr_right' fun hnot => ⟨.inr, ?_⟩
        rintro (rfl | hp)
        · exact absurd (hyx ▸ hyst) hnot
        · exact hp
      · rw [stackStep, if_neg hskip, if_neg Bool.false_ne_true]
        have hbelow : ∀ y ∈ st, comparePrefix y x = .lt := by
          intro y hy
          cases st with
          | nil => exact absurd hy not_mem_nil
          | cons z st =>
            have hzx : comparePrefix z x = .lt := by
              have hle := hahead z mem_cons_self x mem_cons_self
              have hne : comparePrefix z x ≠ .eq := by simpa using hskip
              revert hle hne
              cases comparePrefix z x <;> decide
            rcases mem_cons.mp hy with rfl | hy
            · exact hzx
            · exact Std.TransCmp.lt_trans ((pairwise_cons.mp hst).1 y hy) hzx
        obtain ⟨hpairs, hmem⟩ := ih (x :: st)
          (fun p hp => hcollected p (by
            rcases mem_append.mp hp with hp | hp
            · rcases mem_cons.mp hp with rfl | hp
              · exact mem_append_right _ mem_cons_self
              · exact mem_append_left _ hp
            · exact mem_append_right _ (mem_cons_of_mem _ hp)))
          (pairwise_cons.mpr ⟨hbelow, hst⟩) hrest fun p hp q hq => by
            rcases mem_cons.mp hp with rfl | hp
            · exact hx q hq
            · exact hahead p hp q (mem_cons_of_mem _ hq)
        refine ⟨hpairs, fun p => (hmem p).trans ?_⟩
        rw [mem_cons, mem_cons, or_assoc]
        exact or_left_comm
  have hmem : ∀ p ∈ ([] : List Prefix) ++ sortPrefixes l, Collected p := fun p hp =>
    hl p ((sortPrefixes_perm l).mem_iff.mp hp)
  obtain ⟨hpairs, hin⟩ := hrun (sortPrefixes l) [] hmem List.Pairwise.nil (sortPrefixes_sorted l)
    fun p hp => absurd hp not_mem_nil
  rw [normalizePrefixes_eq]
  refine ⟨pairwise_reverse.mpr hpairs, fun p => ?_⟩
  rw [mem_reverse, hin, (sortPrefixes_perm l).mem_iff]
  exact ⟨fun h => h.resolve_left not_mem_nil, .inr⟩

/-- **Aggregation preserves coverage and is minimal.**  For disjoint prefixes of any countries, the
    merged list is strictly sorted; covers under every country and family the same addresses; has no
    two overlapping prefixes and no two halves of one prefix of a country; is no longer than any
    other list of prefixes for these addresses; and is left as it is by a second pass.  Without
    merging the input is sorted. -/
theorem normalize_aggregates {l : List Prefix} (hl : ∀ p ∈ l, Collected p)
    (hdisjoint : l.Pairwise fun p q => ¬ p.Overlap q) :
    ((normalizePrefixes true l).1.Pairwise fun p q => comparePrefix p q = .lt) ∧
      (∀ isoCode family address, (∃ p ∈ (normalizePrefixes true l).1,
        p.Covers isoCode family address) ↔ ∃ p ∈ l, p.Covers isoCode family address) ∧
      ((normalizePrefixes true l).1.Pairwise fun p q => ¬ p.Overlap q) ∧
      (∀ p ∈ (normalizePrefixes true l).1, ∀ q ∈ (normalizePrefixes true l).1, ¬ p.Sibling q) ∧
      (∀ other : List Prefix, (∀ p ∈ other, Collected p) →
        (∀ isoCode family address, (∃ p ∈ other, p.Covers isoCode family address) ↔
          ∃ p ∈ l, p.Covers isoCode family address) →
        (normalizePrefixes true l).1.length ≤ other.length) ∧
      (normalizePrefixes true (normalizePrefixes true l).1).1 = (normalizePrefixes true l).1 ∧
      ((normalizePrefixes false l).1.Pairwise fun p q => comparePrefix p q = .lt) ∧
      (normalizePrefixes false l).1.Perm l := by
  obtain ⟨hblocks, hout⟩ := normalize_blocks hl hdisjoint
  have hcanonical := Cidr.aggregate_canonical (sortPrefixes_before hl hdisjoint)
  rw [← hblocks] at hcanonical
  have hordered := pairwise_map.mp hcanonical.ordered
  have hsorted : (normalizePrefixes true l).1.Pairwise fun p q => comparePrefix p q = .lt :=
    hordered.imp_of_mem fun hp hq h => comparePrefix_of_before (hout _ hp) (hout _ hq) h
  have hsame : ∀ k a, (∃ b ∈ (normalizePrefixes true l).1.map toBlock, b.Covers k a) ↔
      ∃ b ∈ l.map toBlock, b.Covers k a := fun k a => by
    rw [hblocks, Cidr.covers_aggregate]
    exact exists_congr fun b => and_congr_left' ((sortPrefixes_perm l).map toBlock).mem_iff
  have hcovers : ∀ isoCode family address, (∃ p ∈ (normalizePrefixes true l).1,
      p.Covers isoCode family address) ↔ ∃ p ∈ l, p.Covers isoCode family address :=
    fun isoCode family address => by
      rw [← exists_covers_iff hout, ← exists_covers_iff hl, hsame]
  obtain ⟨hunmerged, hmem⟩ := normalize_sorts hl
  refine ⟨hsorted, hcovers, ?_, ?_, ?_, ?_, hunmerged, ?_⟩
  · refine hordered.imp_of_mem fun {p q} hp hq hbefore hover => ?_
    obtain ⟨hfamily, address, hpbits, hqbits⟩ := hover
    have hpcov : p.Covers p.isoCode p.family address := ⟨rfl, rfl, hpbits⟩
    have hqcov : q.Covers q.isoCode p.family address := ⟨rfl, hfamily.symm, hqbits⟩
    by_cases hiso : p.isoCode = q.isoCode
    · rw [← hiso] at hqcov
      exact hbefore.not_overlap ⟨_, _, (covers_toBlock (hout p hp)).mpr hpcov,
        (covers_toBlock (hout q hq)).mpr hqcov⟩
    -- two countries with one address would have had it from the start
    obtain ⟨p', hp', hp'iso, hp'family, hp'bits⟩ := (hcovers _ _ _).mp ⟨p, hp, hpcov⟩
    obtain ⟨q', hq', hq'iso, hq'family, hq'bits⟩ := (hcovers _ _ _).mp ⟨q, hq, hqcov⟩
    have hne : p' ≠ q' := fun heq => hiso (by rw [← hp'iso, heq, hq'iso])
    have : Std.Symm fun p q : Prefix => ¬ p.Overlap q := ⟨fun _ _ hno hback => hno hback.symm⟩
    exact hdisjoint.forall hp' hq' hne
      ⟨hp'family.trans hq'family.symm, address, hp'bits, hq'bits⟩
  · intro p hp q hq hsib
    rcases hsib.blocks (hout p hp) with h | h
    · exact hcanonical.apart _ (mem_map_of_mem hp) _ (mem_map_of_mem hq) h
    · exact hcanonical.apart _ (mem_map_of_mem hq) _ (mem_map_of_mem hp) h
  · intro other hother hcov
    have hblockcov : ∀ k a, (∃ b ∈ (normalizePrefixes true l).1.map toBlock, b.Covers k a) ↔
        ∃ b ∈ other.map toBlock, b.Covers k a := fun k a => by
      -- beyond the addresses of the families no block reaches
      by_cases haddress : ∃ address, value k.2 address = a
      · obtain ⟨address, rfl⟩ := haddress
        obtain ⟨isoCode, family⟩ := k
        rw [exists_covers_iff hout, exists_covers_iff hother, hcovers, hcov]
      constructor
      · rintro ⟨b, hb, hbcov⟩
        obtain ⟨p, hp, rfl⟩ := mem_map.mp hb
        exact absurd (exists_address (hout p hp) hbcov) haddress
      · rintro ⟨b, hb, hbcov⟩
        obtain ⟨p, hp, rfl⟩ := mem_map.mp hb
        exact absurd (exists_address (hother p hp) hbcov) haddress
    have hle := hcanonical.length_le hblockcov
    rwa [length_map, length_map] at hle
  · rw [normalizePrefixes_eq true (normalizePrefixes true l).1, sortPrefixes_eq_self hsorted]
    generalize (normalizePrefixes true l).1 = out at *
    -- on a canonical list every step pushes
    have hrun : ∀ rest st : List Prefix, st.reverse ++ rest = out →
        rest.foldl (stackStep true) st = rest.reverse ++ st := by
      intro rest
      induction rest with
      | nil => exact fun st _ => rfl
      | cons x rest ih =>
        intro st hsplit
        have hxmem : x ∈ out := by
          rw [← hsplit]
          exact mem_append_right _ mem_cons_self
        have hstep : stackStep true st x = x :: st := by
          cases st with
          | nil => rfl
          | cons y st =>
            have hymem : y ∈ out := by
              rw [← hsplit]
              exact mem_append_left _ (mem_reverse.mpr mem_cons_self)
            have hlt : comparePrefix y x = .lt := by
              rw [← hsplit] at hsorted
              exact (pairwise_append.mp hsorted).2.2 y
                (mem_reverse.mpr mem_cons_self) x mem_cons_self
            have hapart : ¬ canMerge y x = true := fun hmerge =>
              hcanonical.apart _ (mem_map_of_mem hymem) _ (mem_map_of_mem hxmem)
                ((canMerge_iff (hout y hymem) (hout x hxmem)).mp hmerge)
            rw [stackStep, if_neg (by simp [hlt]), if_pos rfl, settlePrefix, if_neg hapart]
        rw [foldl_cons, hstep, ih (x :: st)]
        · rw [reverse_cons, append_assoc]
          rfl
        · rw [← hsplit, reverse_cons, append_assoc]
          rfl
    rw [hrun out [] rfl, append_nil, reverse_reverse]
  · have hnodup : l.Nodup := hdisjoint.imp fun {p q} hno (heq : p = q) =>
      hno (heq ▸ ⟨rfl, p.address, fun _ _ => rfl, fun _ _ => rfl⟩)
    have hnodup' : (normalizePrefixes false l).1.Nodup := hunmerged.imp fun {p q} hlt (heq : p = q) => by
      have hself : comparePrefix q q = .eq := Std.ReflCmp.compare_self
      rw [heq, hself] at hlt
      cases hlt
    exact (perm_ext_iff_of_nodup hnodup' hnodup).mpr hmem

/-- `1.128.0.0/9` and `1.0.0.0/9` of one country. -/
def halves : List Prefix :=
  [⟨setAddressBit (setAddressBit Address.zero 7 true) 8 true, 4, 9, [67, 78]⟩,
    ⟨setAddressBit Address.zero 7 true, 4, 9, [67, 78]⟩]

theorem normalize_aggregates_halves :
    ((normalizePrefixes true halves).1.Pairwise fun p q => ¬ p.Overlap q) ∧
      (normalizePrefixes true (normalizePrefixes true halves).1).1 =
        (normalizePrefixes true halves).1 ∧
      (normalizePrefixes false halves).1.Perm halves := by
  have hcollected : ∀ p ∈ halves, Collected p := by
    have hall : ∀ p ∈ halves, p.family = 4 ∧ p.prefixLen ≤ width p.family ∧
        ∀ bit < 128, p.prefixLen ≤ bit → getAddressBit p.address bit = false := by decide +kernel
    exact fun p hp => ⟨.inl (hall p hp).1, (hall p hp).2.1, fun bit hle hbit =>
      (hall p hp).2.2 bit hbit hle⟩
  have hdisjoint : halves.Pairwise fun p q => ¬ p.Overlap q := by
    rw [halves, pairwise_pair]
    rintro ⟨-, address, hupper, hlower⟩
    have heq := (hupper 8 (by decide)).symm.trans (hlower 8 (by decide))
    exact absurd heq (by decide)
  obtain ⟨-, -, hout, -, -, hagain, -, hperm⟩ := normalize_aggregates hcollected hdisjoint
  exact ⟨hout, hagain, hperm⟩

end DreamingOS.Geoip
