import DreamingOS.V3.Records
import DreamingOS.Lib.AhoCorasick.Links
import DreamingOS.Lib.Bisect
import DreamingOS.Lib.Outcome
import Mathlib.Data.List.Sort
import Mathlib.Data.List.ReduceOption

namespace DreamingOS.V3

open Outcome List

/-!
# v3 chain rules — the pattern automaton

`jmx_v3_ac.c`: the build of the automaton from the first step of every rule, and the scan of a
payload under a work budget.

* `acBuild` — insertion and breadth-first linking by the `AhoCorasick` library, whose functions
  keep the source's linked-list order, then the flattening with sorted edges and the root table;
* `findChild` / `acWalk` / `emitNode` / `acScan` — the scan; every lookup, failure step and emitted
  output spends one unit of the budget;
* `IsOccurrence` — what the scan is for: the occurrences of the folded patterns in the folded
  payload;
* `acScan_meets` — the scan calls `emit` for exactly the occurrences, stops only for want of budget,
  and keeps any invariant that `emit` keeps.
-/

/-! ### Building -/

/-- `v3_fold`. -/
def v3Fold (byte : UInt8) : UInt8 :=
  if 0x41 ≤ byte ∧ byte ≤ 0x5a then byte + (0x61 - 0x41) else byte

/-- `struct jmx_v3_ac_pattern`. -/
structure AcPattern where
  (ruleIndex stepIndex len : ℕ)
  bytes : List UInt8

/-- The folded bytes of a pattern, the path it takes in the trie. -/
def AcPattern.key (p : AcPattern) : List UInt8 := (p.bytes.take p.len).map v3Fold

def AcPattern.output (p : AcPattern) : AcOutput := ⟨p.ruleIndex, p.stepIndex, p.len⟩

/-- Which allocations of `jmx_v3_ac_build` succeed. -/
structure AcAlloc where
  tables : Bool := true
  queue : Bool := true
  automaton : Bool := true
  deriving DecidableEq

/-- The first loop of `jmx_v3_ac_build`: check the lengths and bound the number of nodes. -/
def countNodes : ℕ → List AcPattern → Except Errno ℕ
  | maxNodes, [] => .ok maxNodes
  | maxNodes, p :: ps =>
    if p.len = 0 ∨ JMX_V3_PAYLOAD_MAX < p.len then .error .EINVAL
    else if U32_MAX < maxNodes + p.len then .error .EOVERFLOW
    else countNodes (maxNodes + p.len) ps

/-- `sort_edges`, by label. -/
def sortEdges (edges : List (UInt8 × ℕ)) : List (UInt8 × ℕ) :=
  edges.insertionSort (fun a b => a.1.toNat ≤ b.1.toNat)

/-- The final loop of `jmx_v3_ac_build`: one flat node of every build node. -/
def acNodeOf (n : AhoCorasick.Node UInt8 AcOutput) : AcNode where
  fail := n.fail
  dictSuffix := n.dictSuffix
  edges := sortEdges n.edges
  outputs := n.outputs

/-- The root table: zero, except where the root has an edge. -/
def rootTable (edges : List (UInt8 × ℕ)) : List ℕ :=
  edges.foldl (fun table e => table.set e.1.toNat e.2) (List.replicate 256 0)

def acOfTrie (t : AhoCorasick.Trie UInt8 AcOutput) : Ac where
  nodes := t.map acNodeOf
  rootNext := rootTable (sortEdges (t.node 0).edges)

/-- `jmx_v3_ac_build`. -/
def acBuild (alloc : AcAlloc) (patterns : List AcPattern) : Except Errno Ac :=
  if patterns.isEmpty then .error .EINVAL
  else
    match countNodes 1 patterns with
    | .error rc => .error rc
    | .ok maxNodes =>
      if !alloc.tables then .error .ENOMEM
      else
        match AhoCorasick.insertAll maxNodes U16_MAX AhoCorasick.Trie.empty
            (patterns.map fun p => (p.key, p.output)) with
        | none => .error .EOVERFLOW
        | some t =>
          if !alloc.queue || !alloc.automaton then .error .ENOMEM
          else .ok (acOfTrie (AhoCorasick.link t))

/-! ### Scanning -/

/-- Spend one unit of the work budget. -/
def spend (work : ℕ) : Except Errno ℕ := if work = 0 then .error .E2BIG else .ok (work - 1)

def Ac.node (ac : Ac) (i : ℕ) : Except Errno AcNode :=
  match ac.nodes[i]? with
  | some n => .ok n
  | none => .error .outOfBounds

/-- The binary search of `find_child` among the edges with index in `[lo, hi)`. -/
def findChildLoop (edges : List (UInt8 × ℕ)) (byte : UInt8) :
    ℕ → ℕ → ℕ → ℕ → Except Errno (Option ℕ × ℕ)
  | 0, _, _, _ => .error .outOfFuel
  | fuel + 1, lo, hi, work =>
    if hi ≤ lo then .ok (none, work)
    else do
      let mid := (lo + hi - 1) / 2
      let work ← spend work
      match edges[mid]? with
      | none => .error .outOfBounds
      | some edge =>
        if edge.1 = byte then .ok (some edge.2, work)
        else if edge.1 < byte then findChildLoop edges byte fuel (mid + 1) hi work
        else findChildLoop edges byte fuel lo mid work

/-- `find_child`. -/
def findChild (ac : Ac) (node : ℕ) (byte : UInt8) (work : ℕ) : Except Errno (Option ℕ × ℕ) := do
  let n ← ac.node node
  findChildLoop n.edges byte (n.edges.length + 1) 0 n.edges.length work

/-- The inner loop of `jmx_v3_ac_scan`: follow failure links until some node has an edge for
    `byte`; at the root the table answers. -/
def acWalk (ac : Ac) (byte : UInt8) : ℕ → ℕ → ℕ → Except Errno (ℕ × ℕ)
  | 0, _, _ => .error .outOfFuel
  | fuel + 1, state, work =>
    if state = 0 then
      match ac.rootNext[byte.toNat]? with
      | some next => .ok (next, work)
      | none => .error .outOfBounds
    else do
      let (found, work) ← findChild ac state byte work
      match found with
      | some next => .ok (next, work)
      | none =>
        let work ← spend work
        let n ← ac.node state
        acWalk ac byte fuel n.fail work

section Emit

variable {κ : Type}

/-- What a scan reports to its callback: a rule's step occurs at `[start, stop)`. -/
structure Emission where
  (ruleIndex stepIndex start stop : ℕ)
  deriving DecidableEq

/-- The callback of a scan: it updates its context and spends from the budget. -/
abbrev Emit (κ : Type) := κ → Emission → ℕ → Except Errno (κ × ℕ)

/-- `emit_node`, over the outputs of one node. -/
def emitNode (emit : Emit κ) (stop : ℕ) : List AcOutput → κ → ℕ → Except Errno (κ × ℕ)
  | [], ctx, work => .ok (ctx, work)
  | out :: outs, ctx, work =>
    if stop < out.patternLen then emitNode emit stop outs ctx work
    else do
      let work ← spend work
      let (ctx, work) ← emit ctx ⟨out.ruleIndex, out.stepIndex, stop - out.patternLen, stop⟩ work
      emitNode emit stop outs ctx work

/-- The loop along dictionary links. -/
def emitChain (ac : Ac) (emit : Emit κ) (stop : ℕ) : ℕ → Option ℕ → κ → ℕ → Except Errno (κ × ℕ)
  | _, none, ctx, work => .ok (ctx, work)
  | 0, some _, _, _ => .error .outOfFuel
  | fuel + 1, some i, ctx, work => do
    let n ← ac.node i
    let (ctx, work) ← emitNode emit stop n.outputs ctx work
    emitChain ac emit stop fuel n.dictSuffix ctx work

/-- The loop of `jmx_v3_ac_scan` over the payload from position `pos` on. -/
def acScanFrom (ac : Ac) (emit : Emit κ) : List UInt8 → ℕ → ℕ → κ → ℕ → Except Errno (κ × ℕ)
  | [], _, _, ctx, work => .ok (ctx, work)
  | b :: rest, pos, state, ctx, work => do
    let work ← spend work
    let (state, work) ← acWalk ac (v3Fold b) (work + 1) state work
    let (ctx, work) ← emitChain ac emit (pos + 1) (ac.nodes.size + 1) (some state) ctx work
    acScanFrom ac emit rest (pos + 1) state ctx work

/-- `jmx_v3_ac_scan`. -/
def acScan (ac : Ac) (payload : List UInt8) (emit : Emit κ) (ctx : κ) (work : ℕ) :
    Except Errno (κ × ℕ) :=
  if payload.isEmpty then .error .EINVAL
  else acScanFrom ac emit payload 0 0 ctx work

end Emit

/-! ### Budget -/

/-- The only error of a scan is an exhausted budget. -/
def OnlyBudget (e : Errno) : Prop := e = .E2BIG

theorem spend_meets (work : ℕ) : Meets OnlyBudget (fun w => w + 1 = work) (spend work) := by
  unfold spend
  refine Meets.ite (fun _ => rfl) (fun h => ?_)
  rw [meets_ok]
  omega

/-! ### Edges -/

variable {edges : List (UInt8 × ℕ)}

theorem mem_sortEdges {e : UInt8 × ℕ} : e ∈ sortEdges edges ↔ e ∈ edges := by
  rw [sortEdges, mem_insertionSort]

/-- Sorted edges with distinct labels increase strictly. -/
theorem sortEdges_pairwise (hnd : edges.Nodup)
    (hlabel : ∀ b j k, (b, j) ∈ edges → (b, k) ∈ edges → j = k) :
    (sortEdges edges).Pairwise (fun a b => a.1.toNat < b.1.toNat) := by
  have htotal : Std.Total (fun a b : UInt8 × ℕ => a.1.toNat ≤ b.1.toNat) :=
    ⟨fun a b => le_total a.1.toNat b.1.toNat⟩
  have htrans : IsTrans (UInt8 × ℕ) (fun a b => a.1.toNat ≤ b.1.toNat) :=
    ⟨fun _ _ _ h h' => le_trans h h'⟩
  have hle : (sortEdges edges).Pairwise (fun a b => a.1.toNat ≤ b.1.toNat) :=
    pairwise_insertionSort _ _
  have hne : (sortEdges edges).Pairwise (fun a b => a ≠ b) :=
    (perm_insertionSort _ edges).nodup_iff.mpr hnd
  refine (hle.and hne).imp_of_mem ?_
  rintro ⟨b, j⟩ ⟨c, k⟩ hb hc ⟨hbc, hdiff⟩
  refine lt_of_le_of_ne hbc (fun heq => hdiff ?_)
  have heq' : b = c := UInt8.toNat_inj.mp heq
  subst heq'
  rw [hlabel b j k (mem_sortEdges.mp hb) (mem_sortEdges.mp hc)]

/-- The key of an edge in a search. -/
def edgeKey (e : UInt8 × ℕ) : ℕ := e.1.toNat

variable {byte : UInt8}

/-- An edge found under its label is the only one with it. -/
theorem found_edge
    (hs : edges.Pairwise (fun a b => a.1.toNat < b.1.toNat)) {mid : ℕ} (hmid : mid < edges.length)
    (heq : edges[mid].1 = byte) (j : ℕ) : some edges[mid].2 = some j ↔ (byte, j) ∈ edges := by
  have hedge : (byte, edges[mid].2) = edges[mid] := by rw [← heq]
  constructor
  · intro hj
    rw [← Option.some.inj hj, hedge]
    exact getElem_mem hmid
  · intro hmem
    have hsame : edges[mid] = (byte, j) :=
      Bisect.unique hs (getElem_mem hmid) hmem (congrArg UInt8.toNat heq)
    rw [hsame]

variable {b : UInt8}

/-- The label is greater than that of an edge which is neither the one nor behind it. -/
theorem label_lt {a : UInt8} (hne : a ≠ b) (hge : ¬ a < b) : b.toNat < a.toNat := by
  have hdiff : a.toNat ≠ b.toNat := fun h => hne (UInt8.toNat_inj.mp h)
  rw [UInt8.lt_iff_toNat_lt] at hge
  omega

variable {work : ℕ}

/-- The binary search finds the edge with the label, if there is one; `lo` and `hi` enclose it. -/
theorem findChildLoop_meets
    (hs : edges.Pairwise (fun a b => a.1.toNat < b.1.toNat)) {fuel lo hi : ℕ}
    (hlohi : lo ≤ hi) (hhi : hi ≤ edges.length) (hfuel : hi < lo + fuel)
    (henc : Bisect.Encloses edgeKey edges byte.toNat lo hi) :
    Meets OnlyBudget (fun r => r.2 ≤ work ∧ ∀ j, r.1 = some j ↔ (byte, j) ∈ edges)
      (findChildLoop edges byte fuel lo hi work) := by
  induction fuel generalizing lo hi work with
  | zero => omega
  | succ fuel ih =>
    rw [findChildLoop]
    refine Meets.ite (fun hdone => ?_) (fun hgo => ?_)
    · rw [meets_ok]
      refine ⟨le_refl _, fun j => ?_⟩
      simp only [reduceCtorEq, false_iff]
      exact fun hmem => henc.empty hdone _ hmem rfl
    · refine Meets.bind (spend_meets work) (fun w hw => ?_)
      have hmid : (lo + hi - 1) / 2 < edges.length := by omega
      simp only [getElem?_eq_getElem hmid]
      refine Meets.ite (fun heq => ?_) (fun hne => Meets.ite (fun hlt => ?_) (fun hge => ?_))
      · exact ⟨by omega, found_edge hs hmid heq⟩
      · have hupper := henc.upper hs hmid (UInt8.lt_iff_toNat_lt.mp hlt)
        exact (ih (by omega) hhi (by omega) hupper).imp fun r hr => ⟨by have := hr.1; omega, hr.2⟩
      · have hlower := henc.lower hs hmid (label_lt hne hge)
        exact (ih (by omega) (by omega) (by omega) hlower).imp fun r hr => ⟨by have := hr.1; omega, hr.2⟩

/-- Filling the table overrides exactly the entries with an edge. -/
theorem rootTable_fill (byte : UInt8) : ∀ table : List ℕ,
    table.length = 256 → (∀ b j k, (b, j) ∈ edges → (b, k) ∈ edges → j = k) →
    (∀ j, (byte, j) ∈ edges →
      (edges.foldl (fun table e => table.set e.1.toNat e.2) table)[byte.toNat]? = some j) ∧
    ((∀ j, (byte, j) ∉ edges) →
      (edges.foldl (fun table e => table.set e.1.toNat e.2) table)[byte.toNat]?
        = table[byte.toNat]?) := by
  induction edges with
  | nil => intro table _ _; simp
  | cons e edges ih =>
    obtain ⟨b, k⟩ := e
    intro table hlen hlabel
    obtain ⟨hin, hout⟩ := ih (table.set b.toNat k) (by simpa using hlen)
      (fun b' j k' hj hk => hlabel b' j k' (mem_cons_of_mem _ hj) (mem_cons_of_mem _ hk))
    have hbyte : byte.toNat < table.length := by rw [hlen]; exact byte.toNat_lt
    simp only [foldl_cons]
    constructor
    · intro j hj
      by_cases hmem : ∃ j', (byte, j') ∈ edges
      · obtain ⟨j', hj'⟩ := hmem
        rw [hin j' hj', hlabel byte j j' hj (mem_cons_of_mem _ hj')]
      rcases mem_cons.mp hj with heq | hj'
      · simp only [Prod.mk.injEq] at heq
        rw [hout (fun j' hj' => hmem ⟨j', hj'⟩), ← heq.1, ← heq.2, getElem?_set_self hbyte]
      · exact absurd ⟨j, hj'⟩ hmem
    · intro hnone
      rw [hout (fun j hj => hnone j (mem_cons_of_mem _ hj)), getElem?_set_ne]
      intro heq
      have hb : b = byte := UInt8.toNat_inj.mp heq
      exact hnone k (by rw [hb]; simp)

/-! ### Lookups of a finished automaton -/

section Machine

variable {t : AhoCorasick.Trie UInt8 AcOutput} {word : ℕ → List UInt8} {i : ℕ}

theorem acOfTrie_node (hi : i < t.size) : (acOfTrie t).node i = .ok (acNodeOf (t.node i)) := by
  have hnode : (acOfTrie t).nodes[i]? = some (acNodeOf (t.node i)) := by
    simp [acOfTrie, AhoCorasick.Trie.node, Array.getD, hi]
  rw [Ac.node, hnode]

/-- `find_child` on the flat nodes finds the child of the trie. -/
theorem findChild_meets (ht : AhoCorasick.IsTrie t word) (hi : i < t.size) (b : UInt8) (work : ℕ) :
    Meets OnlyBudget (fun r => r.2 ≤ work ∧ r.1 = AhoCorasick.findChild t i b)
      (findChild (acOfTrie t) i b work) := by
  unfold findChild
  rw [acOfTrie_node hi]
  have hs := sortEdges_pairwise (ht.edges_nodup i hi) (ht.edge_unique hi)
  show Meets _ _ (findChildLoop (sortEdges (t.node i).edges) b
    ((sortEdges (t.node i).edges).length + 1) 0 (sortEdges (t.node i).edges).length work)
  refine (findChildLoop_meets hs (Nat.zero_le _) (le_refl _) (by omega) Bisect.Encloses.full).imp
    (fun r hr => ⟨hr.1, ?_⟩)
  refine Option.ext (fun j => ?_)
  rw [hr.2 j, ← ht.mem_edges_iff hi b j]
  exact mem_sortEdges

/-- The root table holds the children of the root, and the root itself elsewhere. -/
theorem acOfTrie_rootNext (ht : AhoCorasick.IsTrie t word) (b : UInt8) :
    (acOfTrie t).rootNext[b.toNat]? = some ((AhoCorasick.findChild t 0 b).getD 0) := by
  have hlabel : ∀ c j k, (c, j) ∈ sortEdges (t.node 0).edges →
      (c, k) ∈ sortEdges (t.node 0).edges → j = k := by
    intro c j k hj hk
    exact ht.edge_unique ht.pos c j k (mem_sortEdges.mp hj) (mem_sortEdges.mp hk)
  obtain ⟨hin, hout⟩ := rootTable_fill b (List.replicate 256 0) length_replicate hlabel
  show (rootTable (sortEdges (t.node 0).edges))[b.toNat]? = _
  unfold rootTable
  cases hc : AhoCorasick.findChild t 0 b with
  | some j => exact hin j (mem_sortEdges.mpr ((ht.mem_edges_iff ht.pos b j).mpr hc))
  | none =>
    rw [hout]
    · rw [getElem?_replicate, if_pos b.toNat_lt]
      rfl
    · intro j hj
      have := (ht.mem_edges_iff ht.pos b j).mp (mem_sortEdges.mp hj)
      rw [hc] at this
      cases this

variable {ps : List (List UInt8 × AcOutput)}

/-- **One transition.**  The walk from the longest suffix of the text read so far finds the longest
    suffix of the text with one more byte; each failure step lowers the budget that fuels it. -/
theorem acWalk_meets (h : AhoCorasick.IsMachine t word ps) {x : List UInt8} :
    ∀ {fuel state work : ℕ}, AhoCorasick.Candidate t word x b state → work < fuel → Meets OnlyBudget
        (fun r => r.2 ≤ work ∧ AhoCorasick.IsLongest t word (x ++ [b]) r.1)
        (acWalk (acOfTrie t) b fuel state work) := by
  intro fuel
  induction fuel with
  | zero => intro state work _ hw; omega
  | succ fuel ih =>
    intro state work hcand hw
    rw [acWalk]
    refine Meets.ite (fun hs => ?_) (fun hs => ?_)
    · subst hs
      rw [acOfTrie_rootNext h.trie b]
      exact ⟨le_refl _, hcand.root h.trie⟩
    · refine Meets.bind (findChild_meets h.trie hcand.lt b work) ?_
      rintro ⟨found, w⟩ ⟨hwle, hfound⟩
      simp only at hwle hfound
      subst hfound
      cases hc : AhoCorasick.findChild t state b with
      | some c => exact ⟨hwle, hcand.found h.trie hc⟩
      | none =>
        refine Meets.bind (spend_meets w) (fun w' hw' => ?_)
        rw [acOfTrie_node hcand.lt, meets_ok_bind]
        have hfail := hcand.fail h.trie (h.linked state hcand.lt hs).fail hc
        exact (ih hfail (by omega)).imp (fun r hr => ⟨by have := hr.1; omega, hr.2⟩)

end Machine

/-! ### What a build produces -/

theorem countNodes_len {ps : List AcPattern} : ∀ {maxNodes n : ℕ},
    countNodes maxNodes ps = .ok n → ∀ p ∈ ps, 0 < p.len := by
  induction ps with
  | nil => simp
  | cons p ps ih =>
    intro maxNodes n h q hq
    rw [countNodes] at h
    split at h
    · cases h
    rename_i hbad
    split at h
    · cases h
    rcases mem_cons.mp hq with rfl | hq
    · omega
    · exact ih h q hq

/-- The words and outputs a build inserts. -/
def acEntries (patterns : List AcPattern) : List (List UInt8 × AcOutput) :=
  patterns.map fun p => (p.key, p.output)

variable {alloc : AcAlloc} {ac : Ac}

/-- **The build.**  A successful build flattens a machine for the folded patterns. -/
theorem acBuild_machine {patterns : List AcPattern}
    (hlen : ∀ p ∈ patterns, p.bytes.length = p.len) (h : acBuild alloc patterns = .ok ac) :
    ∃ t word, ac = acOfTrie t ∧ AhoCorasick.IsMachine t word (acEntries patterns) ∧
      ∀ p ∈ patterns, 0 < p.len := by
  unfold acBuild at h
  split at h
  · cases h
  split at h
  · cases h
  rename_i maxNodes hcount
  split at h
  · cases h
  split at h
  · cases h
  rename_i t hins
  split at h
  · cases h
  cases h
  have hpos := countNodes_len hcount
  obtain ⟨word, hholds⟩ := AhoCorasick.holds_empty.insertAll hins
  rw [nil_append] at hholds
  refine ⟨_, word, rfl, hholds.link ?_, hpos⟩
  intro e he
  obtain ⟨p, hp, rfl⟩ := List.mem_map.mp he
  have h1 := hlen p hp
  have h2 := hpos p hp
  refine ne_nil_of_length_pos ?_
  simp only [AcPattern.key, length_map, length_take]
  omega

/-! ### The scan -/

/-- The emission of an output at the end position `stop`. -/
def emissionOf (stop : ℕ) (out : AcOutput) : Emission :=
  ⟨out.ruleIndex, out.stepIndex, stop - out.patternLen, stop⟩

/-- A pattern ends at `stop` in the folded payload, and `e` reports it. -/
def EndsAt (patterns : List AcPattern) (payload : List UInt8) (stop : ℕ) (e : Emission) : Prop :=
  ∃ p ∈ patterns, p.key <:+ (payload.take stop).map v3Fold ∧ emissionOf stop p.output = e

/-- `e` reports an occurrence of a pattern in the payload. -/
def IsOccurrence (patterns : List AcPattern) (payload : List UInt8) (e : Emission) : Prop :=
  ∃ stop ≤ payload.length, EndsAt patterns payload stop e

variable {κ : Type} {emit : Emit κ} {I : κ → List Emission → Prop}

/-- The emissions in `good` keep the invariant `I` between the context and the emissions so far,
    and only spend from the budget. -/
def EmitKeeps (emit : Emit κ) (good : Emission → Prop) (I : κ → List Emission → Prop) : Prop :=
  ∀ e, good e → ∀ ctx seen work, I ctx seen →
    Meets OnlyBudget (fun r => r.2 ≤ work ∧ I r.1 (seen ++ [e])) (emit ctx e work)

variable {good : Emission → Prop} {stop : ℕ}

theorem emitNode_meets (hemit : EmitKeeps emit good I) {outs : List AcOutput} :
    ∀ {ctx : κ} {seen : List Emission} {work : ℕ}, (∀ o ∈ outs, o.patternLen ≤ stop) →
      (∀ o ∈ outs, good (emissionOf stop o)) → I ctx seen →
      Meets OnlyBudget
        (fun r => r.2 ≤ work ∧ I r.1 (seen ++ outs.map (emissionOf stop)))
        (emitNode emit stop outs ctx work) := by
  induction outs with
  | nil =>
    intro ctx seen work _ _ hI
    rw [emitNode, meets_ok]
    exact ⟨le_refl _, by simpa using hI⟩
  | cons out outs ih =>
    intro ctx seen work hlen hgood hI
    rw [emitNode, if_neg (not_lt.mpr (hlen out (by simp)))]
    refine Meets.bind (spend_meets work) (fun w hw => ?_)
    refine Meets.bind (hemit (emissionOf stop out) (hgood out (by simp)) ctx seen w hI) ?_
    rintro ⟨ctx', w'⟩ ⟨hw', hI'⟩
    refine (ih (fun o ho => hlen o (by simp [ho])) (fun o ho => hgood o (by simp [ho])) hI').imp
      (fun r hr => ⟨by have := hr.1; simp only at hw'; omega, ?_⟩)
    simpa using hr.2

variable {t : AhoCorasick.Trie UInt8 AcOutput} {word : ℕ → List UInt8}
  {ps : List (List UInt8 × AcOutput)}

/-- The emissions of the nodes on a dictionary chain. -/
def chainEmissions (t : AhoCorasick.Trie UInt8 AcOutput) (stop : ℕ) (chain : List ℕ) :
    List Emission :=
  chain.flatMap fun i => (t.node i).outputs.map (emissionOf stop)

theorem emitChain_meets (h : AhoCorasick.IsMachine t word ps) (hemit : EmitKeeps emit good I) :
    ∀ {fuel : ℕ} {x : List UInt8} {d : Option ℕ} {ctx : κ} {seen : List Emission} {work : ℕ},
      AhoCorasick.IsLongestOut t word x d → (∀ j ∈ d, (word j).length < fuel) →
      (∀ i ∈ AhoCorasick.dictChain t fuel d, ∀ o ∈ (t.node i).outputs,
        o.patternLen ≤ stop ∧ good (emissionOf stop o)) → I ctx seen →
      Meets OnlyBudget
        (fun r => r.2 ≤ work ∧ I r.1 (seen ++ chainEmissions t stop (AhoCorasick.dictChain t fuel d)))
        (emitChain (acOfTrie t) emit stop fuel d ctx work) := by
  intro fuel
  induction fuel with
  | zero =>
    intro x d ctx seen work hd hfuel _ hI
    cases d with
    | none => exact ⟨le_refl _, by simpa [AhoCorasick.dictChain, chainEmissions] using hI⟩
    | some j => exact absurd (hfuel j rfl) (by omega)
  | succ fuel ih =>
    intro x d ctx seen work hd hfuel hgood hI
    cases d with
    | none => exact ⟨le_refl _, by simpa [AhoCorasick.dictChain, chainEmissions] using hI⟩
    | some j =>
      obtain ⟨hj, hjs, hjo, _⟩ := hd
      obtain ⟨hj0, -, hshort⟩ := h.dict_shorter hj hjo
      rw [AhoCorasick.dictChain] at hgood ⊢
      rw [emitChain, acOfTrie_node hj, meets_ok_bind]
      refine Meets.bind (emitNode_meets hemit (fun o ho => (hgood j (by simp) o ho).1)
        (fun o ho => (hgood j (by simp) o ho).2) hI) ?_
      rintro ⟨ctx', w'⟩ ⟨hw', hI'⟩
      have hlink := (h.linked j hj hj0).dict
      have hlen : ∀ k ∈ (t.node j).dictSuffix, (word k).length < fuel :=
        fun k hk => Nat.lt_of_lt_of_le (hshort k hk) (Nat.le_of_lt_succ (hfuel j rfl))
      refine (ih hlink hlen (fun i hi o ho => hgood i (by simp [hi]) o ho) hI').imp
        (fun r hr => ⟨by have := hr.1; simp only at hw'; omega, ?_⟩)
      simpa [chainEmissions, acNodeOf] using hr.2

variable {ctx : κ}

/-- The emissions at one position: the node the scan is in, then its dictionary chain. -/
theorem emitState_meets (h : AhoCorasick.IsMachine t word ps)
    (hemit : EmitKeeps emit good I) {x : List UInt8} {s : ℕ}
    (hs : AhoCorasick.IsLongest t word x s)
    (hgood : ∀ o ∈ AhoCorasick.chainOutputs t s, o.patternLen ≤ stop ∧ good (emissionOf stop o))
    {seen : List Emission} (hI : I ctx seen) :
    Meets OnlyBudget
      (fun r => r.2 ≤ work ∧ I r.1 (seen ++ (AhoCorasick.chainOutputs t s).map (emissionOf stop)))
      (emitChain (acOfTrie t) emit stop (t.size + 1) (some s) ctx work) := by
  have hdict := h.isLongestOut_dict hs.lt
  have hfuel := h.dict_lt_size hs.lt
  rw [AhoCorasick.chainOutputs, AhoCorasick.dictChain, flatMap_cons] at hgood ⊢
  rw [emitChain, acOfTrie_node hs.lt, meets_ok_bind]
  have hrest : ∀ i ∈ AhoCorasick.dictChain t t.size (t.node s).dictSuffix,
      ∀ o ∈ (t.node i).outputs, o.patternLen ≤ stop ∧ good (emissionOf stop o) :=
    fun i hi o ho => hgood o (mem_append_right _ (mem_flatMap.mpr ⟨i, hi, ho⟩))
  refine Meets.bind (emitNode_meets hemit (fun o ho => (hgood o (mem_append_left _ ho)).1)
    (fun o ho => (hgood o (mem_append_left _ ho)).2) hI) ?_
  rintro ⟨ctx', w'⟩ ⟨hw', hI'⟩
  refine (emitChain_meets h hemit hdict hfuel hrest hI').imp
    (fun r hr => ⟨by have := hr.1; simp only at hw'; omega, ?_⟩)
  have hr2 := hr.2
  simp only [chainEmissions] at hr2
  rw [map_append, map_flatMap, ← append_assoc]
  exact hr2

variable {patterns : List AcPattern} {payload : List UInt8}

theorem scanFrom_meets (h : AhoCorasick.IsMachine t word (acEntries patterns))
    (hlen : ∀ p ∈ patterns, p.bytes.length = p.len)
    (hemit : EmitKeeps emit (IsOccurrence patterns payload) I) {rest : List UInt8} :
    ∀ {pre : List UInt8} {s : ℕ} {ctx : κ} {seen : List Emission} {work : ℕ},
      pre ++ rest = payload → AhoCorasick.IsLongest t word (pre.map v3Fold) s → I ctx seen →
      (∀ e, e ∈ seen ↔ ∃ stop ≤ pre.length, 0 < stop ∧ EndsAt patterns payload stop e) →
      Meets OnlyBudget
        (fun r => r.2 + rest.length ≤ work ∧ ∃ all, I r.1 all ∧
          ∀ e, e ∈ all ↔ ∃ stop ≤ payload.length, 0 < stop ∧ EndsAt patterns payload stop e)
        (acScanFrom (acOfTrie t) emit rest pre.length s ctx work) := by
  induction rest with
  | nil =>
    intro pre s ctx seen work hpre hs hI hseen
    rw [append_nil] at hpre
    subst hpre
    exact ⟨le_refl _, seen, hI, hseen⟩
  | cons b rest ih =>
    intro pre s ctx seen work hpre hs hI hseen
    rw [acScanFrom]
    refine Meets.bind (spend_meets work) (fun w hw => ?_)
    have hcand := AhoCorasick.Candidate.of_isLongest (b := v3Fold b) h.trie hs
    refine Meets.bind (acWalk_meets h hcand (Nat.lt_succ_self w)) ?_
    rintro ⟨s', w'⟩ ⟨hw', hs'⟩
    simp only at hw' hs'
    have hnext : pre.map v3Fold ++ [v3Fold b] = (pre ++ [b]).map v3Fold := by simp
    have htake : (payload.take (pre.length + 1)).map v3Fold = (pre ++ [b]).map v3Fold := by
      rw [← hpre, append_cons, take_left' (by simp)]
    rw [hnext] at hs'
    -- the outputs at `s'` are those of the patterns that end behind `b`
    have hout : ∀ o, o ∈ AhoCorasick.chainOutputs t s' ↔
        ∃ p ∈ patterns, p.key <:+ (payload.take (pre.length + 1)).map v3Fold ∧ p.output = o := by
      intro o
      rw [h.mem_chainOutputs hs' o, htake]
      simp only [acEntries, List.mem_map]
      constructor
      · rintro ⟨_, ⟨p, hp, rfl⟩, hsuf, ho⟩
        exact ⟨p, hp, hsuf, ho⟩
      · rintro ⟨p, hp, hsuf, ho⟩
        exact ⟨_, ⟨p, hp, rfl⟩, hsuf, ho⟩
    have hstop : pre.length + 1 ≤ payload.length := by
      rw [← hpre, length_append, length_cons]
      omega
    have hgood : ∀ o ∈ AhoCorasick.chainOutputs t s', o.patternLen ≤ pre.length + 1 ∧
        IsOccurrence patterns payload (emissionOf (pre.length + 1) o) := by
      intro o ho
      obtain ⟨p, hp, hsuf, rfl⟩ := (hout o).mp ho
      refine ⟨?_, pre.length + 1, hstop, p, hp, hsuf, rfl⟩
      have h1 := hsuf.length_le
      have h2 := hlen p hp
      simp only [AcPattern.key, length_map, length_take] at h1
      simp only [AcPattern.output]
      omega
    have hsize : (acOfTrie t).nodes.size = t.size := by simp [acOfTrie]
    rw [hsize]
    refine Meets.bind (emitState_meets h hemit hs' hgood hI) ?_
    rintro ⟨ctx', w''⟩ ⟨hw'', hI'⟩
    have hlen' : pre.length + 1 = (pre ++ [b]).length := by simp
    rw [hlen']
    refine (ih (by rw [← hpre]; simp) hs' hI' ?_).imp (fun r hr => ⟨?_, hr.2⟩)
    · intro e
      rw [mem_append, hseen e, List.mem_map]
      constructor
      · rintro (⟨stop, hstop', hpos, he⟩ | ⟨o, ho, rfl⟩)
        · exact ⟨stop, by simp; omega, hpos, he⟩
        · obtain ⟨p, hp, hsuf, rfl⟩ := (hout o).mp ho
          exact ⟨pre.length + 1, by simp, by omega, p, hp, hsuf, rfl⟩
      · rintro ⟨stop, hstop', hpos, p, hp, hsuf, rfl⟩
        rcases Nat.lt_or_ge pre.length stop with hlt | hge
        · have : stop = pre.length + 1 := by
            rw [length_append, length_singleton] at hstop'
            omega
          subst this
          exact .inr ⟨p.output, (hout _).mpr ⟨p, hp, hsuf, rfl⟩, rfl⟩
        · exact .inl ⟨stop, hge, hpos, p, hp, hsuf, rfl⟩
    · have := hr.1
      simp only at hw''
      rw [length_cons]
      omega

/-- **The scan.**  A scan of a built automaton stops only for want of budget, costs at least one
    unit for every byte, and calls `emit` for exactly the occurrences of the patterns: an invariant
    that `emit` keeps holds at the end of the list of all occurrences. -/
theorem acScan_meets (work : ℕ) (hbuild : acBuild alloc patterns = .ok ac)
    (hlen : ∀ p ∈ patterns, p.bytes.length = p.len) (hne : payload ≠ [])
    (hemit : EmitKeeps emit (IsOccurrence patterns payload) I)
    (hI : I ctx []) :
    Meets OnlyBudget
      (fun r => r.2 + payload.length ≤ work ∧ ∃ all, I r.1 all ∧
        ∀ e, e ∈ all ↔ IsOccurrence patterns payload e)
      (acScan ac payload emit ctx work) := by
  obtain ⟨t, word, rfl, hm, hpos⟩ := acBuild_machine hlen hbuild
  have hroot : AhoCorasick.IsLongest t word (([] : List UInt8).map v3Fold) 0 := by
    refine ⟨hm.trie.pos, by rw [hm.trie.root]; exact nil_suffix, fun i _ hs => ?_⟩
    rw [suffix_nil.mp hs]
    exact Nat.zero_le _
  have hnil : ∀ e, e ∈ ([] : List Emission) ↔
      ∃ stop ≤ ([] : List UInt8).length, 0 < stop ∧ EndsAt patterns payload stop e := by
    intro e
    simp only [not_mem_nil, length_nil, Nat.le_zero_eq, exists_eq_left, lt_irrefl, false_and]
  have hempty : payload.isEmpty = false := by
    cases payload with
    | nil => exact absurd rfl hne
    | cons _ _ => rfl
  rw [acScan, hempty]
  refine (scanFrom_meets hm hlen hemit (nil_append payload) hroot hI hnil).imp
    (fun r hr => ⟨hr.1, ?_⟩)
  obtain ⟨all, hall, hmem⟩ := hr.2
  refine ⟨all, hall, fun e => ?_⟩
  rw [hmem e]
  constructor
  · rintro ⟨stop, hstop, _, he⟩
    exact ⟨stop, hstop, he⟩
  · rintro ⟨stop, hstop, p, hp, hsuf, he⟩
    refine ⟨stop, hstop, ?_, p, hp, hsuf, he⟩
    -- a pattern is not empty, so none ends at position zero
    have h1 := hsuf.length_le
    have h2 := hlen p hp
    have h3 := hpos p hp
    simp only [AcPattern.key, length_map, length_take] at h1
    omega

end DreamingOS.V3
