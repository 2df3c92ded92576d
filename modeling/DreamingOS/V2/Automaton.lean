import DreamingOS.V2.Rules
import DreamingOS.Lib.AhoCorasick.Occurrences

namespace DreamingOS.V2

open V3 (sortEdges)
open Outcome List

/-!
# v2 rules — the pattern automaton

`jmx_v2_ac.c`: the build of the automaton from the literal rules of a set, and the scan of a
payload.

* `acBuild` — insertion and linking by the `AhoCorasick` library, then the flattening with sorted
  edges;
* `findChild` / `acWalk` / `emitNode` / `emitChain` / `scanWith` — the scan, with what it does at
  an output as a parameter;
* `Packet`, `emitOutput`, `acScan` — the filters of a rule, and the scan for the best one;
* `emitState_eq` — what is emitted in a state.
-/

/-! ### Building -/

def U32_MAX : ℕ := 4294967295

/-- Byte `j` of a pattern; the array is zeroed behind what is copied into it. -/
def AcPattern.byte (p : AcPattern) (j : ℕ) : UInt8 := p.matchStr.getD j 0

/-- The bytes a pattern is inserted with. -/
def AcPattern.key (p : AcPattern) : List UInt8 := (List.range p.matchLen).map p.byte

/-- `struct ac_node`, with its edges and its outputs. -/
structure AcNode where
  fail : ℕ
  dictSuffix : Option ℕ
  edges : List (UInt8 × ℕ)
  outputs : List ℕ

/-- `struct jmx_v2_ac`. -/
structure Ac where
  nodes : Array AcNode
  pats : List AcPattern

/-- Which allocations of `jmx_v2_ac_build` succeed. -/
structure AcAlloc where
  tables : Bool := true
  queue : Bool := true
  automaton : Bool := true

/-- The first loop of `jmx_v2_ac_build`: check the lengths and bound the number of nodes. -/
def countNodes : ℕ → List AcPattern → Except Errno ℕ
  | maxNodes, [] => .ok maxNodes
  | maxNodes, p :: ps =>
    if p.matchLen = 0 then .error .EINVAL
    else if U32_MAX < maxNodes + p.matchLen then .error .EOVERFLOW
    else countNodes (maxNodes + p.matchLen) ps

/-- The final loop of `jmx_v2_ac_build`: one flat node of every build node. -/
def acNodeOf (n : AhoCorasick.Node UInt8 ℕ) : AcNode where
  fail := n.fail
  dictSuffix := n.dictSuffix
  edges := sortEdges n.edges
  outputs := n.outputs

def acOfTrie (t : AhoCorasick.Trie UInt8 ℕ) (pats : List AcPattern) : Ac where
  nodes := t.map acNodeOf
  pats := pats

/-- What is inserted: the bytes of each pattern with its index. -/
def acEntries (pats : List AcPattern) : List (List UInt8 × ℕ) :=
  pats.zipIdx.map fun p => (p.1.key, p.2)

/-- `jmx_v2_ac_build`. -/
def acBuild (alloc : AcAlloc) (pats : List AcPattern) : Except Errno Ac :=
  if pats.isEmpty then .error .EINVAL
  else
    match countNodes 1 pats with
    | .error rc => .error rc
    | .ok maxNodes =>
      if !alloc.tables then .error .ENOMEM
      else
        match AhoCorasick.insertAll maxNodes V3.U16_MAX AhoCorasick.Trie.empty (acEntries pats) with
        | none => .error .EOVERFLOW
        | some t =>
          if !alloc.queue || !alloc.automaton then .error .ENOMEM
          else .ok (acOfTrie (AhoCorasick.link t) pats)

/-! ### Scanning -/

/-- What would stop a scan: an index outside of a table, or a loop that goes on and on. -/
inductive Fault where
  | outOfBounds
  | outOfFuel

def Ac.node (ac : Ac) (i : ℕ) : Except Fault AcNode :=
  match ac.nodes[i]? with
  | some n => .ok n
  | none => .error .outOfBounds

/-- The binary search of `find_child` among the edges with index in `[lo, hi)`. -/
def findChildLoop (edges : List (UInt8 × ℕ)) (byte : UInt8) : ℕ → ℕ → ℕ → Except Fault (Option ℕ)
  | 0, _, _ => .error .outOfFuel
  | fuel + 1, lo, hi =>
    if hi ≤ lo then .ok none
    else
      let mid := (lo + hi - 1) / 2
      match edges[mid]? with
      | none => .error .outOfBounds
      | some edge =>
        if edge.1 = byte then .ok (some edge.2)
        else if edge.1 < byte then findChildLoop edges byte fuel (mid + 1) hi
        else findChildLoop edges byte fuel lo mid

/-- `find_child`. -/
def findChild (ac : Ac) (node : ℕ) (byte : UInt8) : Except Fault (Option ℕ) := do
  let n ← ac.node node
  findChildLoop n.edges byte (n.edges.length + 1) 0 n.edges.length

/-- The transition of `jmx_v2_ac_scan`: follow failure links until some node has an edge for
    `byte`; at the root, stay there. -/
def acWalk (ac : Ac) (byte : UInt8) : ℕ → ℕ → Except Fault ℕ
  | 0, _ => .error .outOfFuel
  | fuel + 1, state => do
    let next ← findChild ac state byte
    match next with
    | some next => .ok next
    | none =>
      if state = 0 then .ok 0
      else do
        let n ← ac.node state
        acWalk ac byte fuel n.fail

section Visit

variable {κ : Type}

/-- What a scan does at an output: the index of the pattern, the pattern, and the position of the
    last byte of the occurrence. -/
abbrev Visit (κ : Type) := κ → ℕ → AcPattern → ℕ → κ

/-- `emit_node`, over the outputs of one node. -/
def emitNode (ac : Ac) (visit : Visit κ) (pos : ℕ) : List ℕ → κ → Except Fault κ
  | [], best => .ok best
  | i :: outs, best =>
    match ac.pats[i]? with
    | some p => emitNode ac visit pos outs (visit best i p pos)
    | none => .error .outOfBounds

/-- The loop along dictionary links. -/
def emitChain (ac : Ac) (visit : Visit κ) (pos : ℕ) : ℕ → Option ℕ → κ → Except Fault κ
  | _, none, best => .ok best
  | 0, some _, _ => .error .outOfFuel
  | fuel + 1, some node, best => do
    let n ← ac.node node
    let best ← emitNode ac visit pos n.outputs best
    emitChain ac visit pos fuel n.dictSuffix best

/-- The loop of `jmx_v2_ac_scan` over the payload from position `pos` on. -/
def scanFrom (ac : Ac) (visit : Visit κ) : List UInt8 → ℕ → ℕ → κ → Except Fault κ
  | [], _, _, best => .ok best
  | b :: rest, pos, state, best => do
    let state ← acWalk ac b (ac.nodes.size + 1) state
    let best ← emitChain ac visit pos (ac.nodes.size + 1) (some state) best
    scanFrom ac visit rest (pos + 1) state best

def scanWith (ac : Ac) (visit : Visit κ) (payload : List UInt8) (best : κ) : Except Fault κ :=
  scanFrom ac visit payload 0 0 best

end Visit

/-! ### Filters -/

/-- What a scan is told about a packet besides its payload. -/
structure Packet where
  (proto dir dport pktSeq : ℕ)

/-- The best rule so far. -/
structure Best where
  appid : ℕ := 0
  priority : ℕ := U32_MAX
  deriving DecidableEq

/-- The loop over `ports_min` and `ports_max`; what no rule filled in is zero. -/
def AcPattern.portMatched (p : AcPattern) (dport : ℕ) : Bool :=
  (List.range p.portCount).any fun m =>
    let r := p.ports.getD m ⟨0, 0⟩
    decide (r.minPort ≤ dport) && decide (dport ≤ r.maxPort)

/-- The loop over `lens_min` and `lens_max`. -/
def AcPattern.lenMatched (p : AcPattern) (len : ℕ) : Bool :=
  (List.range p.lenCount).any fun m =>
    let r := p.lens.getD m ⟨0, 0⟩
    decide (r.minLen ≤ len) && decide (len ≤ r.maxLen)

/-- The body of the loop of `emit_node`, for a payload of `len` bytes. -/
def emitOutput (pkt : Packet) (len : ℕ) : Visit Best := fun best _ p pos =>
  if pos + 1 < p.matchLen then best
  else
    let start := pos + 1 - p.matchLen
    if p.proto ≠ 0 ∧ p.proto &&& pkt.proto = 0 then best
    else if p.dir ≠ 0 ∧ p.dir ≠ pkt.dir then best
    -- the literal of an exact rule is the whole payload
    else if p.method = 0 ∧ p.matchLen ≠ len then best
    else if 0 ≤ p.offset ∧ start ≠ p.offset.toNat then best
    else if p.pktSeq ≠ 0 ∧ (pkt.pktSeq = 0 ∨ 32 < pkt.pktSeq ∨
        p.pktSeq &&& (1 <<< (pkt.pktSeq - 1)) = 0) then best
    else if 0 < p.portCount ∧ p.portMatched pkt.dport = false then best
    else if 0 < p.lenCount ∧ p.lenMatched len = false then best
    else if p.priority < best.priority then ⟨p.appid, p.priority⟩
    else best

/-- `jmx_v2_ac_scan` of an automaton. -/
def acScan (ac : Ac) (payload : List UInt8) (pkt : Packet) : Except Fault Best :=
  scanWith ac (emitOutput pkt payload.length) payload {}

/-! ### Lookups of a finished automaton -/

variable {fuel : ℕ}

/-- The binary search finds the edge with the label, if there is one; `lo` and `hi` enclose it. -/
theorem findChildLoop_ok {edges : List (UInt8 × ℕ)} {byte : UInt8}
    (hs : edges.Pairwise (fun a b => a.1.toNat < b.1.toNat)) {lo hi : ℕ} (hlohi : lo ≤ hi)
    (hhi : hi ≤ edges.length) (hfuel : hi < lo + fuel)
    (henc : Bisect.Encloses V3.edgeKey edges byte.toNat lo hi) :
    ∃ r, findChildLoop edges byte fuel lo hi = .ok r ∧ ∀ j, r = some j ↔ (byte, j) ∈ edges := by
  induction fuel generalizing lo hi with
  | zero => omega
  | succ fuel ih =>
    rw [findChildLoop]
    by_cases hdone : hi ≤ lo
    · refine ⟨none, if_pos hdone, fun j => ?_⟩
      simp only [reduceCtorEq, false_iff]
      exact fun hmem => henc.empty hdone _ hmem rfl
    have hmid : (lo + hi - 1) / 2 < edges.length := by omega
    simp only [if_neg hdone, getElem?_eq_getElem hmid]
    by_cases heq : edges[(lo + hi - 1) / 2].1 = byte
    · exact ⟨_, if_pos heq, V3.found_edge hs hmid heq⟩
    rw [if_neg heq]
    by_cases hlt : edges[(lo + hi - 1) / 2].1 < byte
    · have hupper := henc.upper hs hmid (UInt8.lt_iff_toNat_lt.mp hlt)
      rw [if_pos hlt]
      exact ih (by omega) hhi (by omega) hupper
    · have hlower := henc.lower hs hmid (V3.label_lt heq hlt)
      rw [if_neg hlt]
      exact ih (by omega) (by omega) (by omega) hlower

variable {t : AhoCorasick.Trie UInt8 ℕ} {word : ℕ → List UInt8} {pats : List AcPattern} {i : ℕ}

theorem acOfTrie_node (hi : i < t.size) : (acOfTrie t pats).node i = .ok (acNodeOf (t.node i)) := by
  have hnode : (acOfTrie t pats).nodes[i]? = some (acNodeOf (t.node i)) := by
    simp [acOfTrie, AhoCorasick.Trie.node, Array.getD, hi]
  rw [Ac.node, hnode]

/-- `find_child` on the flat nodes finds the child of the trie. -/
theorem findChild_eq (ht : AhoCorasick.IsTrie t word) (hi : i < t.size) (b : UInt8) :
    findChild (acOfTrie t pats) i b = .ok (AhoCorasick.findChild t i b) := by
  have hs := V3.sortEdges_pairwise (ht.edges_nodup i hi) (ht.edge_unique hi)
  obtain ⟨r, hr, hmem⟩ : ∃ r, findChildLoop (sortEdges (t.node i).edges) b
      ((sortEdges (t.node i).edges).length + 1) 0 (sortEdges (t.node i).edges).length = .ok r ∧
        ∀ j, r = some j ↔ (b, j) ∈ sortEdges (t.node i).edges :=
    findChildLoop_ok hs (Nat.zero_le _) (le_refl _) (by omega) Bisect.Encloses.full
  have hfound : r = AhoCorasick.findChild t i b := by
    refine Option.ext fun j => ?_
    rw [hmem j, ← ht.mem_edges_iff hi b j]
    exact V3.mem_sortEdges
  unfold findChild
  rw [acOfTrie_node hi, ok_bind, ← hfound]
  exact hr

variable {ps : List (List UInt8 × ℕ)} {x : List UInt8}

/-- **One transition.**  The walk from the longest suffix of the text read so far finds the longest
    suffix of the text with one more byte; each failure step leads to a shorter word. -/
theorem acWalk_ok (h : AhoCorasick.IsMachine t word ps) {b : UInt8}
    {state : ℕ} (hcand : AhoCorasick.Candidate t word x b state)
    (hfuel : (word state).length < fuel) :
    ∃ next, acWalk (acOfTrie t pats) b fuel state = .ok next ∧
      AhoCorasick.IsLongest t word (x ++ [b]) next := by
  induction fuel generalizing state with
  | zero => omega
  | succ fuel ih =>
    rw [acWalk, findChild_eq h.trie hcand.lt, ok_bind]
    cases hc : AhoCorasick.findChild t state b with
    | some next => exact ⟨next, rfl, hcand.found h.trie hc⟩
    | none =>
      dsimp only
      by_cases hs : state = 0
      · subst hs
        have hroot := hcand.root h.trie
        rw [hc] at hroot
        exact ⟨0, if_pos rfl, hroot⟩
      · have hfailok := (h.linked state hcand.lt hs).fail
        have hne : word state ≠ [] := fun hnil => hs (h.trie.eq_zero_of_word_nil hcand.lt hnil)
        have hshort := AhoCorasick.length_lt_of_suffix_tail hfailok.suffix hne
        rw [if_neg hs, acOfTrie_node hcand.lt, ok_bind]
        exact ih (hcand.fail h.trie hfailok hc) (by
          show (word (t.node state).fail).length < fuel
          omega)

/-! ### Outputs -/

variable {κ : Type}

/-- What a scan does at the output `i`. -/
def visitAt (pats : List AcPattern) (visit : Visit κ) (pos : ℕ) (best : κ) (i : ℕ) : κ :=
  match pats[i]? with
  | some p => visit best i p pos
  | none => best

/-- The outputs of every node are indices of patterns. -/
def InRange (t : AhoCorasick.Trie UInt8 ℕ) (pats : List AcPattern) : Prop :=
  ∀ j < t.size, ∀ i ∈ (t.node j).outputs, i < pats.length

theorem emitNode_eq (visit : Visit κ) (pos : ℕ) {outs : List ℕ}
    (hrange : ∀ i ∈ outs, i < pats.length) (best : κ) :
    emitNode (acOfTrie t pats) visit pos outs best =
      .ok (outs.foldl (visitAt pats visit pos) best) := by
  induction outs generalizing best with
  | nil => rfl
  | cons i outs ih =>
    obtain ⟨p, hp⟩ : ∃ p, pats[i]? = some p := ⟨_, getElem?_eq_getElem (hrange i mem_cons_self)⟩
    have hvisit : visitAt pats visit pos best i = visit best i p pos := by
      unfold visitAt
      rw [hp]
    have hpats : (acOfTrie t pats).pats[i]? = some p := hp
    rw [emitNode, hpats, foldl_cons, hvisit]
    exact ih (fun j hj => hrange j (mem_cons_of_mem _ hj)) _

theorem emitChain_eq (h : AhoCorasick.IsMachine t word ps) (hrange : InRange t pats)
    (visit : Visit κ) (pos : ℕ) {d : Option ℕ}
    (hd : AhoCorasick.IsLongestOut t word x d) (hfuel : ∀ j ∈ d, (word j).length < fuel)
    (best : κ) :
    emitChain (acOfTrie t pats) visit pos fuel d best =
      .ok (((AhoCorasick.dictChain t fuel d).flatMap fun i => (t.node i).outputs).foldl
        (visitAt pats visit pos) best) := by
  induction fuel generalizing x d best with
  | zero =>
    cases d with
    | none => rfl
    | some j => exact absurd (hfuel j rfl) (Nat.not_lt_zero _)
  | succ fuel ih =>
    cases d with
    | none => rfl
    | some j =>
      obtain ⟨hj, -, hjo, -⟩ := hd
      obtain ⟨hj0, -, hshort⟩ := h.dict_shorter hj hjo
      have hlen : ∀ k ∈ (t.node j).dictSuffix, (word k).length < fuel :=
        fun k hk => Nat.lt_of_lt_of_le (hshort k hk) (Nat.le_of_lt_succ (hfuel j rfl))
      rw [AhoCorasick.dictChain, flatMap_cons, foldl_append,
        ← ih (h.linked j hj hj0).dict hlen, emitChain, acOfTrie_node hj, ok_bind]
      show (emitNode (acOfTrie t pats) visit pos (t.node j).outputs best >>= _) = _
      rw [emitNode_eq visit pos (hrange j hj), ok_bind]
      rfl

/-- The outputs at one position: those of the node the scan is in, then of its dictionary chain. -/
theorem emitState_eq (h : AhoCorasick.IsMachine t word ps) (hrange : InRange t pats)
    (visit : Visit κ) (pos : ℕ) {s : ℕ} (hs : s < t.size) (best : κ) :
    emitChain (acOfTrie t pats) visit pos (t.size + 1) (some s) best =
      .ok ((AhoCorasick.chainOutputs t s).foldl (visitAt pats visit pos) best) := by
  rw [AhoCorasick.chainOutputs, AhoCorasick.dictChain, flatMap_cons, foldl_append,
    ← emitChain_eq h hrange visit pos (h.isLongestOut_dict hs) (h.dict_lt_size hs), emitChain,
    acOfTrie_node hs, ok_bind]
  show (emitNode (acOfTrie t pats) visit pos (t.node s).outputs best >>= _) = _
  rw [emitNode_eq visit pos (hrange s hs), ok_bind]
  rfl

end DreamingOS.V2
