import DreamingOS.V3.Automaton
import DreamingOS.Lib.AhoCorasick.Occurrences
import Mathlib.Data.Finset.Lattice.Fold

namespace DreamingOS.V3

open Outcome List
open List (map_map mem_map)

/-!
# v3 chain rules — every occurrence is reported once

The calls that `jmx_v3_ac_scan` makes of its callback, one by one and in their order.

* `traced`, `Continues` — a callback whose calls are written down, and one that never stops a scan;
* `occurrences` — each pattern at each place where it occurs;
* `scanFrom_calls` — the calls of a scan that has enough budget;
* `acScan_complete` — **a scan with enough budget reports every occurrence of every pattern exactly
  once**, the ends in their order, and nothing else.
-/

/-! ### Callbacks and occurrences -/

section Callback

variable {κ : Type}

/-- The callback, with the list of its calls. -/
def traced (emit : Emit κ) : Emit (κ × List Emission) := fun ctx e work => do
  let (next, work) ← emit ctx.1 e work
  pure ((next, ctx.2 ++ [e]), work)

/-- A callback that stops no scan: it fails only for want of budget, and `cost` units are enough. -/
structure Continues (emit : Emit κ) (cost : ℕ) : Prop where
  spends : ∀ ctx e work, Meets OnlyBudget (fun r => r.2 ≤ work) (emit ctx e work)
  enough : ∀ ctx e work, cost ≤ work →
    Meets (fun _ => False) (fun r => work ≤ r.2 + cost) (emit ctx e work)

end Callback

/-- The patterns that end at a position, in the order of the list. -/
def occurrencesAt (patterns : List AcPattern) (payload : List UInt8) (stop : ℕ) : List Emission :=
  (patterns.filter fun p => p.key <:+ (payload.take stop).map v3Fold).map fun p =>
    emissionOf stop p.output

/-- The occurrences that end behind one of the first `n` bytes. -/
def occurrencesTo (patterns : List AcPattern) (payload : List UInt8) (n : ℕ) : List Emission :=
  (List.range n).flatMap fun i => occurrencesAt patterns payload (i + 1)

/-- Each pattern at each place where it occurs in the payload. -/
def occurrences (patterns : List AcPattern) (payload : List UInt8) : List Emission :=
  occurrencesTo patterns payload payload.length

theorem occurrencesTo_succ (patterns : List AcPattern) (payload : List UInt8) (n : ℕ) :
    occurrencesTo patterns payload (n + 1) =
      occurrencesTo patterns payload n ++ occurrencesAt patterns payload (n + 1) := by
  unfold occurrencesTo
  rw [range_succ, flatMap_append, flatMap_singleton]

/-! ### What a scan costs -/

variable {work : ℕ}

theorem spend_costs (h : 1 ≤ work) :
    Meets (fun _ => False) (fun w => w + 1 = work) (spend work) := by
  unfold spend
  rw [if_neg (by omega), meets_ok]
  omega

variable {fuel : ℕ}

/-- The search halves the edges, and spends no more than their number. -/
theorem findChildLoop_costs {edges : List (UInt8 × ℕ)} {byte : UInt8} {lo hi work : ℕ}
    (hlohi : lo ≤ hi) (hhi : hi ≤ edges.length) (hfuel : hi < lo + fuel) (hwork : hi - lo ≤ work) :
    Meets (fun _ => False) (fun r => work ≤ r.2 + (hi - lo)) (findChildLoop edges byte fuel lo hi work) := by
  induction fuel generalizing lo hi work with
  | zero => omega
  | succ fuel ih =>
    rw [findChildLoop]
    refine Meets.ite (fun _ => ?_) (fun hgo => ?_)
    · rw [meets_ok]
      omega
    · refine Meets.bind (spend_costs (by omega)) (fun w hw => ?_)
      have hmid : (lo + hi - 1) / 2 < edges.length := by omega
      rw [getElem?_eq_getElem hmid]
      dsimp only
      refine Meets.ite (fun _ => ?_) (fun _ => Meets.ite (fun _ => ?_) (fun _ => ?_))
      · rw [meets_ok]
        omega
      · refine (ih (by omega) hhi (by omega) (by omega)).imp fun r hr => ?_
        omega
      · refine (ih (by omega) (by omega) (by omega) (by omega)).imp fun r hr => ?_
        omega
variable {n : ℕ}


section Machine

variable {t : AhoCorasick.Trie UInt8 AcOutput} {word : ℕ → List UInt8}
  {ps : List (List UInt8 × AcOutput)} {branching : ℕ}

theorem findChild_costs {i : ℕ} (hi : i < t.size) (hedges : (t.node i).edges.length ≤ branching)
    (b : UInt8) (hwork : branching ≤ work) :
    Meets (fun _ => False) (fun r => work ≤ r.2 + branching) (findChild (acOfTrie t) i b work) := by
  unfold findChild
  rw [acOfTrie_node hi, meets_ok_bind]
  have hlen : (acNodeOf (t.node i)).edges.length = (t.node i).edges.length :=
    length_insertionSort _ _
  refine (findChildLoop_costs (Nat.zero_le _) (le_refl _) (by omega) (by omega)).imp fun r hr => ?_
  omega

variable {x : List UInt8}

/-- Every failure step leads to a shorter word. -/
theorem acWalk_costs (h : AhoCorasick.IsMachine t word ps)
    (hedges : ∀ i < t.size, (t.node i).edges.length ≤ branching) {b : UInt8}
    {state work : ℕ} (hcand : AhoCorasick.Candidate t word x b state) (hfuel : work < fuel)
    (hwork : (word state).length * (branching + 1) ≤ work) :
    Meets (fun _ => False) (fun r => work ≤ r.2 + (word state).length * (branching + 1))
      (acWalk (acOfTrie t) b fuel state work) := by
  induction fuel generalizing state work with
  | zero => omega
  | succ fuel ih =>
    rw [acWalk]
    refine Meets.ite (fun hs => ?_) (fun hs => ?_)
    · subst hs
      rw [acOfTrie_rootNext h.trie b]
      exact Nat.le_add_right _ _
    · have hne : word state ≠ [] := fun hnil => hs (h.trie.eq_zero_of_word_nil hcand.lt hnil)
      have hpos : 0 < (word state).length := length_pos_iff.mpr hne
      have hone : branching + 1 ≤ (word state).length * (branching + 1) :=
        Nat.le_mul_of_pos_left _ hpos
      refine Meets.bind (((findChild_costs hcand.lt (hedges state hcand.lt) b (by omega)).and
        (findChild_meets h.trie hcand.lt b work)).mono (fun e he => he.1) fun r hr => hr) ?_
      rintro ⟨found, w⟩ ⟨hcost, hle, hfound⟩
      simp only at hcost hle hfound
      subst hfound
      cases hc : AhoCorasick.findChild t state b with
      | some c =>
        show work ≤ w + _
        omega
      | none =>
        refine Meets.bind (spend_costs (by omega)) (fun w' hw' => ?_)
        rw [acOfTrie_node hcand.lt, meets_ok_bind]
        have hfailok := (h.linked state hcand.lt hs).fail
        have hfail := hcand.fail h.trie hfailok hc
        have hshort := AhoCorasick.length_lt_of_suffix_tail hfailok.suffix hne
        have hstep : (word (t.node state).fail).length * (branching + 1) + (branching + 1) ≤
            (word state).length * (branching + 1) := by
          rw [← Nat.succ_mul]
          exact Nat.mul_le_mul_right _ hshort
        refine (ih hfail (by omega) (by
          show (word (t.node state).fail).length * (branching + 1) ≤ w'
          omega)).imp fun r hr => ?_
        have hr' : w' ≤ r.2 + (word (t.node state).fail).length * (branching + 1) := hr
        omega

variable {κ : Type} {emit : Emit κ} {cost width : ℕ} {stop : ℕ} {ctx : κ}

theorem emitNode_costs (hemit : Continues emit cost) {outs : List AcOutput}
    (hwork : outs.length * (1 + cost) ≤ work) :
    Meets (fun _ => False) (fun r => work ≤ r.2 + outs.length * (1 + cost))
      (emitNode emit stop outs ctx work) := by
  induction outs generalizing ctx work with
  | nil => exact Nat.le_add_right _ _
  | cons out outs ih =>
    rw [length_cons, Nat.succ_mul] at hwork ⊢
    rw [emitNode]
    refine Meets.ite (fun _ => ?_) (fun _ => ?_)
    · refine (ih (by omega)).imp fun r hr => ?_
      omega
    · refine Meets.bind (spend_costs (by omega)) (fun w hw => ?_)
      refine Meets.bind (hemit.enough ctx _ w (by omega)) ?_
      rintro ⟨ctx', w'⟩ hcost
      simp only at hcost
      refine (ih (by omega)).imp fun r hr => ?_
      omega

theorem emitChain_costs (h : AhoCorasick.IsMachine t word ps) (hemit : Continues emit cost)
    (houts : ∀ i < t.size, (t.node i).outputs.length ≤ width)
    {d : Option ℕ} (hd : AhoCorasick.IsLongestOut t word x d)
    (hfuel : ∀ j ∈ d, (word j).length < fuel) (hwork : fuel * (width * (1 + cost)) ≤ work) :
    Meets (fun _ => False) (fun r => work ≤ r.2 + fuel * (width * (1 + cost)))
      (emitChain (acOfTrie t) emit stop fuel d ctx work) := by
  induction fuel generalizing x d ctx work with
  | zero =>
    cases d with
    | none => exact Nat.le_add_right _ _
    | some j => exact absurd (hfuel j rfl) (Nat.not_lt_zero _)
  | succ fuel ih =>
    cases d with
    | none => exact Nat.le_add_right _ _
    | some j =>
      obtain ⟨hj, -, hjo, -⟩ := hd
      obtain ⟨hj0, -, hshort⟩ := h.dict_shorter hj hjo
      have hlink := (h.linked j hj hj0).dict
      have hlen : ∀ k ∈ (t.node j).dictSuffix, (word k).length < fuel :=
        fun k hk => Nat.lt_of_lt_of_le (hshort k hk) (Nat.le_of_lt_succ (hfuel j rfl))
      have hwidth : (t.node j).outputs.length * (1 + cost) ≤ width * (1 + cost) :=
        Nat.mul_le_mul_right _ (houts j hj)
      rw [Nat.succ_mul] at hwork ⊢
      rw [emitChain, acOfTrie_node hj, meets_ok_bind]
      have hnode : Meets (fun _ => False)
          (fun r => work ≤ r.2 + (t.node j).outputs.length * (1 + cost))
          (emitNode emit stop (t.node j).outputs ctx work) := emitNode_costs hemit (by omega)
      refine Meets.bind hnode ?_
      rintro ⟨ctx', w'⟩ hcost
      simp only at hcost
      refine (ih hlink hlen (by omega)).imp fun r hr => ?_
      omega

variable {s : ℕ}

/-- The node the scan is in has no outputs when it is the root, and is a link of the chain else. -/
theorem emitState_costs (h : AhoCorasick.IsMachine t word ps) (hemit : Continues emit cost)
    (houts : ∀ i < t.size, (t.node i).outputs.length ≤ width)
    (hs : s < t.size) (hwork : (t.size + 1) * (width * (1 + cost)) ≤ work) :
    Meets (fun _ => False) (fun r => work ≤ r.2 + (t.size + 1) * (width * (1 + cost)))
      (emitChain (acOfTrie t) emit stop (t.size + 1) (some s) ctx work) := by
  have hdict := h.isLongestOut_dict hs
  have hfuel := h.dict_lt_size hs
  have hwidth : (t.node s).outputs.length * (1 + cost) ≤ width * (1 + cost) :=
    Nat.mul_le_mul_right _ (houts s hs)
  rw [Nat.succ_mul] at hwork ⊢
  rw [emitChain, acOfTrie_node hs, meets_ok_bind]
  have hnode : Meets (fun _ => False)
      (fun r => work ≤ r.2 + (t.node s).outputs.length * (1 + cost))
      (emitNode emit stop (t.node s).outputs ctx work) := emitNode_costs hemit (by omega)
  refine Meets.bind hnode ?_
  rintro ⟨ctx', w'⟩ hcost
  simp only at hcost
  refine (emitChain_costs h hemit houts hdict hfuel (by omega)).imp fun r hr => ?_
  omega

/-! ### The calls -/

theorem traced_continues (hemit : Continues emit cost) : Continues (traced emit) cost where
  spends := by
    intro ctx e work
    refine Meets.bind (hemit.spends ctx.1 e work) ?_
    rintro ⟨next, w⟩ hw
    exact hw
  enough := by
    intro ctx e work hwork
    refine Meets.bind (hemit.enough ctx.1 e work hwork) ?_
    rintro ⟨next, w⟩ hw
    exact hw

/-- The list grows with every call. -/
theorem traced_keeps (hemit : Continues emit cost) :
    EmitKeeps (traced emit) (fun _ => True) fun ctx seen => ctx.2 = seen := by
  intro e _ ctx seen work hseen
  refine Meets.bind (hemit.spends ctx.1 e work) ?_
  rintro ⟨next, w⟩ hw
  exact ⟨hw, congrArg (· ++ [e]) hseen⟩

/-- What one byte costs at most. -/
def byteCost (size branching width cost : ℕ) : ℕ :=
  1 + size * (branching + 1) + (size + 1) * (width * (1 + cost))

/-- The calls of a scan up to a position. -/
structure CallsTo (patterns : List AcPattern) (payload : List UInt8) (n : ℕ)
    (calls : List Emission) : Prop where
  perm : calls.Perm (occurrencesTo patterns payload n)
  sorted : calls.Pairwise fun a b => a.stop ≤ b.stop
  stop_le : ∀ e ∈ calls, e.stop ≤ n

theorem CallsTo.append {patterns : List AcPattern} {payload : List UInt8}
    {calls now : List Emission} (h : CallsTo patterns payload n calls)
    (hnow : now.Perm (occurrencesAt patterns payload (n + 1))) :
    CallsTo patterns payload (n + 1) (calls ++ now) := by
  have hstop : ∀ e ∈ now, e.stop = n + 1 := by
    intro e he
    obtain ⟨p, -, rfl⟩ := mem_map.mp (hnow.mem_iff.mp he)
    rfl
  refine ⟨?_, ?_, ?_⟩
  · rw [occurrencesTo_succ]
    exact h.perm.append hnow
  · rw [pairwise_append]
    refine ⟨h.sorted, pairwise_of_forall_mem_list fun a ha b hb => ?_, fun a ha b hb => ?_⟩
    · rw [hstop a ha, hstop b hb]
    · rw [hstop b hb]
      exact Nat.le_succ_of_le (h.stop_le a ha)
  · intro e he
    obtain he | he := mem_append.mp he
    · exact Nat.le_succ_of_le (h.stop_le e he)
    · exact Nat.le_of_eq (hstop e he)

variable {patterns : List AcPattern} {payload : List UInt8}

/-- The outputs at a node are those of the patterns that end at the position. -/
theorem emissions_perm (h : AhoCorasick.IsMachine t word (acEntries patterns))
    (hs : AhoCorasick.IsLongest t word ((payload.take stop).map v3Fold) s) :
    ((AhoCorasick.chainOutputs t s).map (emissionOf stop)).Perm
      (occurrencesAt patterns payload stop) := by
  refine ((h.chainOutputs_perm hs).map _).trans (Perm.of_eq ?_)
  unfold occurrencesAt acEntries
  rw [List.filter_map, map_map, map_map]
  rfl

/-- The rest of a scan, with enough budget for its bytes. -/
theorem scanFrom_calls (h : AhoCorasick.IsMachine t word (acEntries patterns))
    (hlen : ∀ p ∈ patterns, p.bytes.length = p.len) (hemit : Continues emit cost)
    (hedges : ∀ i < t.size, (t.node i).edges.length ≤ branching)
    (houts : ∀ i < t.size, (t.node i).outputs.length ≤ width) {rest : List UInt8}
    {pre : List UInt8} {ctx : κ × List Emission} (hpre : pre ++ rest = payload)
    (hs : AhoCorasick.IsLongest t word (pre.map v3Fold) s)
    (hcalls : CallsTo patterns payload pre.length ctx.2)
    (hwork : rest.length * byteCost t.size branching width cost ≤ work) :
    Meets (fun _ => False) (fun r => CallsTo patterns payload payload.length r.1.2)
      (acScanFrom (acOfTrie t) (traced emit) rest pre.length s ctx work) := by
  induction rest generalizing pre s ctx work with
  | nil =>
    rw [append_nil] at hpre
    subst hpre
    exact hcalls
  | cons b rest ih =>
    rw [length_cons, Nat.succ_mul] at hwork
    have hunfold : byteCost t.size branching width cost =
      1 + t.size * (branching + 1) + (t.size + 1) * (width * (1 + cost)) := rfl
    have hwalk : (word s).length * (branching + 1) ≤ t.size * (branching + 1) :=
      Nat.mul_le_mul_right _ ((h.trie.length_word_le s hs.lt).trans hs.lt.le)
    rw [acScanFrom]
    refine Meets.bind (spend_costs (by omega)) (fun w hw => ?_)
    have hcand := AhoCorasick.Candidate.of_isLongest (b := v3Fold b) h.trie hs
    refine Meets.bind (((acWalk_costs h hedges hcand (Nat.lt_succ_self w) (by omega)).and
      (acWalk_meets h hcand (Nat.lt_succ_self w))).mono (fun e he => he.1) fun r hr => hr) ?_
    rintro ⟨s', w'⟩ ⟨hcost, -, hs'⟩
    simp only at hcost hs'
    have hnext : pre.map v3Fold ++ [v3Fold b] = (pre ++ [b]).map v3Fold := by
      rw [map_append, map_singleton]
    have htake : (payload.take (pre.length + 1)).map v3Fold = (pre ++ [b]).map v3Fold := by
      rw [← hpre, append_cons, take_left' (by rw [length_append, length_singleton])]
    rw [hnext] at hs'
    have hnow := emissions_perm h (htake ▸ hs')
    -- no output is longer than what has been read
    have hgood : ∀ o ∈ AhoCorasick.chainOutputs t s', o.patternLen ≤ pre.length + 1 ∧ True := by
      intro o ho
      obtain ⟨_, hentry, hsuffix, ho'⟩ := (h.mem_chainOutputs hs' o).mp ho
      obtain ⟨p, hp, rfl⟩ := mem_map.mp hentry
      subst ho'
      have hle := hsuffix.length_le
      have hbytes := hlen p hp
      rw [length_map, length_append, length_singleton] at hle
      refine ⟨?_, trivial⟩
      show p.len ≤ _
      simp only [AcPattern.key, length_map, length_take] at hle
      omega
    have hsize : (acOfTrie t).nodes.size = t.size := Array.size_map
    rw [hsize]
    refine Meets.bind (((emitState_costs h (traced_continues hemit) houts hs'.lt (by omega)).and
      (emitState_meets h (traced_keeps hemit) hs' hgood rfl)).mono (fun e he => he.1)
      fun r hr => hr) ?_
    rintro ⟨ctx', w''⟩ ⟨hleft, -, hlog⟩
    simp only at hleft hlog
    have hlen' : pre.length + 1 = (pre ++ [b]).length := by rw [length_append, length_singleton]
    rw [hlen'] at hnow hlog ⊢
    refine ih (by rw [append_assoc]; exact hpre) hs' ?_ (by omega)
    show CallsTo patterns payload (pre ++ [b]).length ctx'.2
    rw [hlog, ← hlen']
    exact hcalls.append (hlen' ▸ hnow)

end Machine

/-! ### Patterns in their arrays -/

/-- A pattern without the part of its array behind its length. -/
def AcPattern.trim (p : AcPattern) : AcPattern := { p with bytes := p.bytes.take p.len }

theorem AcPattern.trim_key (p : AcPattern) : p.trim.key = p.key := by
  show ((p.bytes.take p.len).take p.len).map v3Fold = (p.bytes.take p.len).map v3Fold
  rw [take_take, Nat.min_self]

theorem countNodes_trim (patterns : List AcPattern) (n : ℕ) :
    countNodes n (patterns.map AcPattern.trim) = countNodes n patterns := by
  induction patterns generalizing n with
  | nil => rfl
  | cons p ps ih =>
    rw [map_cons, countNodes, countNodes]
    show (if p.len = 0 ∨ JMX_V3_PAYLOAD_MAX < p.len then _ else
      if U32_MAX < n + p.len then _ else countNodes (n + p.len) _) = _
    rw [ih]

theorem acBuild_trim (alloc : AcAlloc) (patterns : List AcPattern) :
    acBuild alloc (patterns.map AcPattern.trim) = acBuild alloc patterns := by
  have hentries : (patterns.map AcPattern.trim).map (fun p => (p.key, p.output)) =
      patterns.map fun p => (p.key, p.output) := by
    rw [map_map]
    apply map_congr_left
    intro p _
    exact Prod.ext p.trim_key rfl
  have hempty : (patterns.map AcPattern.trim).isEmpty = patterns.isEmpty := isEmpty_map
  unfold acBuild
  rw [hempty, countNodes_trim, hentries]

theorem occurrences_trim (patterns : List AcPattern) (payload : List UInt8) :
    occurrences (patterns.map AcPattern.trim) payload = occurrences patterns payload := by
  unfold occurrences occurrencesTo
  apply flatMap_congr
  intro i _
  unfold occurrencesAt
  rw [List.filter_map, map_map]
  have hfilter : ((fun p : AcPattern => decide (p.key <:+ (payload.take (i + 1)).map v3Fold)) ∘
      AcPattern.trim) = fun p => decide (p.key <:+ (payload.take (i + 1)).map v3Fold) := by
    funext p
    show decide (p.trim.key <:+ _) = _
    rw [p.trim_key]
  rw [hfilter]
  rfl

/-- The lengths that a build accepts fit the arrays. -/
theorem countNodes_le {ps : List AcPattern} {maxNodes : ℕ} (h : countNodes maxNodes ps = .ok n) :
    ∀ p ∈ ps, p.len ≤ JMX_V3_PAYLOAD_MAX := by
  induction ps generalizing maxNodes with
  | nil => exact fun _ hp => absurd hp not_mem_nil
  | cons p ps ih =>
    rw [countNodes] at h
    split at h
    · cases h
    rename_i hbad
    split at h
    · cases h
    intro q hq
    obtain rfl | hq := mem_cons.mp hq
    · omega
    · exact ih h q hq

/-- No two entries of the list are the same pattern for the same step of the same rule. -/
def DistinctEntries (patterns : List AcPattern) : Prop :=
  patterns.Pairwise fun p q => (p.ruleIndex, p.stepIndex, p.key) ≠ (q.ruleIndex, q.stepIndex, q.key)

theorem DistinctEntries.trim {patterns : List AcPattern} (h : DistinctEntries patterns) :
    DistinctEntries (patterns.map AcPattern.trim) := by
  unfold DistinctEntries
  rw [pairwise_map]
  refine h.imp fun hne heq => hne ?_
  rwa [AcPattern.trim_key, AcPattern.trim_key] at heq

theorem nodup_occurrences {patterns : List AcPattern} (hdistinct : DistinctEntries patterns)
    (hlen : ∀ p ∈ patterns, p.bytes.length = p.len) (payload : List UInt8) :
    (occurrences patterns payload).Nodup := by
  unfold occurrences occurrencesTo
  rw [nodup_flatMap]
  constructor
  · intro i _
    unfold occurrencesAt
    unfold List.Nodup
    rw [pairwise_map]
    refine (hdistinct.filter _).imp_of_mem ?_
    intro p q hp hq hne heq
    obtain ⟨hp, hpsuffix⟩ := mem_filter.mp hp
    obtain ⟨hq, hqsuffix⟩ := mem_filter.mp hq
    have hpsuffix := of_decide_eq_true hpsuffix
    have hqsuffix := of_decide_eq_true hqsuffix
    have hplen : p.key.length = p.len := by
      rw [AcPattern.key, length_map, length_take, hlen p hp, Nat.min_self]
    have hqlen : q.key.length = q.len := by
      rw [AcPattern.key, length_map, length_take, hlen q hq, Nat.min_self]
    have hple := hpsuffix.length_le
    have hqle := hqsuffix.length_le
    rw [length_map, length_take, hplen] at hple
    rw [length_map, length_take, hqlen] at hqle
    obtain ⟨hrule, hstep, hstart, -⟩ := Emission.mk.inj heq
    have hstart' : i + 1 - p.len = i + 1 - q.len := hstart
    -- suffixes of one text and of one length are equal
    have hkey : p.key = q.key :=
      (suffix_of_suffix_length_le hpsuffix hqsuffix (by omega)).eq_of_length (by omega)
    exact hne (Prod.ext hrule (Prod.ext hstep hkey))
  · refine nodup_range.imp ?_
    intro i j hij e hi hj
    obtain ⟨p, -, rfl⟩ := mem_map.mp hi
    obtain ⟨q, -, hq⟩ := mem_map.mp hj
    exact hij (Nat.succ.inj (Emission.mk.inj hq).2.2.2.symm)

/-- **Every occurrence is reported exactly once.**  A built automaton and a callback that does not
    stop the scan: with enough budget the calls are, one for each pattern of the list and each place
    where it occurs, the occurrences of the folded patterns in the folded payload, and their ends do
    not decrease.  No call is made twice unless an entry of the list is repeated. -/
theorem acScan_complete {κ : Type} {emit : Emit κ} {cost : ℕ} (hemit : Continues emit cost)
    {alloc : AcAlloc} {patterns : List AcPattern} {ac : Ac}
    (hbytes : ∀ p ∈ patterns, p.bytes.length = JMX_V3_PAYLOAD_MAX)
    (hbuild : acBuild alloc patterns = .ok ac) {payload : List UInt8} (hne : payload ≠ []) :
    ∃ enough, ∀ work, enough ≤ work → ∀ ctx, ∃ next calls left,
      acScan ac payload (traced emit) (ctx, []) work = .ok ((next, calls), left) ∧
        calls.Perm (occurrences patterns payload) ∧ (calls.Pairwise fun a b => a.stop ≤ b.stop) ∧
        (DistinctEntries patterns → calls.Nodup) := by
  have hle : ∀ p ∈ patterns, p.len ≤ JMX_V3_PAYLOAD_MAX := by
    unfold acBuild at hbuild
    split at hbuild
    · cases hbuild
    split at hbuild
    · cases hbuild
    · next n hcount => exact countNodes_le hcount
  have hlen : ∀ p ∈ patterns.map AcPattern.trim, p.bytes.length = p.len := by
    intro p hp
    obtain ⟨q, hq, rfl⟩ := mem_map.mp hp
    show (q.bytes.take q.len).length = q.len
    rw [length_take, hbytes q hq, Nat.min_eq_left (hle q hq)]
  have hdistinct : DistinctEntries patterns → DistinctEntries (patterns.map AcPattern.trim) :=
    DistinctEntries.trim
  rw [← acBuild_trim] at hbuild
  rw [← occurrences_trim]
  generalize patterns.map AcPattern.trim = ps at hlen hbuild hdistinct ⊢
  obtain ⟨t, word, rfl, hm, -⟩ := acBuild_machine hlen hbuild
  obtain ⟨branching, hedges⟩ : ∃ n, ∀ i < t.size, (t.node i).edges.length ≤ n :=
    ⟨_, fun i hi => Finset.le_sup (f := fun i => (t.node i).edges.length) (Finset.mem_range.mpr hi)⟩
  obtain ⟨width, houts⟩ : ∃ n, ∀ i < t.size, (t.node i).outputs.length ≤ n :=
    ⟨_, fun i hi => Finset.le_sup (f := fun i => (t.node i).outputs.length) (Finset.mem_range.mpr hi)⟩
  have hroot : AhoCorasick.IsLongest t word (([] : List UInt8).map v3Fold) 0 := by
    refine ⟨hm.trie.pos, by rw [hm.trie.root]; exact nil_suffix, fun i _ hs => ?_⟩
    rw [suffix_nil.mp hs]
    exact Nat.zero_le _
  refine ⟨payload.length * byteCost t.size branching width cost, fun work hwork ctx => ?_⟩
  have hstart : CallsTo ps payload ([] : List UInt8).length (ctx, ([] : List Emission)).2 :=
    ⟨List.Perm.refl _, List.Pairwise.nil, fun _ he => absurd he not_mem_nil⟩
  have hscan := scanFrom_calls hm hlen hemit hedges houts (nil_append payload) hroot hstart hwork
  obtain ⟨⟨⟨next, calls⟩, left⟩, heq, hcalls⟩ := hscan.exists_ok
  have hempty : payload.isEmpty = false := by
    rwa [isEmpty_eq_false_iff]
  refine ⟨next, calls, left, ?_, hcalls.perm, hcalls.sorted, fun h => ?_⟩
  · rw [acScan, hempty]
    exact heq
  · exact hcalls.perm.nodup_iff.mpr (nodup_occurrences (hdistinct h) hlen payload)

/-! ### An entry that is repeated -/

/-- A callback that goes on. -/
def goOn : Emit Unit := fun ctx _ work => .ok (ctx, work)

theorem goOn_continues : Continues goOn 0 := ⟨fun _ _ _ => le_refl _, fun _ _ _ _ => le_refl _⟩

/-- A pattern of one letter, in its array. -/
def letterPattern (letter : UInt8) : AcPattern :=
  ⟨7, 0, 1, letter :: List.replicate (JMX_V3_PAYLOAD_MAX - 1) 0⟩

/-- The automaton of a pattern and of the same one in capitals. -/
def letterAutomaton : Ac where
  nodes := #[⟨0, none, [(0x61, 1)], []⟩, ⟨0, none, [], [⟨7, 0, 1⟩, ⟨7, 0, 1⟩]⟩]
  rootNext := (List.replicate 256 0).set 0x61 1

theorem acBuild_letters :
    acBuild {} [letterPattern 0x61, letterPattern 0x41] = .ok letterAutomaton := by
  decide +kernel

/-- A list that names one pattern twice has its occurrence reported twice. -/
theorem reported_twice : ∃ left,
    acBuild {} [letterPattern 0x61, letterPattern 0x41] = .ok letterAutomaton ∧
      acScan letterAutomaton [0x61] (traced goOn) ((), []) 100 =
        .ok (((), [⟨7, 0, 0, 1⟩, ⟨7, 0, 0, 1⟩]), left) :=
  ⟨97, by decide +kernel, by decide +kernel⟩

theorem acScan_complete_letters : ∃ enough, ∀ work, enough ≤ work → ∀ ctx, ∃ next calls left,
      acScan letterAutomaton [0x61, 0x41] (traced goOn) (ctx, []) work = .ok ((next, calls), left) ∧
        calls.Perm (occurrences [letterPattern 0x61, letterPattern 0x41] [0x61, 0x41]) := by
  have hbytes : ∀ p ∈ [letterPattern 0x61, letterPattern 0x41],
      p.bytes.length = JMX_V3_PAYLOAD_MAX := by
    decide +kernel
  obtain ⟨enough, h⟩ := acScan_complete goOn_continues hbytes acBuild_letters (by decide :
    ([0x61, 0x41] : List UInt8) ≠ [])
  refine ⟨enough, fun work hwork ctx => ?_⟩
  obtain ⟨next, calls, left, heq, hperm, -⟩ := h work hwork ctx
  exact ⟨next, calls, left, heq, hperm⟩

end DreamingOS.V3
