import Mathlib.Data.List.Infix

namespace AhoCorasick

open List
open Function (update_of_ne update_self)

/-!
# Aho–Corasick — the keyword trie

A pattern trie over an arbitrary alphabet `α`, each node carrying a list of outputs `ω`.  Nodes
live in one array and are named by their index; node `0` is the root.  A node's `edges` and
`outputs` are kept in insertion order, newest first, as a linked list with head insertion has
them.

* `insertPath` / `addPattern` / `insertAll` — insertion with a capacity and a bound on the outputs
  of one node;
* `IsTrie t word` — `word i` is the string spelled by the path to node `i`: the words are distinct,
  the edges of `i` are exactly the one-symbol extensions of `word i`, and every node but the root
  extends an earlier one;
* `Holds t word ps` — the outputs of a node are those of the patterns spelled by it;
* `Holds.insertAll` — an insertion that succeeds builds a trie that holds all its patterns.
-/

variable {α ω : Type}

/-- One trie node: its edges, its outputs, and the two links filled in after all insertions. -/
structure Node (α ω : Type) where
  edges : List (α × ℕ) := []
  outputs : List ω := []
  fail : ℕ := 0
  dictSuffix : Option ℕ := none

/-- The nodes in creation order; index `0` is the root. -/
abbrev Trie (α ω : Type) := Array (Node α ω)

/-- The node at index `i` (an empty node outside the array). -/
def Trie.node (t : Trie α ω) (i : ℕ) : Node α ω := t.getD i {}

/-- The trie of a root without edges. -/
def Trie.empty : Trie α ω := #[{}]

/-- The target of the edge of node `i` labelled `b`. -/
def findChild [DecidableEq α] (t : Trie α ω) (i : ℕ) (b : α) : Option ℕ :=
  ((t.node i).edges.find? (fun e => e.1 = b)).map Prod.snd

/-- Append a fresh node and make it the `b`-child of node `i`. -/
def addChild (t : Trie α ω) (i : ℕ) (b : α) : Trie α ω :=
  (t.modify i (fun n => { n with edges := (b, t.size) :: n.edges })).push {}

/-- Walk `bs` from node `i`, creating the missing nodes; `none` when the array is full. -/
def insertPath [DecidableEq α] (maxNodes : ℕ) (t : Trie α ω) (i : ℕ) : List α → Option (Trie α ω × ℕ)
  | [] => some (t, i)
  | b :: bs =>
    match findChild t i b with
    | some c => insertPath maxNodes t c bs
    | none =>
      if maxNodes ≤ t.size then none
      else insertPath maxNodes (addChild t i b) t.size bs

/-- Insert the pattern `(key, out)`; a node holds at most `maxOutputs` outputs. -/
def addPattern [DecidableEq α] (maxNodes maxOutputs : ℕ) (t : Trie α ω) (p : List α × ω) : Option (Trie α ω) :=
  match insertPath maxNodes t 0 p.1 with
  | none => none
  | some (t', i) =>
    if (t'.node i).outputs.length = maxOutputs then none
    else some (t'.modify i (fun n => { n with outputs := p.2 :: n.outputs }))

/-- Insert all patterns in order into the trie `t`. -/
def insertAll [DecidableEq α] (maxNodes maxOutputs : ℕ) : Trie α ω → List (List α × ω) → Option (Trie α ω)
  | t, [] => some t
  | t, p :: ps =>
    match addPattern maxNodes maxOutputs t p with
    | none => none
    | some t' => insertAll maxNodes maxOutputs t' ps

/-! ### Reading nodes after an update -/

variable {i : ℕ}

theorem node_modify_self {t : Trie α ω} (hi : i < t.size) (f : Node α ω → Node α ω) :
    Trie.node (t.modify i f) i = f (t.node i) := by
  simp [Trie.node, Array.getD, hi, Array.getElem_modify]

variable {j : ℕ}

theorem node_modify_ne {t : Trie α ω} {i : ℕ} (hij : i ≠ j) (f : Node α ω → Node α ω) :
    Trie.node (t.modify i f) j = t.node j := by
  by_cases hj : j < t.size
  · simp [Trie.node, Array.getD, hj, Array.getElem_modify, hij]
  · simp [Trie.node, Array.getD, hj]

theorem node_push_lt {t : Trie α ω} (hj : j < t.size) (n : Node α ω) :
    Trie.node (t.push n) j = t.node j := by
  have hj' : j < t.size + 1 := by omega
  simp [Trie.node, Array.getD, hj, hj', Array.getElem_push]

theorem node_push_self (t : Trie α ω) (n : Node α ω) : Trie.node (t.push n) t.size = n := by
  simp [Trie.node, Array.getD]

theorem node_of_size_le {t : Trie α ω} (hj : t.size ≤ j) : t.node j = {} := by
  have hj' : ¬ j < t.size := by omega
  simp [Trie.node, Array.getD, hj']

@[simp] theorem size_addChild (t : Trie α ω) (i : ℕ) (b : α) :
    (addChild t i b).size = t.size + 1 := by
  simp [addChild]

theorem node_addChild_self {t : Trie α ω} (hi : i < t.size) (b : α) : Trie.node (addChild t i b) i
      = { t.node i with edges := (b, t.size) :: (t.node i).edges } := by
  rw [addChild, node_push_lt (by simpa using hi), node_modify_self hi]

theorem node_addChild_ne {t : Trie α ω} {i : ℕ} (hij : i ≠ j) (b : α) :
    Trie.node (addChild t i b) j = t.node j := by
  rcases lt_trichotomy j t.size with hlt | heq | hgt
  · rw [addChild, node_push_lt (by simpa using hlt), node_modify_ne hij]
  · subst heq
    have hsz : (t.modify i fun n => { n with edges := (b, t.size) :: n.edges }).size = t.size := by
      simp
    rw [addChild, node_of_size_le (le_refl t.size)]
    have h := node_push_self (t.modify i fun n => { n with edges := (b, t.size) :: n.edges })
      ({} : Node α ω)
    rwa [hsz] at h
  · rw [node_of_size_le hgt.le, node_of_size_le (by simp; omega)]

/-- What a node carries besides its edges. -/
def Node.data (n : Node α ω) : List ω × ℕ × Option ℕ := (n.outputs, n.fail, n.dictSuffix)

/-- Adding a child changes only edges. -/
theorem data_addChild (t : Trie α ω) (hi : i < t.size) (b : α) (j : ℕ) :
    (Trie.node (addChild t i b) j).data = (t.node j).data := by
  by_cases hij : i = j
  · subst hij; rw [node_addChild_self hi]; rfl
  · rw [node_addChild_ne hij]

/-! ### Tries and the words they spell -/

/-- `word i` is the string spelled by the path from the root to node `i`. -/
structure IsTrie (t : Trie α ω) (word : ℕ → List α) : Prop where
  pos : 0 < t.size
  root : word 0 = []
  inj : ∀ i j, i < t.size → j < t.size → word i = word j → i = j
  edge_iff : ∀ i b j, i < t.size → ((b, j) ∈ (t.node i).edges ↔ j < t.size ∧ word j = word i ++ [b])
  parent : ∀ j, 0 < j → j < t.size → ∃ i b, i < j ∧ word j = word i ++ [b]
  edges_nodup : ∀ i, i < t.size → (t.node i).edges.Nodup

/-- The trie with only a root spells the empty word. -/
theorem isTrie_empty : IsTrie (Trie.empty : Trie α ω) (fun _ => []) where
  pos := by simp [Trie.empty]
  root := rfl
  inj := by
    intro i j hi hj _
    simp only [Trie.empty, List.size_toArray, length_singleton] at hi hj
    omega
  edge_iff := by
    intro i b j hi
    simp only [Trie.empty, List.size_toArray, length_singleton] at hi
    obtain rfl : i = 0 := by omega
    simp [Trie.node, Trie.empty]
  parent := by
    intro j hj hlt
    simp only [Trie.empty, List.size_toArray, length_singleton] at hlt
    omega
  edges_nodup := by
    intro i hi
    simp only [Trie.empty, List.size_toArray, length_singleton] at hi
    obtain rfl : i = 0 := by omega
    simp [Trie.node, Trie.empty]
variable {t' : Trie α ω}


namespace IsTrie

variable {t : Trie α ω} {word : ℕ → List α}

/-- `findChild` finds exactly the node spelled by the extended word. -/
theorem findChild_eq_some [DecidableEq α] (h : IsTrie t word) (hi : i < t.size) (b : α) (j : ℕ) :
    findChild t i b = some j ↔ j < t.size ∧ word j = word i ++ [b] := by
  rw [← h.edge_iff i b j hi]
  constructor
  · intro hf
    simp only [findChild, Option.map_eq_some_iff] at hf
    obtain ⟨⟨b', c⟩, hfind, rfl⟩ := hf
    have hb : b' = b := by simpa using find?_some hfind
    subst hb
    exact mem_of_find?_eq_some hfind
  · intro hmem
    cases hf : (t.node i).edges.find? (fun e => e.1 = b) with
    | none =>
      rw [find?_eq_none] at hf
      exact absurd (by simp) (hf (b, j) hmem)
    | some e =>
      have hb : e.1 = b := by simpa using find?_some hf
      have he : (b, e.2) ∈ (t.node i).edges := by rw [← hb]; exact mem_of_find?_eq_some hf
      obtain ⟨hjlt, hjw⟩ := (h.edge_iff i b j hi).mp hmem
      obtain ⟨helt, hew⟩ := (h.edge_iff i b e.2 hi).mp he
      have : e.2 = j := h.inj _ _ helt hjlt (hew.trans hjw.symm)
      simp [findChild, hf, this]

theorem findChild_eq_none [DecidableEq α] (h : IsTrie t word) (hi : i < t.size) (b : α) :
    findChild t i b = none ↔ ∀ j, j < t.size → word j ≠ word i ++ [b] := by
  rw [Option.eq_none_iff_forall_ne_some]
  constructor
  · intro hn j hj hw
    exact hn j ((h.findChild_eq_some hi b j).mpr ⟨hj, hw⟩)
  · intro hn j hf
    obtain ⟨hj, hw⟩ := (h.findChild_eq_some hi b j).mp hf
    exact hn j hj hw

/-- The edges of a node are what `findChild` finds. -/
theorem mem_edges_iff [DecidableEq α] (h : IsTrie t word) (hi : i < t.size) (b : α) (j : ℕ) :
    (b, j) ∈ (t.node i).edges ↔ findChild t i b = some j := by
  rw [h.edge_iff i b j hi, h.findChild_eq_some hi b j]

/-- Two edges of one node with the same label are the same edge. -/
theorem edge_unique (h : IsTrie t word) (hi : i < t.size) (b : α) (j k : ℕ)
    (hj : (b, j) ∈ (t.node i).edges) (hk : (b, k) ∈ (t.node i).edges) : j = k := by
  obtain ⟨hjlt, hjw⟩ := (h.edge_iff i b j hi).mp hj
  obtain ⟨hklt, hkw⟩ := (h.edge_iff i b k hi).mp hk
  exact h.inj j k hjlt hklt (hjw.trans hkw.symm)

/-- Only the root spells the empty word. -/
theorem eq_zero_of_word_nil (h : IsTrie t word) (hi : i < t.size) (hw : word i = []) : i = 0 :=
  h.inj i 0 hi h.pos (hw.trans h.root.symm)

variable {b : α}

/-- The word of a node with its last symbol removed is spelled by an earlier node. -/
theorem exists_parent (h : IsTrie t word) (hj : j < t.size) {u : List α}
    (hw : word j = u ++ [b]) : ∃ i, i < t.size ∧ word i = u ∧ i < j := by
  have hpos : 0 < j := by
    rcases Nat.eq_zero_or_pos j with rfl | hp
    · rw [h.root] at hw; simp at hw
    · exact hp
  obtain ⟨i, b', hij, hw'⟩ := h.parent j hpos hj
  rw [hw] at hw'
  exact ⟨i, by omega, (append_inj_left' hw' rfl).symm, hij⟩

/-- A node's word is no longer than its index, so a walk up the links needs at most `size` steps. -/
theorem length_word_le (h : IsTrie t word) : ∀ i, i < t.size → (word i).length ≤ i := by
  intro i
  induction i using Nat.strong_induction_on with
  | _ i ih =>
    intro hi
    rcases Nat.eq_zero_or_pos i with rfl | hp
    · simp [h.root]
    · obtain ⟨p, b, hpi, hw⟩ := h.parent i hp hi
      have := ih p hpi (by omega)
      rw [hw, length_append, length_singleton]
      omega

/-- Adding a missing child extends the trie by the one-symbol extension of its parent's word. -/
theorem addChild [DecidableEq α] (h : IsTrie t word) (hi : i < t.size)
    (hnone : findChild t i b = none) :
    IsTrie (AhoCorasick.addChild t i b) (Function.update word t.size (word i ++ [b])) where
  pos := by simp
  root := by
    rw [update_of_ne (by have := h.pos; omega)]
    exact h.root
  inj := by
    intro j k hj hk hjk
    simp only [size_addChild] at hj hk
    have hfresh := (h.findChild_eq_none hi b).mp hnone
    rcases Nat.lt_succ_iff_lt_or_eq.mp hj with hj' | rfl <;>
      rcases Nat.lt_succ_iff_lt_or_eq.mp hk with hk' | rfl
    · rw [update_of_ne (by omega), update_of_ne (by omega)] at hjk
      exact h.inj j k hj' hk' hjk
    · rw [update_of_ne (by omega), update_self] at hjk
      exact absurd hjk (hfresh j hj')
    · rw [update_of_ne (show k ≠ t.size by omega), update_self] at hjk
      exact absurd hjk.symm (hfresh k hk')
    · rfl
  edge_iff := by
    intro j c k hj
    simp only [size_addChild] at hj
    rcases Nat.lt_succ_iff_lt_or_eq.mp hj with hj' | rfl
    · have hjne : j ≠ t.size := by omega
      rw [update_of_ne hjne, size_addChild]
      have hold := h.edge_iff j c k hj'
      -- the edge leads to an old node, or to the fresh one
      have hcase : k < t.size + 1 ∧ Function.update word t.size (word i ++ [b]) k = word j ++ [c] ↔
          (k < t.size ∧ word k = word j ++ [c]) ∨ (k = t.size ∧ word i ++ [b] = word j ++ [c]) := by
        by_cases hk : k = t.size
        · subst hk; simp
        rw [update_of_ne hk]
        constructor
        · rintro ⟨hlt, hw⟩
          exact .inl ⟨by omega, hw⟩
        · rintro (⟨hlt, hw⟩ | ⟨heq, _⟩)
          · exact ⟨by omega, hw⟩
          · exact absurd heq hk
      rw [hcase, ← hold]
      by_cases hij : i = j
      · subst hij
        rw [node_addChild_self hi]
        simp only [mem_cons, Prod.mk.injEq, append_cancel_left_eq, List.cons.injEq, and_true]
        constructor
        · rintro (⟨rfl, rfl⟩ | hm)
          · exact .inr ⟨rfl, rfl⟩
          · exact .inl hm
        · rintro (hm | ⟨rfl, rfl⟩)
          · exact .inr hm
          · exact .inl ⟨rfl, rfl⟩
      · rw [node_addChild_ne hij]
        constructor
        · exact .inl
        · rintro (hm | ⟨_, hw⟩)
          · exact hm
          · exact absurd (h.inj i j hi hj' (append_inj_left' hw rfl)) hij
    · have hne : i ≠ t.size := by omega
      rw [node_addChild_ne hne, node_of_size_le (le_refl _), size_addChild, update_self]
      simp only [not_mem_nil, false_iff, not_and]
      intro hk hw
      -- a child of the fresh node would be longer than every word of the trie
      by_cases hkeq : k = t.size
      · subst hkeq
        rw [update_self] at hw
        simpa using congrArg List.length hw
      · rw [update_of_ne hkeq] at hw
        obtain ⟨p, hp, hpw, _⟩ := h.exists_parent (by omega) hw
        exact (h.findChild_eq_none hi b).mp hnone p hp hpw
  parent := by
    intro j hj hlt
    simp only [size_addChild] at hlt
    rcases Nat.lt_succ_iff_lt_or_eq.mp hlt with hlt' | rfl
    · obtain ⟨p, c, hpj, hw⟩ := h.parent j hj hlt'
      refine ⟨p, c, hpj, ?_⟩
      rw [update_of_ne (by omega), update_of_ne (by omega), hw]
    · exact ⟨i, b, hi, by rw [update_self, update_of_ne (by omega)]⟩
  edges_nodup := by
    intro j hj
    simp only [size_addChild] at hj
    by_cases hij : i = j
    · subst hij
      rw [node_addChild_self hi, nodup_cons]
      refine ⟨fun hm => ?_, h.edges_nodup i hi⟩
      exact absurd ((h.edge_iff i b t.size hi).mp hm).1 (lt_irrefl _)
    · rw [node_addChild_ne hij]
      rcases Nat.lt_succ_iff_lt_or_eq.mp hj with hj' | rfl
      · exact h.edges_nodup j hj'
      · rw [node_of_size_le (le_refl _)]; exact nodup_nil

/-- Changing only the links and outputs of nodes keeps a trie. -/
theorem congr_edges (h : IsTrie t word) (hsz : t'.size = t.size)
    (hedges : ∀ i, (t'.node i).edges = (t.node i).edges) : IsTrie t' word where
  pos := hsz ▸ h.pos
  root := h.root
  inj := by rw [hsz]; exact h.inj
  edge_iff := by intro i b j hi; rw [hsz] at hi ⊢; rw [hedges i]; exact h.edge_iff i b j hi
  parent := by rw [hsz]; exact h.parent
  edges_nodup := by intro i hi; rw [hsz] at hi; rw [hedges i]; exact h.edges_nodup i hi

end IsTrie
/-! ### Insertion -/

variable [DecidableEq α] {maxNodes : ℕ}

/-- Walking `bs` from node `i` ends at the node spelled by `word i ++ bs`; old nodes keep their
    words and everything but their edges. -/
theorem insertPath_spec {bs : List α} :
    ∀ {t : Trie α ω} {word : ℕ → List α} {i : ℕ} {t' : Trie α ω} {n : ℕ}, IsTrie t word →
      i < t.size → insertPath maxNodes t i bs = some (t', n) →
      ∃ word', IsTrie t' word' ∧ t.size ≤ t'.size ∧ (∀ j, j < t.size → word' j = word j) ∧
        n < t'.size ∧ word' n = word i ++ bs ∧ ∀ j, (t'.node j).data = (t.node j).data := by
  induction bs with
  | nil =>
    intro t word i t' n h hi hins
    simp only [insertPath, Option.some.injEq, Prod.mk.injEq] at hins
    obtain ⟨rfl, rfl⟩ := hins
    exact ⟨word, h, le_refl _, fun _ _ => rfl, hi, by simp, fun _ => rfl⟩
  | cons b bs ih =>
    intro t word i t' n h hi hins
    simp only [insertPath] at hins
    cases hf : findChild t i b with
    | some c =>
      obtain ⟨hc, hcw⟩ := (h.findChild_eq_some hi b c).mp hf
      rw [hf] at hins
      obtain ⟨word', h', hsz, hold, hn, hnw, hdata⟩ := ih h hc hins
      refine ⟨word', h', hsz, hold, hn, ?_, hdata⟩
      rw [hnw, hcw, append_assoc, singleton_append]
    | none =>
      rw [hf] at hins
      by_cases hfull : maxNodes ≤ t.size
      · simp [hfull] at hins
      simp only [hfull, if_false] at hins
      obtain ⟨word', h', hsz, hold, hn, hnw, hdata⟩ := ih (h.addChild hi hf) (by simp) hins
      rw [size_addChild] at hsz hold
      refine ⟨word', h', by omega, ?_, hn, ?_, ?_⟩
      · intro j hj
        rw [hold j (by omega), update_of_ne (by omega)]
      · rw [hnw, update_self, append_assoc, singleton_append]
      · intro j
        rw [hdata j, data_addChild t hi b j]

/-- A trie holding the patterns `ps`, before its links are computed: the outputs of a node are
    those of the patterns it spells, the latest first. -/
structure Holds (t : Trie α ω) (word : ℕ → List α) (ps : List (List α × ω)) : Prop where
  trie : IsTrie t word
  outputs : ∀ j, j < t.size →
    (t.node j).outputs = ((ps.filter (fun p => p.1 = word j)).map Prod.snd).reverse
  spelled : ∀ p ∈ ps, ∃ j, j < t.size ∧ word j = p.1
  unlinked : ∀ j, (t.node j).fail = 0 ∧ (t.node j).dictSuffix = none

theorem holds_empty : Holds (Trie.empty : Trie α ω) (fun _ => []) [] where
  trie := isTrie_empty
  outputs := by
    intro j hj
    simp only [Trie.empty, List.size_toArray, length_singleton] at hj
    obtain rfl : j = 0 := by omega
    simp [Trie.node, Trie.empty]
  spelled := by simp
  unlinked := by
    intro j
    rcases Nat.eq_zero_or_pos j with rfl | hj
    · simp [Trie.node, Trie.empty]
    · rw [node_of_size_le (by simp [Trie.empty]; omega)]
      exact ⟨rfl, rfl⟩

variable {maxOutputs : ℕ}

/-- One more pattern. -/
theorem Holds.addPattern {t : Trie α ω} {word : ℕ → List α}
    {ps : List (List α × ω)} {p : List α × ω} (h : Holds t word ps)
    (hadd : AhoCorasick.addPattern maxNodes maxOutputs t p = some t') :
    ∃ word', Holds t' word' (ps ++ [p]) := by
  simp only [AhoCorasick.addPattern] at hadd
  cases hins : insertPath maxNodes t 0 p.1 with
  | none => simp [hins] at hadd
  | some r =>
    obtain ⟨t₁, n⟩ := r
    rw [hins] at hadd
    obtain ⟨word', h₁, hsz, hold, hn, hnw, hdata⟩ := insertPath_spec h.trie h.trie.pos hins
    rw [h.trie.root, nil_append] at hnw
    by_cases hfull : (t₁.node n).outputs.length = maxOutputs
    · simp [hfull] at hadd
    simp only [hfull, if_false, Option.some.injEq] at hadd
    have hout : ∀ j, (t₁.node j).outputs = (t.node j).outputs := fun j => congrArg Prod.fst (hdata j)
    -- before `p` is recorded, `t₁` carries the outputs of `ps` under the longer word table
    have hout₁ : ∀ j, j < t₁.size →
        (t₁.node j).outputs = ((ps.filter (fun q => q.1 = word' j)).map Prod.snd).reverse := by
      intro j hj
      rw [hout j]
      by_cases hjt : j < t.size
      · rw [h.outputs j hjt, hold j hjt]
      rw [node_of_size_le (by omega)]
      have hnone : ps.filter (fun q => q.1 = word' j) = [] := by
        rw [filter_eq_nil_iff]
        intro q hq hqw
        obtain ⟨k, hk, hkw⟩ := h.spelled q hq
        have hqw' : q.1 = word' j := by simpa using hqw
        have : j = k := h₁.inj j k hj (by omega) (by rw [hold k hk, hkw, hqw'])
        omega
      rw [hnone]; rfl
    refine ⟨word', ?_, ?_, ?_, ?_⟩
    · refine h₁.congr_edges (by rw [← hadd]; simp) (fun i => ?_)
      rw [← hadd]
      by_cases hin : n = i
      · subst hin; rw [node_modify_self hn]
      · rw [node_modify_ne hin]
    · intro j hj
      have hj₁ : j < t₁.size := by rw [← hadd] at hj; simpa using hj
      rw [← hadd, filter_append, map_append, reverse_append]
      by_cases hnj : n = j
      · subst hnj
        rw [node_modify_self hn, hout₁ n hn]
        simp [hnw]
      · rw [node_modify_ne hnj, hout₁ j hj₁]
        have hne : ¬ p.1 = word' j := fun he => hnj (h₁.inj n j hn hj₁ (hnw.trans he))
        simp [hne]
    · intro q hq
      have hsize : t'.size = t₁.size := by rw [← hadd]; simp
      rcases mem_append.mp hq with hq' | hq'
      · obtain ⟨k, hk, hkw⟩ := h.spelled q hq'
        exact ⟨k, by omega, by rw [hold k hk, hkw]⟩
      · rw [mem_singleton] at hq'
        subst hq'
        exact ⟨n, by omega, hnw⟩
    · intro j
      have hj : (t₁.node j).fail = 0 ∧ (t₁.node j).dictSuffix = none := by
        have hd := congrArg Prod.snd (hdata j)
        simp only [Node.data, Prod.mk.injEq] at hd
        rw [hd.1, hd.2]; exact h.unlinked j
      rw [← hadd]
      by_cases hnj : n = j
      · subst hnj; rw [node_modify_self hn]; exact hj
      · rw [node_modify_ne hnj]; exact hj

/-- **Insertion.**  When `insertAll` succeeds the trie holds all the patterns. -/
theorem Holds.insertAll {qs : List (List α × ω)} :
    ∀ {t t' : Trie α ω} {word : ℕ → List α} {ps : List (List α × ω)}, Holds t word ps →
      AhoCorasick.insertAll maxNodes maxOutputs t qs = some t' →
      ∃ word', Holds t' word' (ps ++ qs) := by
  induction qs with
  | nil =>
    intro t t' word ps h hins
    simp only [AhoCorasick.insertAll, Option.some.injEq] at hins
    exact ⟨word, by rw [append_nil, ← hins]; exact h⟩
  | cons q qs ih =>
    intro t t' word ps h hins
    simp only [AhoCorasick.insertAll] at hins
    cases hadd : AhoCorasick.addPattern maxNodes maxOutputs t q with
    | none => simp [hadd] at hins
    | some t₁ =>
      rw [hadd] at hins
      obtain ⟨word₁, h₁⟩ := h.addPattern hadd
      obtain ⟨word', h'⟩ := ih h₁ hins
      exact ⟨word', by rw [← append_cons] at h'; exact h'⟩

end AhoCorasick
