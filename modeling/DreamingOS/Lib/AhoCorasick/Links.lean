import DreamingOS.Lib.AhoCorasick.Trie
import Mathlib.Data.List.Nodup
import Mathlib.Data.List.Perm.Subperm

namespace AhoCorasick

open List

/-!
# Aho–Corasick — failure links and dictionary links

Breadth-first computation of the two links of every node, and what the links mean.

* `IsLongest t word x r` — node `r` spells the longest suffix of `x` that the trie spells;
* `Candidate t word x b s` — the loop invariant of a walk along failure links: `s` spells a suffix
  of `x`, and no suffix of `x ++ [b]` in the trie is longer than `word s` plus one symbol.  The
  lemmas `Candidate.found`, `Candidate.fail` and `Candidate.root` are the three exits of such a
  walk, whatever else the loop that performs it does;
* `Linked t word j` — the links of `j` point to the longest proper suffix of `word j` in the trie,
  and to the longest one with outputs;
* `IsMachine t word ps` — a trie holding the patterns `ps`, every node but the root `Linked`;
* `Holds.link` — the breadth-first pass turns a trie into a machine.

Proper suffixes of a non-empty `w` are the suffixes of `w.tail`, and are written so throughout.
-/

variable {α ω : Type}

/-! ### Longest suffixes -/

variable {u w : List α}

/-- A proper suffix is a suffix of the tail. -/
theorem suffix_tail_of_ne (h : u <:+ w) (hne : u ≠ w) : u <:+ w.tail := by
  cases w with
  | nil => exact absurd (suffix_nil.mp h) hne
  | cons a w =>
    rcases suffix_cons_iff.mp h with heq | hs
    · exact absurd heq hne
    · exact hs

theorem suffix_of_suffix_tail (h : u <:+ w.tail) : u <:+ w := h.trans (tail_suffix w)

/-- A suffix of a non-empty word's tail is shorter than the word. -/
theorem length_lt_of_suffix_tail (h : u <:+ w.tail) (hw : w ≠ []) : u.length < w.length := by
  have h1 := h.length_le
  have h2 : 0 < w.length := length_pos_iff.mpr hw
  rw [length_tail] at h1
  omega

/-- Node `r` spells the longest suffix of `x` spelled by the trie. -/
structure IsLongest (t : Trie α ω) (word : ℕ → List α) (x : List α) (r : ℕ) : Prop where
  lt : r < t.size
  suffix : word r <:+ x
  max : ∀ i, i < t.size → word i <:+ x → (word i).length ≤ (word r).length
variable {t' : Trie α ω}


namespace IsLongest

variable {t : Trie α ω} {word : ℕ → List α} {x : List α} {r : ℕ}

/-- Every suffix of `x` in the trie is a suffix of the longest one. -/
theorem suffix_of_suffix (h : IsLongest t word x r) {i : ℕ} (hi : i < t.size)
    (hs : word i <:+ x) : word i <:+ word r :=
  suffix_of_suffix_length_le hs h.suffix (h.max i hi hs)

theorem congr_size (h : IsLongest t word x r) (hsz : t'.size = t.size) : IsLongest t' word x r where
  lt := hsz ▸ h.lt
  suffix := h.suffix
  max := by rw [hsz]; exact h.max

end IsLongest

/-- The invariant of a walk along failure links towards the longest suffix of `x ++ [b]`. -/
structure Candidate (t : Trie α ω) (word : ℕ → List α) (x : List α) (b : α) (s : ℕ) : Prop where
  lt : s < t.size
  suffix : word s <:+ x
  upper : ∀ i, i < t.size → word i <:+ x ++ [b] → (word i).length ≤ (word s).length + 1

/-- The link `fail j` points to the longest proper suffix of `word j`. -/
def FailOk (t : Trie α ω) (word : ℕ → List α) (j : ℕ) : Prop :=
  IsLongest t word (word j).tail (t.node j).fail

namespace Candidate

variable {t : Trie α ω} {word : ℕ → List α} {x : List α} {b : α} {s : ℕ}

/-- The walk starts at the longest suffix of `x`. -/
theorem of_isLongest (ht : IsTrie t word) (h : IsLongest t word x s) : Candidate t word x b s where
  lt := h.lt
  suffix := h.suffix
  upper := by
    intro i hi hs
    rcases suffix_concat_iff.mp hs with hnil | ⟨u, hu, hux⟩
    · simp [hnil]
    · obtain ⟨k, hk, hku, _⟩ := ht.exists_parent hi hu
      have := h.max k hk (hku ▸ hux)
      rw [hu, length_append, length_singleton, ← hku]
      omega

/-- The current node has a `b`-child: that child is the answer. -/
theorem found [DecidableEq α] (ht : IsTrie t word) (h : Candidate t word x b s) {c : ℕ}
    (hc : findChild t s b = some c) : IsLongest t word (x ++ [b]) c := by
  obtain ⟨hlt, hw⟩ := (ht.findChild_eq_some h.lt b c).mp hc
  refine ⟨hlt, ?_, ?_⟩
  · rw [hw]
    obtain ⟨pre, hpre⟩ := h.suffix
    exact ⟨pre, by rw [← append_assoc, hpre]⟩
  · intro i hi hs
    rw [hw, length_append, length_singleton]
    exact h.upper i hi hs

/-- The current node has no `b`-child: continue at its failure link. -/
theorem fail [DecidableEq α] (ht : IsTrie t word) (h : Candidate t word x b s)
    (hf : FailOk t word s) (hc : findChild t s b = none) :
    Candidate t word x b (t.node s).fail where
  lt := hf.lt
  suffix := (suffix_of_suffix_tail hf.suffix).trans h.suffix
  upper := by
    intro i hi hs
    rcases suffix_concat_iff.mp hs with hnil | ⟨u, hu, hux⟩
    · simp [hnil]
    obtain ⟨k, hk, hku, _⟩ := ht.exists_parent hi hu
    have hlen := h.upper i hi hs
    rw [hu, length_append, length_singleton] at hlen ⊢
    have hus : word k <:+ word s := by
      rw [hku]
      exact suffix_of_suffix_length_le hux h.suffix (by omega)
    have hne : word k ≠ word s := by
      intro heq
      exact (ht.findChild_eq_none h.lt b).mp hc i hi (by rw [hu, ← hku, heq])
    have := hf.max k hk (suffix_tail_of_ne hus hne)
    rw [hku] at this
    omega

/-- The walk has reached the root. -/
theorem root [DecidableEq α] (ht : IsTrie t word) (h : Candidate t word x b 0) :
    IsLongest t word (x ++ [b]) ((findChild t 0 b).getD 0) := by
  cases hc : findChild t 0 b with
  | some c => exact h.found ht hc
  | none =>
    refine ⟨ht.pos, by simp [ht.root], ?_⟩
    intro i hi hs
    rcases suffix_concat_iff.mp hs with hnil | ⟨u, hu, hux⟩
    · simp [hnil]
    have hlen := h.upper i hi hs
    rw [ht.root, hu, length_append, length_singleton, length_nil] at hlen
    have hu0 : u = [] := length_eq_zero_iff.mp (by omega)
    have := (ht.findChild_eq_none h.lt b).mp hc i hi (by rw [hu, hu0, ht.root])
    exact this.elim

end Candidate

/-! ### Links -/

/-- `d` names the node of the longest suffix of `x` that has outputs, if there is one. -/
def IsLongestOut (t : Trie α ω) (word : ℕ → List α) (x : List α) : Option ℕ → Prop
  | some d => d < t.size ∧ word d <:+ x ∧ (t.node d).outputs ≠ [] ∧
      ∀ i, i < t.size → word i <:+ x → (t.node i).outputs ≠ [] → (word i).length ≤ (word d).length
  | none => ∀ i, i < t.size → word i <:+ x → (t.node i).outputs = []

/-- Both links of node `j` are right. -/
structure Linked (t : Trie α ω) (word : ℕ → List α) (j : ℕ) : Prop where
  fail : FailOk t word j
  dict : IsLongestOut t word (word j).tail (t.node j).dictSuffix

variable {j : ℕ}

/-- `Linked` reads only the links of `j`, the outputs and the size. -/
theorem Linked.congr {t : Trie α ω} {word : ℕ → List α} (h : Linked t word j)
    (hsz : t'.size = t.size) (hout : ∀ i, (t'.node i).outputs = (t.node i).outputs)
    (hnode : t'.node j = t.node j) : Linked t' word j where
  fail := by
    unfold FailOk
    rw [hnode]
    exact IsLongest.congr_size h.fail hsz
  dict := by
    have hd := h.dict
    rw [hnode]
    cases hdict : (t.node j).dictSuffix with
    | none =>
      rw [hdict] at hd
      intro i hi hs
      rw [hout i]
      exact hd i (hsz ▸ hi) hs
    | some d =>
      rw [hdict] at hd
      obtain ⟨hd1, hd2, hd3, hd4⟩ := hd
      refine ⟨hsz ▸ hd1, hd2, by rw [hout d]; exact hd3, ?_⟩
      intro i hi hs ho
      exact hd4 i (hsz ▸ hi) hs (by rwa [hout i] at ho)

/-- The longest suffix with outputs, read off the longest suffix `r` and the links of `r`. -/
theorem isLongestOut_of_isLongest {t : Trie α ω} {word : ℕ → List α} {x : List α} {r : ℕ}
    (ht : IsTrie t word) (h : IsLongest t word x r)
    (hdict : IsLongestOut t word (word r).tail (t.node r).dictSuffix) :
    IsLongestOut t word x
      (if (t.node r).outputs.isEmpty then (t.node r).dictSuffix else some r) := by
  by_cases ho : (t.node r).outputs.isEmpty
  · rw [if_pos ho]
    have ho' : (t.node r).outputs = [] := List.isEmpty_iff.mp ho
    -- with no outputs at `r`, a suffix with outputs is a suffix of the tail
    have hsub : ∀ i, i < t.size → word i <:+ x → (t.node i).outputs ≠ [] →
        word i <:+ (word r).tail := by
      intro i hi hs hoi
      refine suffix_tail_of_ne (h.suffix_of_suffix hi hs) (fun heq => hoi ?_)
      rw [ht.inj i r hi h.lt heq, ho']
    cases hd : (t.node r).dictSuffix with
    | none =>
      rw [hd] at hdict
      intro i hi hs
      by_contra hoi
      exact hoi (hdict i hi (hsub i hi hs hoi))
    | some d =>
      rw [hd] at hdict
      obtain ⟨hd1, hd2, hd3, hd4⟩ := hdict
      refine ⟨hd1, (suffix_of_suffix_tail hd2).trans h.suffix, hd3, ?_⟩
      intro i hi hs hoi
      exact hd4 i hi (hsub i hi hs hoi) hoi
  · rw [if_neg ho]
    refine ⟨h.lt, h.suffix, fun he => ho (List.isEmpty_iff.mpr he), ?_⟩
    intro i hi hs _
    exact h.max i hi hs

/-! ### The breadth-first pass -/

section Bfs

variable [DecidableEq α]

/-- Follow failure links from `s` until a node has a `b`-child; the root stands for itself when it
    has none.  The fuel bounds the number of links followed. -/
def goto (t : Trie α ω) : ℕ → ℕ → α → ℕ
  | 0, _, b => (findChild t 0 b).getD 0
  | fuel + 1, s, b =>
    if s = 0 then (findChild t 0 b).getD 0
    else
      match findChild t s b with
      | some c => c
      | none => goto t fuel (t.node s).fail b

/-- Compute the links of the child `e.2` that node `n` reaches by the symbol `e.1`. -/
def linkChild (n : ℕ) (t : Trie α ω) (e : α × ℕ) : Trie α ω :=
  let found := goto t t.size (t.node n).fail e.1
  let transition := if found = e.2 then 0 else found
  t.modify e.2 (fun c =>
    { c with
      fail := transition
      dictSuffix :=
        if (t.node transition).outputs.isEmpty then (t.node transition).dictSuffix
        else some transition })

/-- The queue loop: link the children of the first node of the queue and enqueue them. -/
def linkFrom : ℕ → Trie α ω → List ℕ → Trie α ω
  | 0, t, _ => t
  | _ + 1, t, [] => t
  | fuel + 1, t, n :: queue =>
    linkFrom fuel ((t.node n).edges.foldl (linkChild n) t)
      (queue ++ (t.node n).edges.map Prod.snd)

/-- Reset the links of the targets of the edges `es`. -/
def clearLinks (t : Trie α ω) (es : List (α × ℕ)) : Trie α ω :=
  es.foldl (fun t e => t.modify e.2 (fun c => { c with fail := 0, dictSuffix := none })) t

/-- Set the failure links of the root's children, enqueue them, and run the queue. -/
def link (t : Trie α ω) : Trie α ω :=
  linkFrom t.size (clearLinks t (t.node 0).edges) ((t.node 0).edges.map Prod.snd)

variable {b : α}

/-- `goto` finds the longest suffix when every node it can visit is linked. -/
theorem goto_isLongest {t : Trie α ω} {word : ℕ → List α} {x : List α}
    (ht : IsTrie t word) : ∀ {fuel s : ℕ}, Candidate t word x b s → (word s).length ≤ fuel →
      (∀ j, j < t.size → j ≠ 0 → (word j).length ≤ (word s).length → FailOk t word j) →
      IsLongest t word (x ++ [b]) (goto t fuel s b) := by
  intro fuel
  induction fuel with
  | zero =>
    intro s h hlen _
    have hs : s = 0 := ht.eq_zero_of_word_nil h.lt (length_eq_zero_iff.mp (by omega))
    subst hs
    exact h.root ht
  | succ fuel ih =>
    intro s h hlen hok
    by_cases hs : s = 0
    · subst hs
      simp only [goto, if_true]
      exact h.root ht
    simp only [goto, hs, if_false]
    cases hc : findChild t s b with
    | some c => exact h.found ht hc
    | none =>
      have hf := hok s h.lt hs (le_refl _)
      have hne : word s ≠ [] := fun he => hs (ht.eq_zero_of_word_nil h.lt he)
      have hshort := length_lt_of_suffix_tail hf.suffix hne
      exact ih (h.fail ht hf hc) (by omega) (fun j hj hj0 hjl => hok j hj hj0 (by omega))

/-- Linking the child `c` of `n` writes the links of `c` only. -/
theorem node_linkChild_ne (t : Trie α ω) (n : ℕ) (e : α × ℕ) (hj : e.2 ≠ j) :
    Trie.node (linkChild n t e) j = t.node j := by
  rw [linkChild, node_modify_ne hj]

/-- The parts of the trie that linking leaves alone. -/
structure SameTrie (t t' : Trie α ω) : Prop where
  size : t'.size = t.size
  edges : ∀ j, (t'.node j).edges = (t.node j).edges
  outputs : ∀ j, (t'.node j).outputs = (t.node j).outputs

omit [DecidableEq α] in
theorem SameTrie.refl (t : Trie α ω) : SameTrie t t := ⟨rfl, fun _ => rfl, fun _ => rfl⟩

omit [DecidableEq α] in
theorem SameTrie.trans {t t'' : Trie α ω} (h : SameTrie t t') (h' : SameTrie t' t'') :
    SameTrie t t'' :=
  ⟨h'.size.trans h.size, fun j => (h'.edges j).trans (h.edges j),
    fun j => (h'.outputs j).trans (h.outputs j)⟩

omit [DecidableEq α] in
/-- Rewriting the links of one node keeps the trie. -/
theorem SameTrie.modify (t : Trie α ω) (c : ℕ) (f : Node α ω → Node α ω)
    (he : ∀ n, (f n).edges = n.edges) (ho : ∀ n, (f n).outputs = n.outputs) :
    SameTrie t (t.modify c f) := by
  have hread : ∀ j, Trie.node (t.modify c f) j = t.node j ∨
      Trie.node (t.modify c f) j = f (t.node j) := by
    intro j
    by_cases hcj : c = j
    · subst hcj
      by_cases hc : c < t.size
      · exact .inr (node_modify_self hc f)
      · refine .inl ?_
        rw [node_of_size_le (by simpa using Nat.not_lt.mp hc), node_of_size_le (Nat.not_lt.mp hc)]
    · exact .inl (node_modify_ne hcj f)
  refine ⟨by simp, fun j => ?_, fun j => ?_⟩
  · rcases hread j with h | h <;> rw [h]
    exact he _
  · rcases hread j with h | h <;> rw [h]
    exact ho _

theorem SameTrie.linkChild (n : ℕ) (t : Trie α ω) (e : α × ℕ) :
    SameTrie t (AhoCorasick.linkChild n t e) :=
  SameTrie.modify t e.2 _ (fun _ => rfl) (fun _ => rfl)

/-- What the links of a node rest on: the trie, a bare root, and right links at every node whose
    word is not longer than `d`. -/
structure LinkedUpTo (t : Trie α ω) (word : ℕ → List α) (d : ℕ) : Prop where
  trie : IsTrie t word
  rootOutputs : (t.node 0).outputs = []
  rootDict : (t.node 0).dictSuffix = none
  linked : ∀ j, j < t.size → j ≠ 0 → (word j).length ≤ d → Linked t word j

/-- **Linking one child.**  When every node not longer than `n` is linked, so is the child of `n`
    after `linkChild`, and the other nodes are as before. -/
theorem linkChild_linked {t : Trie α ω} {word : ℕ → List α} {n c : ℕ} (hn : n < t.size)
    (hn0 : n ≠ 0) (h : LinkedUpTo t word (word n).length) (hc : (b, c) ∈ (t.node n).edges) :
    LinkedUpTo (linkChild n t (b, c)) word (word n).length ∧
      Linked (linkChild n t (b, c)) word c := by
  obtain ⟨hclt, hcw⟩ := (h.trie.edge_iff n b c hn).mp hc
  have hsame := SameTrie.linkChild n t (b, c)
  have hne : word n ≠ [] := fun he => hn0 (h.trie.eq_zero_of_word_nil hn he)
  have htail : (word c).tail = (word n).tail ++ [b] := by rw [hcw, tail_append_of_ne_nil hne]
  have hclen : (word c).length = (word n).length + 1 := by rw [hcw, length_append, length_singleton]
  -- the walk from the failure link of `n` finds the longest proper suffix of `word c`
  have hfail : FailOk t word n := (h.linked n hn hn0 (le_refl _)).fail
  have hshort := length_lt_of_suffix_tail hfail.suffix hne
  have hfound : IsLongest t word (word c).tail (goto t t.size (t.node n).fail b) := by
    rw [htail]
    refine goto_isLongest h.trie (Candidate.of_isLongest h.trie hfail) ?_ ?_
    · have := h.trie.length_word_le _ hfail.lt
      have := hfail.lt
      omega
    · intro j hj hj0 hjl
      exact (h.linked j hj hj0 (by omega)).fail
  have hcne : word c ≠ [] := by rw [hcw]; simp
  have hfshort := length_lt_of_suffix_tail hfound.suffix hcne
  have hnotc : goto t t.size (t.node n).fail b ≠ c := by
    intro he
    rw [he] at hfshort
    exact lt_irrefl _ hfshort
  -- the links just written
  have hnode : Trie.node (linkChild n t (b, c)) c =
      { t.node c with
        fail := goto t t.size (t.node n).fail b
        dictSuffix :=
          if (t.node (goto t t.size (t.node n).fail b)).outputs.isEmpty then
            (t.node (goto t t.size (t.node n).fail b)).dictSuffix
          else some (goto t t.size (t.node n).fail b) } := by
    rw [linkChild, node_modify_self hclt]
    simp only [hnotc, if_false]
  -- the longest proper suffix has right links itself, the root included
  have hdictFound : IsLongestOut t word (word (goto t t.size (t.node n).fail b)).tail
      (t.node (goto t t.size (t.node n).fail b)).dictSuffix := by
    by_cases hz : goto t t.size (t.node n).fail b = 0
    · rw [hz, h.rootDict, h.trie.root]
      intro i hi hs
      rw [h.trie.eq_zero_of_word_nil hi (suffix_nil.mp hs), h.rootOutputs]
    · exact (h.linked _ hfound.lt hz (by omega)).dict
  have hout : ∀ x d, IsLongestOut t word x d → IsLongestOut (linkChild n t (b, c)) word x d := by
    intro x d hd
    cases d with
    | none =>
      intro i hi hs
      rw [hsame.outputs i]
      exact hd i (hsame.size ▸ hi) hs
    | some d =>
      obtain ⟨hd1, hd2, hd3, hd4⟩ := hd
      refine ⟨hsame.size ▸ hd1, hd2, by rw [hsame.outputs d]; exact hd3, ?_⟩
      intro i hi hs ho
      exact hd4 i (hsame.size ▸ hi) hs (by rwa [hsame.outputs i] at ho)
  have hlinked : Linked (linkChild n t (b, c)) word c := by
    constructor
    · unfold FailOk
      rw [hnode]
      exact hfound.congr_size hsame.size
    · rw [hnode]
      exact hout _ _ (isLongestOut_of_isLongest h.trie hfound hdictFound)
  refine ⟨⟨h.trie.congr_edges hsame.size hsame.edges, ?_, ?_, ?_⟩, hlinked⟩
  · rw [hsame.outputs 0]; exact h.rootOutputs
  · rw [node_linkChild_ne t n (b, c) (by rintro rfl; exact hcne h.trie.root)]
    exact h.rootDict
  · intro j hj hj0 hjl
    rw [hsame.size] at hj
    have hcj : c ≠ j := by rintro rfl; omega
    exact (h.linked j hj hj0 hjl).congr hsame.size hsame.outputs (node_linkChild_ne t n (b, c) hcj)

omit [DecidableEq α] in
/-- The children of a node are distinct. -/
theorem IsTrie.targets_nodup {t : Trie α ω} {word : ℕ → List α} (ht : IsTrie t word) {i : ℕ}
    (hi : i < t.size) : ((t.node i).edges.map Prod.snd).Nodup := by
  refine Nodup.map_on ?_ (ht.edges_nodup i hi)
  rintro ⟨b, j⟩ hb ⟨b', j'⟩ hb' (rfl : j = j')
  have h1 := ((ht.edge_iff i b j hi).mp hb).2
  have h2 := ((ht.edge_iff i b' j hi).mp hb').2
  have : [b] = [b'] := append_cancel_left (h1.symm.trans h2)
  simpa using this

/-- Linking some of the children of `n`, one after the other. -/
theorem linkChildren_linked {word : ℕ → List α} {n : ℕ} (hn0 : n ≠ 0) {es : List (α × ℕ)} :
    ∀ {t : Trie α ω}, n < t.size → LinkedUpTo t word (word n).length →
      (∀ e ∈ es, e ∈ (t.node n).edges) → (es.map Prod.snd).Nodup →
      LinkedUpTo (es.foldl (linkChild n) t) word (word n).length ∧
        SameTrie t (es.foldl (linkChild n) t) ∧
        (∀ e ∈ es, Linked (es.foldl (linkChild n) t) word e.2) ∧
        ∀ j, j ∉ es.map Prod.snd → Trie.node (es.foldl (linkChild n) t) j = t.node j := by
  induction es with
  | nil =>
    intro t _ h _ _
    exact ⟨h, SameTrie.refl t, by simp, fun _ _ => rfl⟩
  | cons e es ih =>
    intro t hn h hmem hnd
    rw [map_cons, nodup_cons] at hnd
    obtain ⟨h₁, hlinked⟩ := linkChild_linked hn hn0 h (hmem e (by simp))
    have hsame := SameTrie.linkChild n t e
    obtain ⟨h₂, hsame₂, hes, hother⟩ := ih (by rw [hsame.size]; exact hn) h₁
      (fun e' he' => by rw [hsame.edges n]; exact hmem e' (by simp [he'])) hnd.2
    rw [foldl_cons]
    refine ⟨h₂, hsame.trans hsame₂, ?_, ?_⟩
    · intro e' he'
      rcases mem_cons.mp he' with rfl | he'
      · exact hlinked.congr hsame₂.size hsame₂.outputs (hother _ hnd.1)
      · exact hes e' he'
    · intro j hj
      rw [map_cons, mem_cons, not_or] at hj
      rw [hother j hj.2, node_linkChild_ne t n e (fun he => hj.1 he.symm)]

/-- The state of the queue loop: `done` are the nodes already taken off the queue. -/
structure BfsInv (t : Trie α ω) (word : ℕ → List α) (done queue : List ℕ) : Prop where
  trie : IsTrie t word
  rootOutputs : (t.node 0).outputs = []
  rootDict : (t.node 0).dictSuffix = none
  mem_iff : ∀ v, v ∈ done ++ queue ↔
    v < t.size ∧ ∃ p b, p < t.size ∧ word v = word p ++ [b] ∧ (p = 0 ∨ p ∈ done)
  nodup : (done ++ queue).Nodup
  linked : ∀ v ∈ done ++ queue, Linked t word v
  sorted : queue.Pairwise (fun u v => (word u).length ≤ (word v).length)
  span : ∀ u ∈ queue, ∀ v ∈ queue, (word v).length ≤ (word u).length + 1

namespace BfsInv

omit [DecidableEq α]

variable {t : Trie α ω} {word : ℕ → List α} {done queue : List ℕ} {n : ℕ} {v : ℕ}

theorem lt_size (h : BfsInv t word done queue) (hv : v ∈ done ++ queue) : v < t.size :=
  ((h.mem_iff v).mp hv).1

theorem ne_zero (h : BfsInv t word done queue) (hv : v ∈ done ++ queue) : v ≠ 0 := by
  rintro rfl
  obtain ⟨_, p, b, _, hw, _⟩ := (h.mem_iff 0).mp hv
  rw [h.trie.root] at hw
  simp at hw

/-- **Frontier.**  Every node not longer than the head of the queue has been enqueued. -/
theorem frontier (h : BfsInv t word done (n :: queue)) :
    ∀ v, v < t.size → v ≠ 0 → (word v).length ≤ (word n).length → v ∈ done ++ n :: queue := by
  intro v
  induction v using Nat.strong_induction_on with
  | _ v ih =>
    intro hv hv0 hlen
    obtain ⟨p, b, hpv, hw⟩ := h.trie.parent v (Nat.pos_of_ne_zero hv0) hv
    refine (h.mem_iff v).mpr ⟨hv, p, b, by omega, hw, ?_⟩
    rw [hw, length_append, length_singleton] at hlen
    by_cases hp0 : p = 0
    · exact .inl hp0
    refine .inr ?_
    -- the parent is enqueued by induction, and is too short to be waiting still
    rcases mem_append.mp (ih p hpv (by omega) hp0 (by omega)) with hd | hq
    · exact hd
    exfalso
    rcases mem_cons.mp hq with rfl | hq
    · omega
    · have := rel_of_pairwise_cons h.sorted hq
      omega

theorem linkedUpTo (h : BfsInv t word done (n :: queue)) : LinkedUpTo t word (word n).length :=
  ⟨h.trie, h.rootOutputs, h.rootDict, fun j hj hj0 hjl => h.linked j (h.frontier j hj hj0 hjl)⟩

/-- When the queue is empty every node but the root has been linked. -/
theorem all_linked (h : BfsInv t word done []) : ∀ v, v < t.size → v ≠ 0 → Linked t word v := by
  have hall : ∀ v, v < t.size → v ≠ 0 → v ∈ done := by
    intro v
    induction v using Nat.strong_induction_on with
    | _ v ih =>
      intro hv hv0
      obtain ⟨p, b, hpv, hw⟩ := h.trie.parent v (Nat.pos_of_ne_zero hv0) hv
      have hmem : v ∈ done ++ [] := by
        refine (h.mem_iff v).mpr ⟨hv, p, b, by omega, hw, ?_⟩
        by_cases hp0 : p = 0
        · exact .inl hp0
        · exact .inr (ih p hpv (by omega) hp0)
      simpa using hmem
  intro v hv hv0
  exact h.linked v (mem_append_left _ (hall v hv hv0))

end BfsInv

/-- One turn of the queue loop keeps the invariant. -/
theorem BfsInv.step {t : Trie α ω} {word : ℕ → List α} {done queue : List ℕ} {n : ℕ}
    (h : BfsInv t word done (n :: queue)) :
    BfsInv ((t.node n).edges.foldl (linkChild n) t) word (done ++ [n])
      (queue ++ (t.node n).edges.map Prod.snd) := by
  have hnmem : n ∈ done ++ n :: queue := by simp
  have hn := h.lt_size hnmem
  have hn0 := h.ne_zero hnmem
  obtain ⟨hup, hsame, hkids, hother⟩ := linkChildren_linked hn0 hn h.linkedUpTo
    (fun e he => he) (h.trie.targets_nodup hn)
  -- the children of `n` in terms of words
  have hkid : ∀ v, v ∈ (t.node n).edges.map Prod.snd ↔
      v < t.size ∧ ∃ b, word v = word n ++ [b] := by
    intro v
    simp only [List.mem_map, Prod.exists, exists_eq_right]
    constructor
    · rintro ⟨b, hb⟩
      exact ⟨((h.trie.edge_iff n b v hn).mp hb).1, b, ((h.trie.edge_iff n b v hn).mp hb).2⟩
    · rintro ⟨hv, b, hw⟩
      exact ⟨b, (h.trie.edge_iff n b v hn).mpr ⟨hv, hw⟩⟩
  have hndone : n ∉ done := by
    have := h.nodup
    rw [nodup_append] at this
    exact fun hd => this.2.2 n hd n (by simp) rfl
  -- a child of `n` was not enqueued before: its only parent is `n`
  have hfresh : ∀ v, v ∈ (t.node n).edges.map Prod.snd → v ∉ done ++ n :: queue := by
    intro v hv hmem
    obtain ⟨_, b, hw⟩ := (hkid v).mp hv
    obtain ⟨_, p, b', hp, hw', hpd⟩ := (h.mem_iff v).mp hmem
    have hpn : p = n := h.trie.inj p n hp hn (append_inj_left' (hw'.symm.trans hw) rfl)
    rcases hpd with hp0 | hpd
    · exact hn0 (hpn ▸ hp0)
    · exact hndone (hpn ▸ hpd)
  have hlist : done ++ [n] ++ (queue ++ (t.node n).edges.map Prod.snd)
      = (done ++ n :: queue) ++ (t.node n).edges.map Prod.snd := by simp
  have hkidlen : ∀ v, v ∈ (t.node n).edges.map Prod.snd →
      (word v).length = (word n).length + 1 := by
    intro v hv
    obtain ⟨_, b, hw⟩ := (hkid v).mp hv
    rw [hw, length_append, length_singleton]
  refine ⟨hup.trie, hup.rootOutputs, hup.rootDict, ?_, ?_, ?_, ?_, ?_⟩
  · intro v
    rw [hlist, mem_append, h.mem_iff v, hkid v, hsame.size]
    constructor
    · rintro (⟨hv, p, b, hp, hw, hpd⟩ | ⟨hv, b, hw⟩)
      · exact ⟨hv, p, b, hp, hw, hpd.imp_right (fun hd => by simp [hd])⟩
      · exact ⟨hv, n, b, hn, hw, .inr (by simp)⟩
    · rintro ⟨hv, p, b, hp, hw, hpd⟩
      rw [mem_append, mem_singleton] at hpd
      rcases hpd with hp0 | hpd | rfl
      · exact .inl ⟨hv, p, b, hp, hw, .inl hp0⟩
      · exact .inl ⟨hv, p, b, hp, hw, .inr hpd⟩
      · exact .inr ⟨hv, b, hw⟩
  · rw [hlist, nodup_append]
    exact ⟨h.nodup, h.trie.targets_nodup hn, fun a ha b hb hab => hfresh b hb (hab ▸ ha)⟩
  · intro v hv
    rw [hlist, mem_append] at hv
    rcases hv with hv | hv
    · exact (h.linked v hv).congr hsame.size hsame.outputs
        (hother v (fun hk => hfresh v hk hv))
    · obtain ⟨e, he, rfl⟩ := List.mem_map.mp hv
      exact hkids e he
  · rw [pairwise_append]
    refine ⟨(pairwise_cons.mp h.sorted).2, ?_, ?_⟩
    · refine pairwise_of_forall_mem_list (fun u hu v hv => ?_)
      rw [hkidlen u hu, hkidlen v hv]
    · intro u hu v hv
      rw [hkidlen v hv]
      exact h.span n (by simp) u (by simp [hu])
  · intro u hu v hv
    rcases mem_append.mp hu with hu | hu <;> rcases mem_append.mp hv with hv | hv
    · exact h.span u (by simp [hu]) v (by simp [hv])
    · have := rel_of_pairwise_cons h.sorted hu
      rw [hkidlen v hv]
      omega
    · have := h.span n (by simp) v (by simp [hv])
      rw [hkidlen u hu]
      omega
    · rw [hkidlen u hu, hkidlen v hv]
      omega

/-- **The queue loop.**  With fuel for the nodes not yet taken off the queue, the loop ends with
    every node but the root linked. -/
theorem linkFrom_linked {word : ℕ → List α} : ∀ {fuel : ℕ} {t : Trie α ω} {done queue : List ℕ},
    BfsInv t word done queue → t.size ≤ fuel + done.length →
    IsTrie (linkFrom fuel t queue) word ∧ SameTrie t (linkFrom fuel t queue) ∧
      ((linkFrom fuel t queue).node 0).dictSuffix = none ∧
      ∀ v, v < t.size → v ≠ 0 → Linked (linkFrom fuel t queue) word v := by
  intro fuel
  induction fuel with
  | zero =>
    intro t done queue h hfuel
    -- `done` would hold `size` distinct non-root nodes
    have hlt : (done ++ queue).length < t.size := by
      have hsub : 0 :: (done ++ queue) ⊆ List.range t.size := by
        intro v hv
        rcases mem_cons.mp hv with rfl | hv
        · exact mem_range.mpr h.trie.pos
        · exact mem_range.mpr (h.lt_size hv)
      have hnd : (0 :: (done ++ queue)).Nodup :=
        nodup_cons.mpr ⟨fun h0 => h.ne_zero h0 rfl, h.nodup⟩
      have := (subperm_of_subset hnd hsub).length_le
      rw [length_cons, length_range] at this
      omega
    rw [length_append] at hlt
    omega
  | succ fuel ih =>
    intro t done queue h hfuel
    cases queue with
    | nil => exact ⟨h.trie, SameTrie.refl t, h.rootDict, h.all_linked⟩
    | cons n queue =>
      have hstep := h.step
      have hnmem : n ∈ done ++ n :: queue := by simp
      have hsame := (linkChildren_linked (h.ne_zero hnmem) (h.lt_size hnmem) h.linkedUpTo
        (fun e he => he) (h.trie.targets_nodup (h.lt_size hnmem))).2.1
      have hroom : Array.size ((t.node n).edges.foldl (linkChild n) t)
          ≤ fuel + (done ++ [n]).length := by
        rw [hsame.size, length_append, length_singleton]
        omega
      obtain ⟨h1, h2, h3, h4⟩ := ih hstep hroom
      exact ⟨h1, hsame.trans h2, h3, fun v hv hv0 => h4 v (by rw [hsame.size]; exact hv) hv0⟩

/-- A finished automaton for the patterns `ps`. -/
structure IsMachine (t : Trie α ω) (word : ℕ → List α) (ps : List (List α × ω)) : Prop where
  trie : IsTrie t word
  outputs : ∀ j, j < t.size →
    (t.node j).outputs = ((ps.filter (fun p => p.1 = word j)).map Prod.snd).reverse
  spelled : ∀ p ∈ ps, ∃ j, j < t.size ∧ word j = p.1
  rootOutputs : (t.node 0).outputs = []
  rootDict : (t.node 0).dictSuffix = none
  linked : ∀ j, j < t.size → j ≠ 0 → Linked t word j

omit [DecidableEq α] in
/-- Clearing the links of the root's children, which are clear already, changes nothing else. -/
theorem clearLinks_spec (es : List (α × ℕ)) : ∀ t : Trie α ω,
    (∀ j, (t.node j).fail = 0 ∧ (t.node j).dictSuffix = none) →
    SameTrie t (clearLinks t es) ∧
      ∀ j, ((clearLinks t es).node j).fail = 0 ∧ ((clearLinks t es).node j).dictSuffix = none := by
  induction es with
  | nil => intro t h; exact ⟨SameTrie.refl t, h⟩
  | cons e es ih =>
    intro t h
    have hsame := SameTrie.modify t e.2 (fun c => { c with fail := 0, dictSuffix := none })
      (fun _ => rfl) (fun _ => rfl)
    obtain ⟨h1, h2⟩ := ih (t.modify e.2 (fun c => { c with fail := 0, dictSuffix := none })) (by
      intro j
      by_cases hej : e.2 = j
      · subst hej
        by_cases he : e.2 < t.size
        · rw [node_modify_self he]; exact ⟨rfl, rfl⟩
        · rw [node_of_size_le (by simpa using Nat.not_lt.mp he)]; exact ⟨rfl, rfl⟩
      · rw [node_modify_ne hej]; exact h j)
    exact ⟨hsame.trans h1, h2⟩

/-- **The breadth-first pass.**  A trie holding non-empty patterns becomes a machine for them. -/
theorem Holds.link {t : Trie α ω} {word : ℕ → List α} {ps : List (List α × ω)}
    (h : Holds t word ps) (hne : ∀ p ∈ ps, p.1 ≠ []) : IsMachine (link t) word ps := by
  have hrootOut : (t.node 0).outputs = [] := by
    rw [h.outputs 0 h.trie.pos, h.trie.root]
    have hnone : ps.filter (fun p => p.1 = []) = [] := by
      rw [filter_eq_nil_iff]
      intro p hp hpe
      exact hne p hp (by simpa using hpe)
    rw [hnone]; rfl
  obtain ⟨hsame, hclear⟩ := clearLinks_spec (t.node 0).edges t h.unlinked
  have htrie := h.trie.congr_edges hsame.size hsame.edges
  have hkid : ∀ v, v ∈ (t.node 0).edges.map Prod.snd ↔ v < t.size ∧ ∃ b, word v = [b] := by
    intro v
    simp only [List.mem_map, Prod.exists, exists_eq_right]
    have hroot := h.trie.root
    constructor
    · rintro ⟨b, hb⟩
      obtain ⟨h1, h2⟩ := (h.trie.edge_iff 0 b v h.trie.pos).mp hb
      exact ⟨h1, b, by rw [h2, hroot, nil_append]⟩
    · rintro ⟨hv, b, hw⟩
      exact ⟨b, (h.trie.edge_iff 0 b v h.trie.pos).mpr ⟨hv, by rw [hw, hroot, nil_append]⟩⟩
  have hinv : BfsInv (clearLinks t (t.node 0).edges) word []
      ((t.node 0).edges.map Prod.snd) := by
    refine ⟨htrie, by rw [hsame.outputs]; exact hrootOut, (hclear 0).2, ?_, ?_, ?_, ?_, ?_⟩
    · intro v
      rw [nil_append, hkid v, hsame.size]
      constructor
      · rintro ⟨hv, b, hw⟩
        exact ⟨hv, 0, b, h.trie.pos, by rw [hw, h.trie.root, nil_append], .inl rfl⟩
      · rintro ⟨hv, p, b, _, hw, rfl | hp⟩
        · exact ⟨hv, b, by rw [hw, h.trie.root, nil_append]⟩
        · exact absurd hp (not_mem_nil)
    · rw [nil_append]; exact h.trie.targets_nodup h.trie.pos
    · intro v hv
      rw [nil_append, hkid v] at hv
      obtain ⟨_, b, hw⟩ := hv
      -- a one-symbol word has only the empty proper suffix
      constructor
      · unfold FailOk
        rw [(hclear v).1, hw]
        refine ⟨htrie.pos, by rw [h.trie.root]; exact nil_suffix, ?_⟩
        intro i _ hs
        rw [suffix_nil.mp hs]; simp
      · rw [(hclear v).2, hw]
        intro i hi hs
        rw [hsame.size] at hi
        rw [h.trie.eq_zero_of_word_nil hi (suffix_nil.mp hs), hsame.outputs, hrootOut]
    · refine pairwise_of_forall_mem_list (fun u hu v hv => ?_)
      obtain ⟨_, b, hw⟩ := (hkid u).mp hu
      obtain ⟨_, b', hw'⟩ := (hkid v).mp hv
      rw [hw, hw']; simp
    · intro u hu v hv
      obtain ⟨_, b, hw⟩ := (hkid u).mp hu
      obtain ⟨_, b', hw'⟩ := (hkid v).mp hv
      rw [hw, hw']; simp
  have hfuel : Array.size (clearLinks t (t.node 0).edges) ≤ t.size + ([] : List ℕ).length := by
    rw [hsame.size]; simp
  obtain ⟨h1, h2, h3, h4⟩ := linkFrom_linked hinv hfuel
  have hall := hsame.trans h2
  refine ⟨h1, ?_, ?_, by rw [AhoCorasick.link, hall.outputs]; exact hrootOut, h3, ?_⟩
  · intro j hj
    rw [AhoCorasick.link] at hj ⊢
    rw [hall.outputs]
    exact h.outputs j (by rw [← hall.size]; exact hj)
  · intro p hp
    obtain ⟨j, hj, hw⟩ := h.spelled p hp
    exact ⟨j, by rw [AhoCorasick.link, hall.size]; exact hj, hw⟩
  · intro j hj hj0
    rw [AhoCorasick.link, hall.size] at hj
    exact h4 j (by rw [hsame.size]; exact hj) hj0

end Bfs

/-! ### Walking the dictionary links -/

/-- The nodes reached along dictionary links; the fuel bounds their number. -/
def dictChain (t : Trie α ω) : ℕ → Option ℕ → List ℕ
  | 0, _ => []
  | _ + 1, none => []
  | fuel + 1, some j => j :: dictChain t fuel (t.node j).dictSuffix

variable [DecidableEq α] {t : Trie α ω} {word : ℕ → List α} {ps : List (List α × ω)}

/-- A node with outputs is not the root, and its dictionary link leads to a shorter word. -/
theorem IsMachine.dict_shorter (h : IsMachine t word ps) (hj : j < t.size)
    (hout : (t.node j).outputs ≠ []) :
    j ≠ 0 ∧ word j ≠ [] ∧ ∀ k ∈ (t.node j).dictSuffix, (word k).length < (word j).length := by
  have hj0 : j ≠ 0 := by
    rintro rfl
    exact hout h.rootOutputs
  have hne : word j ≠ [] := fun hnil => hj0 (h.trie.eq_zero_of_word_nil hj hnil)
  refine ⟨hj0, hne, fun k hk => ?_⟩
  have hdict := (h.linked j hj hj0).dict
  rw [Option.mem_def.mp hk] at hdict
  exact length_lt_of_suffix_tail hdict.2.1 hne

/-- The chain from the longest suffix with outputs holds every suffix with outputs. -/
theorem IsMachine.mem_dictChain (h : IsMachine t word ps) : ∀ {fuel : ℕ} {x : List α}
    {d : Option ℕ}, IsLongestOut t word x d → (∀ j ∈ d, (word j).length < fuel) →
      ∀ i, i ∈ dictChain t fuel d ↔ i < t.size ∧ word i <:+ x ∧ (t.node i).outputs ≠ [] := by
  intro fuel
  induction fuel with
  | zero =>
    intro x d hd hfuel i
    cases d with
    | none =>
      simp only [dictChain, not_mem_nil, false_iff]
      rintro ⟨hi, hs, ho⟩
      exact ho (hd i hi hs)
    | some j => exact absurd (hfuel j rfl) (by omega)
  | succ fuel ih =>
    intro x d hd hfuel i
    cases d with
    | none =>
      simp only [dictChain, not_mem_nil, false_iff]
      rintro ⟨hi, hs, ho⟩
      exact ho (hd i hi hs)
    | some j =>
      obtain ⟨hj, hjs, hjo, hmax⟩ := hd
      obtain ⟨hj0, -, hshort⟩ := h.dict_shorter hj hjo
      have hlen : ∀ k ∈ (t.node j).dictSuffix, (word k).length < fuel :=
        fun k hk => Nat.lt_of_lt_of_le (hshort k hk) (Nat.le_of_lt_succ (hfuel j rfl))
      simp only [dictChain, mem_cons]
      rw [ih (h.linked j hj hj0).dict hlen i]
      constructor
      · rintro (rfl | ⟨hi, hs, ho⟩)
        · exact ⟨hj, hjs, hjo⟩
        · exact ⟨hi, (suffix_of_suffix_tail hs).trans hjs, ho⟩
      · rintro ⟨hi, hs, ho⟩
        have hsj := suffix_of_suffix_length_le hs hjs (hmax i hi hs ho)
        by_cases heq : word i = word j
        · exact .inl (h.trie.inj i j hi hj heq)
        · exact .inr ⟨hi, suffix_tail_of_ne hsj heq, ho⟩

variable {s : ℕ}

/-- The dictionary link of any node, the root included, leads to the longest proper suffix with
    outputs. -/
theorem IsMachine.isLongestOut_dict (h : IsMachine t word ps) (hs : s < t.size) :
    IsLongestOut t word (word s).tail (t.node s).dictSuffix := by
  by_cases hs0 : s = 0
  · subst hs0
    rw [h.rootDict, h.trie.root]
    intro i hi hsi
    rw [h.trie.eq_zero_of_word_nil hi (suffix_nil.mp hsi), h.rootOutputs]
  · exact (h.linked s hs hs0).dict

/-- The chain below any node is no longer than the number of nodes. -/
theorem IsMachine.dict_lt_size (h : IsMachine t word ps) (hs : s < t.size) :
    ∀ j ∈ (t.node s).dictSuffix, (word j).length < t.size := by
  intro j hj
  have hdict := h.isLongestOut_dict hs
  rw [Option.mem_def.mp hj] at hdict
  exact Nat.lt_of_le_of_lt (h.trie.length_word_le j hdict.1) hdict.1

/-- The outputs on the chain from the longest suffix `s` of `x`, `s` included. -/
def chainOutputs (t : Trie α ω) (s : ℕ) : List ω :=
  (dictChain t (t.size + 1) (some s)).flatMap (fun i => (t.node i).outputs)

/-- **The outputs at a position.**  From the longest suffix of the text read so far, the chain
    yields the outputs of exactly those patterns that end there. -/
theorem IsMachine.mem_chainOutputs (h : IsMachine t word ps) {x : List α}
    (hs : IsLongest t word x s) (o : ω) :
    o ∈ chainOutputs t s ↔ ∃ p ∈ ps, p.1 <:+ x ∧ p.2 = o := by
  -- the chain below `s` holds the shorter suffixes with outputs
  have hdict := h.isLongestOut_dict hs.lt
  have hbelow : ∀ i, i ∈ dictChain t t.size (t.node s).dictSuffix ↔
      i < t.size ∧ word i <:+ (word s).tail ∧ (t.node i).outputs ≠ [] :=
    h.mem_dictChain hdict (h.dict_lt_size hs.lt)
  have hmem : ∀ i, i < t.size → (o ∈ (t.node i).outputs ↔ ∃ p ∈ ps, p.1 = word i ∧ p.2 = o) := by
    intro i hi
    rw [h.outputs i hi, mem_reverse, List.mem_map]
    simp only [mem_filter, decide_eq_true_eq, and_assoc]
  rw [chainOutputs, dictChain, flatMap_cons, mem_append, mem_flatMap, hmem s hs.lt]
  constructor
  · rintro (⟨p, hp, hw, ho⟩ | ⟨i, hi, ho⟩)
    · exact ⟨p, hp, hw ▸ hs.suffix, ho⟩
    · obtain ⟨hilt, his, _⟩ := (hbelow i).mp hi
      obtain ⟨p, hp, hw, ho⟩ := (hmem i hilt).mp ho
      exact ⟨p, hp, hw ▸ (suffix_of_suffix_tail his).trans hs.suffix, ho⟩
  · rintro ⟨p, hp, hpx, ho⟩
    obtain ⟨i, hi, hw⟩ := h.spelled p hp
    have hsi : word i <:+ word s := hs.suffix_of_suffix hi (hw ▸ hpx)
    by_cases heq : word i = word s
    · exact .inl ⟨p, hp, hw.symm.trans heq, ho⟩
    · have hoi : o ∈ (t.node i).outputs := (hmem i hi).mpr ⟨p, hp, hw.symm, ho⟩
      exact .inr ⟨i, (hbelow i).mpr ⟨hi, suffix_tail_of_ne hsi heq, ne_nil_of_mem hoi⟩, hoi⟩

end AhoCorasick
