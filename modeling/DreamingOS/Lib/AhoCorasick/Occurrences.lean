import DreamingOS.Lib.AhoCorasick.Links
import Mathlib.Data.Multiset.Filter

namespace AhoCorasick

open List

/-!
# Aho–Corasick — every occurrence once

The outputs found at a position, with their multiplicities.

* `nodup_dictChain` — no node is met twice along the dictionary links;
* `flatMap_filter_perm` — what belongs to distinct keys, collected key by key;
* `chainOutputs_perm` — **at each position every pattern that ends there is found exactly once**,
  also among patterns that are equal or suffixes of each other.
-/

variable {α ω : Type} [DecidableEq α] {t : Trie α ω} {word : ℕ → List α}
  {ps : List (List α × ω)}

/-- The dictionary links lead to shorter and shorter words. -/
theorem IsMachine.nodup_dictChain (h : IsMachine t word ps) {fuel : ℕ} {x : List α}
    {d : Option ℕ} (hd : IsLongestOut t word x d) (hfuel : ∀ j ∈ d, (word j).length < fuel) :
    (dictChain t fuel d).Nodup := by
  induction fuel generalizing x d with
  | zero => exact nodup_nil
  | succ fuel ih =>
    cases d with
    | none => exact nodup_nil
    | some j =>
      obtain ⟨hj, -, hjo, -⟩ := hd
      obtain ⟨hj0, hjne, hshort⟩ := h.dict_shorter hj hjo
      have hdict := (h.linked j hj hj0).dict
      have hlen : ∀ k ∈ (t.node j).dictSuffix, (word k).length < fuel :=
        fun k hk => Nat.lt_of_lt_of_le (hshort k hk) (Nat.le_of_lt_succ (hfuel j rfl))
      rw [dictChain, nodup_cons]
      refine ⟨fun hmem => ?_, ih hdict hlen⟩
      obtain ⟨-, hsuffix, -⟩ := (h.mem_dictChain hdict hlen j).mp hmem
      exact Nat.lt_irrefl _ (length_lt_of_suffix_tail hsuffix hjne)

omit [DecidableEq α] in
/-- What belongs to distinct keys, collected key by key. -/
theorem flatMap_filter_perm {ι κ β : Type} [DecidableEq κ] {key : ι → κ} {of : β → κ}
    {is : List ι} (hnodup : (is.map key).Nodup) (bs : List β) :
    (is.flatMap fun i => bs.filter fun b => of b = key i).Perm
      (bs.filter fun b => of b ∈ is.map key) := by
  induction is with
  | nil =>
    simp
  | cons i is ih =>
    rw [map_cons, nodup_cons] at hnodup
    rw [flatMap_cons]
    refine (Perm.append_left _ (ih hnodup.2)).trans ?_
    rw [← Multiset.coe_eq_coe, ← Multiset.coe_add, ← Multiset.filter_coe, ← Multiset.filter_coe,
      ← Multiset.filter_coe]
    have hnone : Multiset.filter (fun b => of b = key i ∧ of b ∈ is.map key) (bs : Multiset β) = 0 := by
      rw [Multiset.filter_eq_nil]
      rintro b - ⟨hi, hrest⟩
      exact hnodup.1 (hi ▸ hrest)
    have hsum := Multiset.filter_add_filter (fun b => of b = key i) (fun b => of b ∈ is.map key)
      (bs : Multiset β)
    rw [hnone, Multiset.add_zero] at hsum
    rw [hsum]
    apply Multiset.filter_congr
    intro b _
    rw [map_cons, mem_cons]

/-- **At each position every pattern that ends there is found exactly once.** -/
theorem IsMachine.chainOutputs_perm (h : IsMachine t word ps) {x : List α} {s : ℕ}
    (hs : IsLongest t word x s) :
    (chainOutputs t s).Perm ((ps.filter fun p => p.1 <:+ x).map Prod.snd) := by
  have hdict := h.isLongestOut_dict hs.lt
  have hfuel := h.dict_lt_size hs.lt
  have hbelow := h.mem_dictChain hdict hfuel
  have hnodup := h.nodup_dictChain hdict hfuel
  -- `s` itself, then the nodes below it
  have hchain : dictChain t (t.size + 1) (some s) = s :: dictChain t t.size (t.node s).dictSuffix := rfl
  generalize dictChain t t.size (t.node s).dictSuffix = below at hbelow hnodup hchain
  have hlt : ∀ i ∈ s :: below, i < t.size := by
    intro i hi
    obtain rfl | hi := mem_cons.mp hi
    · exact hs.lt
    · exact ((hbelow i).mp hi).1
  have hkeys : ((s :: below).map word).Nodup := by
    refine Nodup.map_on (fun i hi j hj => h.trie.inj i j (hlt i hi) (hlt j hj)) ?_
    rw [nodup_cons]
    refine ⟨fun hmem => ?_, hnodup⟩
    obtain ⟨-, hsuffix, hout⟩ := (hbelow s).mp hmem
    by_cases hnil : word s = []
    · rw [h.trie.eq_zero_of_word_nil hs.lt hnil, h.rootOutputs] at hout
      exact hout rfl
    · exact Nat.lt_irrefl _ (length_lt_of_suffix_tail hsuffix hnil)
  have hout : (chainOutputs t s).Perm
      (((s :: below).flatMap fun i => ps.filter fun p => p.1 = word i).map Prod.snd) := by
    unfold chainOutputs
    rw [hchain, map_flatMap]
    apply Perm.flatMap_left
    intro i hi
    rw [h.outputs i (hlt i hi)]
    exact reverse_perm _
  refine hout.trans (List.Perm.map _ ((flatMap_filter_perm hkeys ps).trans ?_))
  -- the words of the chain are those suffixes that are patterns
  apply Perm.of_eq
  apply filter_congr
  intro p hp
  rw [decide_eq_decide]
  obtain ⟨j, hj, hw⟩ := h.spelled p hp
  have hjo : (t.node j).outputs ≠ [] := by
    rw [h.outputs j hj]
    intro hnil
    rw [reverse_eq_nil_iff, map_eq_nil_iff, filter_eq_nil_iff] at hnil
    exact hnil p hp (by simpa using hw.symm)
  constructor
  · intro hmem
    obtain ⟨i, hi, hword⟩ := List.mem_map.mp hmem
    rw [← hword]
    obtain rfl | hi := mem_cons.mp hi
    · exact hs.suffix
    · exact (suffix_of_suffix_tail ((hbelow i).mp hi).2.1).trans hs.suffix
  · intro hsuffix
    rw [← hw] at hsuffix ⊢
    refine List.mem_map.mpr ⟨j, ?_, rfl⟩
    have hsj := hs.suffix_of_suffix hj hsuffix
    by_cases heq : word j = word s
    · rw [h.trie.inj j s hj hs.lt heq]
      exact mem_cons_self
    · exact mem_cons_of_mem _ ((hbelow j).mpr ⟨hj, suffix_tail_of_ne hsj heq, hjo⟩)

end AhoCorasick
