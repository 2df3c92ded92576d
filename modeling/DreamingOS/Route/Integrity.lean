import DreamingOS.Route.Table
import Mathlib.Data.List.Induction
import Mathlib.Data.List.TakeWhile

namespace DreamingOS.Route

open List Option
open RouteRule (prio)
open Function (update update_self update_of_ne)

/-!
# Policy routes — when the two tables stay in step

* `Paired` — what always holds: the rules are sorted by strictly increasing prio, and the slots in
  use are those of their prios;
* `Sound` — the flags of the slots are the given ones, and a free slot has flags only when it is
  the first one and stands for an installed rule of prio zero;
* `Disturbs` — the operations that take or move that slot away from a rule of prio zero;
* `integrity_iff` — **the tables are intact throughout a run iff no operation disturbs them**.

Free slots have the key zero, and zero is a prio like any other to the code.
-/

/-! ### First slots -/

section
variable {p q : ℕ} {f : Slot → Slot} {flags : UInt32} {slots slots' : List Slot}

theorem replaceFirst_eq_some (h : replaceFirst p f slots = some slots') :
    ∃ front s back, slots = front ++ s :: back ∧ s.prio = p ∧ (∀ x ∈ front, x.prio ≠ p) ∧
      slots' = front ++ f s :: back := by
  induction slots generalizing slots' with
  | nil => cases h
  | cons s slots ih =>
    unfold replaceFirst at h
    by_cases hs : s.prio = p
    · rw [if_pos hs] at h
      cases h
      exact ⟨[], s, slots, rfl, hs, by simp, rfl⟩
    rw [if_neg hs] at h
    obtain ⟨rest, hrest, rfl⟩ := map_eq_some_iff.mp h
    obtain ⟨front, x, back, rfl, hx, hfront, rfl⟩ := ih hrest
    refine ⟨s :: front, x, back, rfl, hx, ?_, rfl⟩
    intro y hy
    rcases mem_cons.mp hy with rfl | hy
    · exact hs
    · exact hfront y hy

theorem replaceFirst_eq_none (h : replaceFirst p f slots = none) : ∀ s ∈ slots, s.prio ≠ p := by
  induction slots with
  | nil => simp
  | cons s slots ih =>
    unfold replaceFirst at h
    by_cases hs : s.prio = p
    · rw [if_pos hs] at h
      cases h
    rw [if_neg hs, map_eq_none_iff] at h
    intro x hx
    rcases mem_cons.mp hx with rfl | hx
    · exact hs
    · exact ih h x hx

theorem enhancements_append {front : List Slot} (h : ∀ x ∈ front, x.prio ≠ p) (back : List Slot) :
    enhancements p (front ++ back) = enhancements p back := by
  induction front with
  | nil => rfl
  | cons s front ih =>
    rw [cons_append, enhancements, if_neg (h s mem_cons_self),
      ih fun x hx => h x (mem_cons_of_mem _ hx)]

theorem enhancements_of_notMem (h : ∀ x ∈ slots, x.prio ≠ p) : enhancements p slots = 0 := by
  rw [← append_nil slots, enhancements_append h]
  rfl

/-- The prios of the slots in use. -/
def used (slots : List Slot) : List ℕ := (slots.map Slot.prio).filter (· ≠ 0)

/-- The free slots. -/
def free (slots : List Slot) : List Slot := slots.filter (·.prio = 0)

theorem used_append (front back : List Slot) : used (front ++ back) = used front ++ used back := by
  simp [used]

theorem free_append (front back : List Slot) : free (front ++ back) = free front ++ free back := by
  simp [free]

theorem used_cons (s : Slot) (slots : List Slot) :
    used (s :: slots) = if s.prio = 0 then used slots else s.prio :: used slots := by
  by_cases h : s.prio = 0 <;> simp [used, h]

theorem free_cons (s : Slot) (slots : List Slot) :
    free (s :: slots) = if s.prio = 0 then s :: free slots else free slots := by
  by_cases h : s.prio = 0 <;> simp [free, h]

theorem free_eq_nil (h : ∀ x ∈ slots, x.prio ≠ 0) : free slots = [] := by
  simpa [free] using h

theorem length_used_add_free (slots : List Slot) :
    (used slots).length + (free slots).length = slots.length := by
  induction slots with
  | nil => rfl
  | cons s slots ih =>
    rw [used_cons, free_cons]
    by_cases h : s.prio = 0
    · rw [if_pos h, if_pos h, length_cons, length_cons]
      omega
    · rw [if_neg h, if_neg h, length_cons, length_cons]
      omega

/-- Prio zero is answered by the first free slot. -/
theorem enhancements_zero (slots : List Slot) :
    enhancements 0 slots = ((free slots).head?.map Slot.flags).getD 0 := by
  induction slots with
  | nil => rfl
  | cons s slots ih =>
    rw [enhancements, free_cons]
    by_cases h : s.prio = 0
    · rw [if_pos h, if_pos h]
      rfl
    · rw [if_neg h, if_neg h, ih]

/-- A prio in use is answered by its slot. -/
theorem enhancements_of_mem (hnodup : (used slots).Nodup) {s : Slot} (hs : s ∈ slots)
    (hp : s.prio ≠ 0) : enhancements s.prio slots = s.flags := by
  induction slots with
  | nil => cases hs
  | cons x slots ih =>
    rw [enhancements]
    rw [used_cons] at hnodup
    rcases mem_cons.mp hs with rfl | hmem
    · rw [if_pos rfl]
    by_cases hx : x.prio = s.prio
    · -- the slot in front would be a second one of this prio
      rw [if_neg (hx ▸ hp), nodup_cons, hx] at hnodup
      exact absurd (by simp [used, hp]; exact ⟨s, hmem, rfl⟩) hnodup.1
    rw [if_neg hx]
    apply ih _ hmem
    by_cases hzero : x.prio = 0
    · rwa [if_pos hzero] at hnodup
    · rw [if_neg hzero] at hnodup
      exact hnodup.of_cons

end

/-! ### Rules -/

theorem shiftKey_eq (key : RouteRule) (rules : List RouteRule) :
    shiftKey key rules = rules.orderedInsert (fun a b => b.prio ≤ a.prio) key := by
  induction rules with
  | nil => rfl
  | cons r rules ih =>
    rw [shiftKey, orderedInsert_cons, ih]
    by_cases h : key.prio < r.prio
    · rw [if_pos h, if_neg (by omega)]
    · rw [if_neg h, if_pos (by omega)]

theorem sortRules_eq (rules : List RouteRule) :
    sortRules rules = (rules.reverse.insertionSort (fun a b => b.prio ≤ a.prio)).reverse := by
  unfold sortRules List.insertionSort
  rw [foldr_reverse]
  simp only [shiftKey_eq]

theorem sortRules_perm (rules : List RouteRule) : (sortRules rules).Perm rules := by
  rw [sortRules_eq]
  exact (reverse_perm _).trans ((perm_insertionSort _ _).trans (reverse_perm _))

variable {rules : List RouteRule}

/-- Rules of distinct prios are sorted by strictly increasing prio. -/
theorem sortRules_sorted (h : (rules.map prio).Nodup) :
    (sortRules rules).Pairwise (fun a b => a.prio < b.prio) := by
  have hle : (sortRules rules).Pairwise (fun a b => a.prio ≤ b.prio) := by
    rw [sortRules_eq, pairwise_reverse]
    have : Std.Total (fun a b : RouteRule => b.prio ≤ a.prio) := ⟨fun a b => Nat.le_total _ _⟩
    have : IsTrans RouteRule (fun a b => b.prio ≤ a.prio) := ⟨fun _ _ _ h h' => h'.trans h⟩
    exact pairwise_insertionSort _ _
  have hne : (sortRules rules).Pairwise (fun a b => a.prio ≠ b.prio) := by
    have hnodup : ((sortRules rules).map prio).Nodup :=
      ((sortRules_perm rules).map _).nodup_iff.mpr h
    exact pairwise_map.mp hnodup
  exact (hle.and hne).imp fun h => lt_of_le_of_ne h.1 h.2

theorem nodup_of_sorted
    (h : rules.Pairwise (fun a b => a.prio < b.prio)) : (rules.map prio).Nodup :=
  pairwise_map.mpr (h.imp fun hlt => hlt.ne)

variable {rule : RouteRule}

theorem replaceRule_eq_some {rules rules' : List RouteRule}
    (h : replaceRule rule rules = some rules') :
    rules'.map prio = rules.map prio ∧
      rule.prio ∈ rules.map prio := by
  induction rules generalizing rules' with
  | nil => cases h
  | cons r rules ih =>
    unfold replaceRule at h
    by_cases hr : r.prio = rule.prio
    · rw [if_pos hr] at h
      cases h
      simp [RouteRule.replacing, hr]
    · rw [if_neg hr] at h
      obtain ⟨rest, hrest, rfl⟩ := map_eq_some_iff.mp h
      obtain ⟨hmap, hmem⟩ := ih hrest
      exact ⟨by rw [map_cons, map_cons, hmap], mem_cons_of_mem _ hmem⟩

theorem replaceRule_eq_none
    (h : replaceRule rule rules = none) : rule.prio ∉ rules.map prio := by
  induction rules with
  | nil => simp
  | cons r rules ih =>
    unfold replaceRule at h
    by_cases hr : r.prio = rule.prio
    · rw [if_pos hr] at h
      cases h
    rw [if_neg hr, map_eq_none_iff] at h
    rw [map_cons, mem_cons]
    rintro (heq | hmem)
    · exact hr heq.symm
    · exact ih h hmem

theorem removeRule_eq_some {p : ℕ} {rules rules' : List RouteRule}
    (h : removeRule p rules = some rules') :
    ∃ front r back, rules = front ++ r :: back ∧ r.prio = p ∧ rules' = front ++ back := by
  induction rules generalizing rules' with
  | nil => cases h
  | cons r rules ih =>
    unfold removeRule at h
    by_cases hr : r.prio = p
    · rw [if_pos hr] at h
      cases h
      exact ⟨[], r, rules, rfl, hr, rfl⟩
    · rw [if_neg hr] at h
      obtain ⟨rest, hrest, rfl⟩ := map_eq_some_iff.mp h
      obtain ⟨front, x, back, rfl, hx, rfl⟩ := ih hrest
      exact ⟨r :: front, x, back, rfl, hx, rfl⟩

theorem removeRule_eq_none {p : ℕ} (h : removeRule p rules = none) :
    p ∉ rules.map prio := by
  induction rules with
  | nil => simp
  | cons r rules ih =>
    unfold removeRule at h
    by_cases hr : r.prio = p
    · rw [if_pos hr] at h
      cases h
    rw [if_neg hr, map_eq_none_iff] at h
    rw [map_cons, mem_cons]
    rintro (heq | hmem)
    · exact hr heq.symm
    · exact ih h hmem

/-! ### The pairing -/

/-- The rules are sorted and bounded in number, and the slots in use are those of their prios. -/
structure Paired (t : Tables) : Prop where
  sorted : t.rules.Pairwise (fun a b => a.prio < b.prio)
  bounded : t.rules.length ≤ JMX_MAX_ROUTE_RULES
  slots : t.slots.length = JMX_MAX_ROUTE_RULES
  perm : (used t.slots).Perm ((t.rules.map prio).filter (· ≠ 0))

/-- The rule of this prio is installed. -/
def Installed (t : Tables) (p : ℕ) : Prop := p ∈ t.rules.map prio

section
variable {t : Tables} {p : ℕ} {flags : UInt32}
variable {slots : List Slot}

theorem mem_used (hp : p ≠ 0) : p ∈ used slots ↔ ∃ s ∈ slots, s.prio = p := by
  simp [used, hp]

theorem Paired.nodup (h : Paired t) : (used t.slots).Nodup :=
  h.perm.nodup_iff.mpr ((nodup_of_sorted h.sorted).filter _)

theorem Paired.slot_iff (h : Paired t) (hp : p ≠ 0) :
    (∃ s ∈ t.slots, s.prio = p) ↔ Installed t p := by
  rw [← mem_used hp, h.perm.mem_iff, mem_filter]
  simp [Installed, hp]

/-- While a rule can be added, or the rule of prio zero is installed, some slot is free. -/
theorem Paired.exists_free (h : Paired t)
    (hroom : t.rules.length < JMX_MAX_ROUTE_RULES ∨ Installed t 0) : ∃ s ∈ t.slots, s.prio = 0 := by
  have hlen := length_used_add_free t.slots
  have hused : (used t.slots).length < JMX_MAX_ROUTE_RULES := by
    rw [h.perm.length_eq]
    rcases hroom with hlt | hzero
    · refine lt_of_le_of_lt (length_filter_le _ _) ?_
      rwa [length_map]
    · refine lt_of_lt_of_le ?_ h.bounded
      rw [← length_map prio]
      exact length_filter_lt_length_iff_exists.mpr ⟨0, hzero, by simp⟩
  have hfree : free t.slots ≠ [] := by
    intro hnil
    rw [hnil, h.slots, length_nil] at hlen
    omega
  obtain ⟨s, hs⟩ := exists_mem_of_ne_nil _ hfree
  exact ⟨s, (mem_filter.mp hs).1, by simpa using (mem_filter.mp hs).2⟩

/-- A slot of the prio, or a free one, can be found. -/
theorem Paired.exists_slot (h : Paired t)
    (hroom : t.rules.length < JMX_MAX_ROUTE_RULES ∨ Installed t p) :
    (∃ s ∈ t.slots, s.prio = p) ∨ p ≠ 0 ∧ ∃ s ∈ t.slots, s.prio = 0 := by
  by_cases hp : p = 0
  · subst hp
    exact .inl (h.exists_free hroom)
  rcases hroom with hlt | hin
  · exact .inr ⟨hp, h.exists_free (.inl hlt)⟩
  · exact .inl ((h.slot_iff hp).mpr hin)

/-- Where the flags of a prio are stored: in its slot, or in the first free one. -/
theorem setEnhancements_cases (flags : UInt32)
    (hslot : (∃ s ∈ slots, s.prio = p) ∨ p ≠ 0 ∧ ∃ s ∈ slots, s.prio = 0) :
    ∃ front s back, slots = front ++ s :: back ∧ ((s.prio = p ∧ (∀ x ∈ front, x.prio ≠ p) ∧
          setEnhancements p flags slots = .ok (front ++ ⟨p, flags⟩ :: back)) ∨
        (p ≠ 0 ∧ (∀ x ∈ slots, x.prio ≠ p) ∧ s.prio = 0 ∧ (∀ x ∈ front, x.prio ≠ 0) ∧
          setEnhancements p flags slots = .ok (front ++ ⟨p, flags⟩ :: back))) := by
  unfold setEnhancements
  cases hfirst : replaceFirst p (fun s => { s with flags := flags }) slots with
  | some slots' =>
    obtain ⟨front, s, back, hsplit, hs, hfront, rfl⟩ := replaceFirst_eq_some hfirst
    refine ⟨front, s, back, hsplit, .inl ⟨hs, hfront, ?_⟩⟩
    rw [hs]
  | none =>
    have hno := replaceFirst_eq_none hfirst
    rcases hslot with ⟨s, hs, heq⟩ | ⟨hp, s, hs, hzero⟩
    · exact absurd heq (hno s hs)
    cases hfree : replaceFirst 0 (fun _ => ⟨p, flags⟩) slots with
    | some slots' =>
      obtain ⟨front, s, back, hsplit, hs, hfront, rfl⟩ := replaceFirst_eq_some hfree
      exact ⟨front, s, back, hsplit, .inr ⟨hp, hno, hs, hfront, rfl⟩⟩
    | none => exact absurd hzero (replaceFirst_eq_none hfree s hs)

theorem Paired.added
    (hnodup : (rules.map prio).Nodup) (hlen : rules.length ≤ JMX_MAX_ROUTE_RULES)
    (hslots : slots.length = JMX_MAX_ROUTE_RULES)
    (hperm : (used slots).Perm ((rules.map prio).filter (· ≠ 0))) :
    Paired (t.added rules slots) where
  sorted := sortRules_sorted hnodup
  bounded := by
    show (sortRules rules).length ≤ _
    rwa [(sortRules_perm rules).length_eq]
  slots := hslots
  perm := hperm.trans ((((sortRules_perm rules).map prio).filter _).symm)

theorem installed_added : Installed (t.added rules slots) p ↔ p ∈ rules.map prio :=
  ((sortRules_perm rules).map prio).mem_iff

end

/-! ### One operation -/

/-- What an addition does to paired tables: nothing, or it replaces the rule of its prio and the
    flags in its slot, or it adds the rule and takes the first free slot. -/
inductive AddEffect (rule : RouteRule) (flags : UInt32) (t : Tables) : Tables → Option Errno → Prop
  | refused (e : Errno)
      (hwhy : addBad rule flags ∨ JMX_MAX_ROUTE_RULES ≤ t.rules.length ∧ ¬ Installed t rule.prio) :
      AddEffect rule flags t t (some e)
  | replaced (rules : List RouteRule) (front : List Slot) (s : Slot) (back : List Slot)
      (hin : Installed t rule.prio)
      (hrules : rules.map prio = t.rules.map prio)
      (hsplit : t.slots = front ++ s :: back) (hs : s.prio = rule.prio)
      (hfront : ∀ x ∈ front, x.prio ≠ rule.prio) :
      AddEffect rule flags t (t.added rules (front ++ ⟨rule.prio, flags⟩ :: back)) none
  | inserted (front : List Slot) (s : Slot) (back : List Slot) (hgood : ¬ addBad rule flags)
      (hroom : t.rules.length < JMX_MAX_ROUTE_RULES) (hnew : ¬ Installed t rule.prio)
      (hsplit : t.slots = front ++ s :: back) (hs : s.prio = 0) (hfront : ∀ x ∈ front, x.prio ≠ 0) :
      AddEffect rule flags t
        (t.added (t.rules ++ [rule]) (front ++ ⟨rule.prio, flags⟩ :: back)) none

theorem add_effect {t : Tables} (h : Paired t) (rule : RouteRule) (flags : UInt32) :
    AddEffect rule flags t (ruleAddWithEnhancements rule flags t).1
      (ruleAddWithEnhancements rule flags t).2 := by
  unfold ruleAddWithEnhancements
  by_cases hbad : addBad rule flags
  · rw [if_pos hbad]
    exact AddEffect.refused _ (.inl hbad)
  rw [if_neg hbad]
  cases hrules : replaceRule rule t.rules with
  | some rules =>
    obtain ⟨hprios, hin⟩ := replaceRule_eq_some hrules
    obtain ⟨front, s, back, hsplit, ⟨hs, hfront, hset⟩ | ⟨hp, hno, -⟩⟩ :=
      setEnhancements_cases flags (h.exists_slot (.inr hin))
    · simp only [hset]
      exact AddEffect.replaced rules front s back hin hprios hsplit hs hfront
    · -- an installed prio has its slot
      obtain ⟨s', hs', heq⟩ := (h.slot_iff hp).mpr hin
      exact absurd heq (hno s' hs')
  | none =>
    have hnew := replaceRule_eq_none hrules
    dsimp only
    by_cases hroom : JMX_MAX_ROUTE_RULES ≤ t.rules.length
    · rw [if_pos hroom]
      exact AddEffect.refused _ (.inr ⟨hroom, hnew⟩)
    rw [if_neg hroom]
    obtain ⟨front, s, back, hsplit, ⟨hs, hfront, hset⟩ | ⟨hp, hno, hs, hfront, hset⟩⟩ :=
      setEnhancements_cases flags (h.exists_slot (.inl (not_le.mp hroom)))
    · -- a slot of a prio that is not installed is a free one
      have hzero : rule.prio = 0 := by
        by_contra hp
        exact hnew ((h.slot_iff hp).mp ⟨s, hsplit ▸ by simp, hs⟩)
      simp only [hset]
      exact AddEffect.inserted front s back hbad (not_le.mp hroom) hnew hsplit (hs.trans hzero)
        (hzero ▸ hfront)
    · simp only [hset]
      exact AddEffect.inserted front s back hbad (not_le.mp hroom) hnew hsplit hs hfront

/-- What a deletion does to paired tables. -/
inductive DelEffect (p : ℕ) (t : Tables) : Tables → Prop
  | missing (hno : ¬ Installed t p) : DelEffect p t t
  | deleted (above : List RouteRule) (r : RouteRule) (below : List RouteRule) (front : List Slot)
      (s : Slot) (back : List Slot) (hrules : t.rules = above ++ r :: below) (hr : r.prio = p)
      (hsplit : t.slots = front ++ s :: back) (hs : s.prio = p) (hfront : ∀ x ∈ front, x.prio ≠ p) :
      DelEffect p t { t with
        rules := above ++ below
        slots := front ++ {} :: back
        newFlowSeq := List.replicate JMX_MAX_ROUTE_RULES 0 }

theorem del_effect {t : Tables} (h : Paired t) (p : ℕ) : DelEffect p t (ruleDel p t) := by
  unfold ruleDel
  cases hrules : removeRule p t.rules with
  | none => exact DelEffect.missing (removeRule_eq_none hrules)
  | some rules =>
    obtain ⟨above, r, below, hsplit, hr, rfl⟩ := removeRule_eq_some hrules
    have hin : Installed t p := by simp [Installed, hsplit, hr]
    unfold clearEnhancements
    cases hfirst : replaceFirst p (fun _ => {}) t.slots with
    | some slots =>
      obtain ⟨front, s, back, hslots, hs, hfront, rfl⟩ := replaceFirst_eq_some hfirst
      exact DelEffect.deleted above r below front s back hsplit hr hslots hs hfront
    | none =>
      -- an installed rule has its slot, and one of prio zero a free slot
      have hno := replaceFirst_eq_none hfirst
      rcases h.exists_slot (.inr hin) with ⟨s, hs, heq⟩ | ⟨hp, -⟩
      · exact absurd heq (hno s hs)
      · obtain ⟨s, hs, heq⟩ := (h.slot_iff hp).mpr hin
        exact absurd heq (hno s hs)

/-! ### The pairing is kept -/

theorem used_replaced {front back : List Slot} {s s' : Slot} (h : s'.prio = s.prio) :
    used (front ++ s' :: back) = used (front ++ s :: back) := by
  rw [used_append, used_append, used_cons, used_cons, h]

theorem Paired.add {t t' : Tables} {rc : Option Errno} {flags : UInt32}
    (h : Paired t) (heffect : AddEffect rule flags t t' rc) : Paired t' := by
  cases heffect with
  | refused => exact h
  | replaced rules front s back hin hrules hsplit hs hfront =>
    apply Paired.added
    · rw [hrules]
      exact nodup_of_sorted h.sorted
    · rw [← length_map prio, hrules, length_map]
      exact h.bounded
    · rw [← h.slots, hsplit]
      simp
    · rw [used_replaced hs.symm, ← hsplit, hrules]
      exact h.perm
  | inserted front s back hgood hroom hnew hsplit hs hfront =>
    apply Paired.added
    · rw [map_append, nodup_append]
      refine ⟨nodup_of_sorted h.sorted, by simp, ?_⟩
      intro a ha b hb hab
      rw [map_singleton, mem_singleton] at hb
      exact hnew (hb ▸ hab ▸ ha)
    · rw [length_append]
      exact hroom
    · rw [← h.slots, hsplit]
      simp
    · have hperm : (used (front ++ back)).Perm
          ((t.rules.map prio).filter (· ≠ 0)) := by
        have := h.perm
        rwa [hsplit, used_append, used_cons, if_pos hs, ← used_append] at this
      rw [map_append, filter_append, used_append, used_cons]
      by_cases hp : rule.prio = 0
      · rw [if_pos hp, ← used_append]
        simpa [hp] using hperm
      rw [if_neg hp]
      refine perm_middle.trans ?_
      rw [← used_append]
      refine (hperm.cons _).trans ?_
      simpa [hp] using (perm_append_singleton _ _).symm

theorem Paired.del {t t' : Tables} {p : ℕ} (h : Paired t) (heffect : DelEffect p t t') :
    Paired t' := by
  cases heffect with
  | missing => exact h
  | deleted above r below front s back hrules hr hsplit hs hfront =>
    have hsub : (above ++ below).Sublist t.rules := by
      rw [hrules]
      exact (sublist_cons_self _ _).append_left _
    refine ⟨h.sorted.sublist hsub, hsub.length_le.trans h.bounded, ?_, ?_⟩
    · rw [← h.slots, hsplit]
      simp
    · show (used (front ++ {} :: back)).Perm _
      have hperm := h.perm
      rw [hsplit, hrules, used_append, used_cons, hs, map_append, map_cons, hr,
        filter_append] at hperm
      rw [used_append, used_cons, if_pos rfl, map_append, filter_append]
      by_cases hp : p = 0
      · simpa [hp] using hperm
      · rw [if_neg hp, filter_cons_of_pos (by simpa using hp)] at hperm
        exact ((perm_middle.symm.trans hperm).trans perm_middle).cons_inv

theorem paired_init : Paired {} where
  sorted := List.Pairwise.nil
  bounded := Nat.zero_le _
  slots := length_replicate
  perm := by simp [used]

theorem Paired.step {t : Tables} (h : Paired t) (op : Op) : Paired (Route.step t op).1 := by
  cases op with
  | add rule flags => exact h.add (add_effect h rule flags)
  | del p => exact h.del (del_effect h p)
  | flush => exact paired_init
  | clearHits p =>
    have hprios : (ruleClearHits p t).rules.map prio = t.rules.map prio := by
      simp only [ruleClearHits, List.map_map]
      apply map_congr_left
      intro r _
      simp only [Function.comp]
      split <;> rfl
    refine ⟨?_, ?_, h.slots, ?_⟩
    · apply pairwise_map.mp
      show ((ruleClearHits p t).rules.map prio).Pairwise (· < ·)
      rw [hprios]
      exact pairwise_map.mpr h.sorted
    · show (ruleClearHits p t).rules.length ≤ _
      rw [← length_map prio, hprios, length_map]
      exact h.bounded
    · show (used t.slots).Perm (((ruleClearHits p t).rules.map prio).filter _)
      rw [hprios]
      exact h.perm

theorem paired (ops : List Op) : Paired (run ops).1 := by
  induction ops using List.reverseRecOn with
  | nil => exact paired_init
  | append_singleton ops op ih =>
    rw [run_concat]
    exact ih.step op

/-! ### The flags -/

/-- The slots in use have the given flags.  Prio zero finds the given flags when its rule is
    installed and else none, and every free slot but the first is blank. -/
structure Sound (t : Tables) (given : Given) : Prop where
  flags : ∀ s ∈ t.slots, s.prio ≠ 0 → given s.prio = some s.flags
  zero : Installed t 0 → given 0 = some (enhancements 0 t.slots)
  nothing : ¬ Installed t 0 → enhancements 0 t.slots = 0
  blank : ∀ s ∈ (free t.slots).tail, s.flags = 0

/-- **What disturbs the tables**: while prio zero finds flags, to add a rule with a prio that is
    neither zero nor installed, or to delete a rule whose slot lies in front of every free one. -/
def Disturbs (t : Tables) : Op → Prop
  | .add rule flags =>
    ¬ addBad rule flags ∧ t.rules.length < JMX_MAX_ROUTE_RULES ∧ ¬ Installed t rule.prio ∧
      rule.prio ≠ 0 ∧ enhancements 0 t.slots ≠ 0
  | .del p =>
    Installed t p ∧ p ≠ 0 ∧ enhancements 0 t.slots ≠ 0 ∧
      p ∈ (t.slots.takeWhile (·.prio ≠ 0)).map Slot.prio
  | .clearHits _ | .flush => False

/-- What the tables promise: sorted unique prios, a bounded number of rules, for every installed
    rule the flags of its last successful addition, and none for any other prio. -/
structure Intact (t : Tables) (given : Given) : Prop where
  sorted : t.rules.Pairwise (fun a b => a.prio < b.prio)
  bounded : t.rules.length ≤ JMX_MAX_ROUTE_RULES
  installed : ∀ r ∈ t.rules, given r.prio = some (enhancements r.prio t.slots)
  gone : ∀ p, ¬ Installed t p → enhancements p t.slots = 0

theorem Sound.intact {t : Tables} {given : Given} (h : Paired t) (hsound : Sound t given) :
    Intact t given where
  sorted := h.sorted
  bounded := h.bounded
  installed := by
    intro r hr
    have hin : Installed t r.prio := List.mem_map_of_mem hr
    by_cases hp : r.prio = 0
    · rw [hp] at hin ⊢
      exact hsound.zero hin
    obtain ⟨s, hs, heq⟩ := (h.slot_iff hp).mpr hin
    rw [← heq, enhancements_of_mem h.nodup hs (heq ▸ hp)]
    exact hsound.flags s hs (heq ▸ hp)
  gone := by
    intro p hno
    by_cases hp : p = 0
    · subst hp
      exact hsound.nothing hno
    apply enhancements_of_notMem
    intro s hs heq
    exact hno ((h.slot_iff hp).mp ⟨s, hs, heq⟩)

theorem Paired.slot_unique {t : Tables} (h : Paired t) {front back : List Slot} {s : Slot} {p : ℕ}
    (hsplit : t.slots = front ++ s :: back) (hs : s.prio = p) (hfront : ∀ x ∈ front, x.prio ≠ p)
    (hp : p ≠ 0) {x : Slot} (hx : x ∈ t.slots) (hxp : x.prio = p) : x.flags = s.flags := by
  rw [← enhancements_of_mem h.nodup hx (hxp ▸ hp), hxp, hsplit, enhancements_append hfront,
    enhancements, if_pos hs]

/-- A replaced slot changes nothing else. -/
theorem mem_replaced {front back : List Slot} {s s' x : Slot} (hx : x ∈ front ++ s' :: back) :
    x = s' ∨ x ∈ front ++ s :: back := by
  rcases mem_append.mp hx with hx | hx
  · exact .inr (mem_append_left _ hx)
  rcases mem_cons.mp hx with rfl | hx
  · exact .inl rfl
  · exact .inr (mem_append_right _ (mem_cons_of_mem _ hx))

section
variable {t : Tables} {given : Given} {front back : List Slot} {s : Slot} {p : ℕ} {flags : UInt32}
  {rules : List RouteRule}

/-- Flags stored in the slot of their prio. -/
theorem Sound.stored (hsound : Sound t given) (hsplit : t.slots = front ++ s :: back)
    (hs : s.prio = p) (hfront : ∀ x ∈ front, x.prio ≠ p)
    (hin : ∀ q, q ∈ rules.map prio ↔ Installed t q ∨ q = p)
    (h' : Paired (t.added rules (front ++ ⟨p, flags⟩ :: back))) :
    Sound (t.added rules (front ++ ⟨p, flags⟩ :: back)) (update given p (some flags)) := by
  have hself : enhancements p (front ++ ⟨p, flags⟩ :: back) = flags := by
    rw [enhancements_append hfront, enhancements, if_pos rfl]
  -- the free slots stay, but for the flags of the first one when it is the slot of prio zero
  have hfree : p ≠ 0 → free (front ++ ⟨p, flags⟩ :: back) = free t.slots := by
    intro hp
    rw [hsplit, free_append, free_append, free_cons, free_cons, if_neg hp, if_neg (hs ▸ hp)]
  refine ⟨?_, ?_, ?_, ?_⟩
  · intro x hx hne
    by_cases hxp : x.prio = p
    · rw [hxp, update_self]
      exact congrArg some (h'.slot_unique rfl rfl hfront (hxp ▸ hne) hx hxp).symm
    rw [update_of_ne hxp]
    rcases mem_replaced (s := s) hx with rfl | hx
    · exact absurd rfl hxp
    · exact hsound.flags x (hsplit ▸ hx) hne
  · intro hzero
    show _ = some (enhancements 0 (front ++ ⟨p, flags⟩ :: back))
    by_cases hp : p = 0
    · rw [← hp, hself, update_self]
    rw [enhancements_zero, hfree hp, ← enhancements_zero, update_of_ne (Ne.symm hp)]
    rcases (hin 0).mp (installed_added.mp hzero) with hzero | heq
    · exact hsound.zero hzero
    · exact absurd heq.symm hp
  · intro hno
    show enhancements 0 (front ++ ⟨p, flags⟩ :: back) = 0
    have hno' : ¬ (Installed t 0 ∨ 0 = p) := fun h => hno (installed_added.mpr ((hin 0).mpr h))
    have hp : p ≠ 0 := fun h => hno' (.inr h.symm)
    rw [enhancements_zero, hfree hp, ← enhancements_zero]
    exact hsound.nothing fun h => hno' (.inl h)
  · show ∀ x ∈ (free (front ++ ⟨p, flags⟩ :: back)).tail, x.flags = 0
    by_cases hp : p = 0
    · subst hp
      have hblank := hsound.blank
      rw [hsplit, free_append, free_eq_nil hfront, free_cons, if_pos hs] at hblank
      rw [free_append, free_eq_nil hfront, free_cons, if_pos rfl]
      exact hblank
    · rw [hfree hp]
      exact hsound.blank

/-- Behind the first free slot all free slots are blank. -/
theorem Sound.blank_behind (hsound : Sound t given) (hsplit : t.slots = front ++ s :: back)
    (hs : s.prio = 0) (hfront : ∀ x ∈ front, x.prio ≠ 0) : ∀ x ∈ free back, x.flags = 0 := by
  have hblank := hsound.blank
  rw [hsplit, free_append, free_eq_nil hfront, free_cons, if_pos hs] at hblank
  exact hblank

theorem enhancements_zero_of_blank {slots : List Slot} (h : ∀ x ∈ free slots, x.flags = 0) :
    enhancements 0 slots = 0 := by
  rw [enhancements_zero]
  cases hfree : free slots with
  | nil => rfl
  | cons x xs => exact h x (hfree ▸ mem_cons_self)

/-- When the first free slot is taken by another prio, prio zero finds nothing. -/
theorem Sound.taken (hsound : Sound t given) (hsplit : t.slots = front ++ s :: back)
    (hs : s.prio = 0) (hfront : ∀ x ∈ front, x.prio ≠ 0) (hp : p ≠ 0) :
    free (front ++ ⟨p, flags⟩ :: back) = free back ∧
      enhancements 0 (front ++ ⟨p, flags⟩ :: back) = 0 := by
  have hfree : free (front ++ ⟨p, flags⟩ :: back) = free back := by
    rw [free_append, free_eq_nil hfront, free_cons, if_neg hp, nil_append]
  refine ⟨hfree, enhancements_zero_of_blank ?_⟩
  rw [hfree]
  exact hsound.blank_behind hsplit hs hfront

end

theorem Sound.add {t t' : Tables} {rc : Option Errno} {given : Given}
    {flags : UInt32} (h : Paired t) (hsound : Sound t given)
    (heffect : AddEffect rule flags t t' rc) (hno : ¬ Disturbs t (.add rule flags)) :
    Sound t' (record rc (.add rule flags) given) := by
  have h' := h.add heffect
  cases heffect with
  | refused => exact hsound
  | replaced rules front s back hin hrules hsplit hs hfront =>
    show Sound _ (update given rule.prio (some flags))
    refine hsound.stored hsplit hs hfront (fun q => ?_) h'
    rw [hrules]
    exact ⟨Or.inl, fun hq => hq.elim id fun heq => heq ▸ hin⟩
  | inserted front s back hgood hroom hnew hsplit hs hfront =>
    show Sound _ (update given rule.prio (some flags))
    have hin : ∀ q, q ∈ (t.rules ++ [rule]).map prio ↔ Installed t q ∨ q = rule.prio := by
      intro q
      rw [map_append, mem_append, map_singleton, mem_singleton]
      rfl
    by_cases hp : rule.prio = 0
    · exact hsound.stored hsplit (hs.trans hp.symm) (hp ▸ hfront) hin h'
    -- the first free slot is taken, and was blank
    have hnone : enhancements 0 t.slots = 0 := by
      by_contra hne
      exact hno ⟨hgood, hroom, hnew, hp, hne⟩
    have htaken : free (front ++ ⟨rule.prio, flags⟩ :: back) = free back ∧
        enhancements 0 (front ++ ⟨rule.prio, flags⟩ :: back) = 0 :=
      hsound.taken hsplit hs hfront hp
    obtain ⟨hfree, hzero⟩ := htaken
    refine ⟨?_, ?_, fun _ => hzero, ?_⟩
    · intro x hx hne
      rcases mem_replaced (s := s) hx with rfl | hx
      · exact update_self _ _ _
      · have hx' : x ∈ t.slots := hsplit ▸ hx
        have hxp : x.prio ≠ rule.prio := fun heq => hnew ((h.slot_iff hp).mp ⟨x, hx', heq⟩)
        rw [update_of_ne hxp]
        exact hsound.flags x hx' hne
    · intro hin0
      show _ = some (enhancements 0 (front ++ ⟨rule.prio, flags⟩ :: back))
      rw [update_of_ne (Ne.symm hp), hzero, ← hnone]
      rcases (hin 0).mp (installed_added.mp hin0) with hin0 | heq
      · exact hsound.zero hin0
      · exact absurd heq.symm hp
    · show ∀ x ∈ (free (front ++ ⟨rule.prio, flags⟩ :: back)).tail, x.flags = 0
      rw [hfree]
      exact fun x hx => hsound.blank_behind hsplit hs hfront x (mem_of_mem_tail hx)

/-- A slot lies in front of every free one iff no free one lies in front of it. -/
theorem mem_takeWhile_iff {front back : List Slot} {s : Slot} {p : ℕ} (hs : s.prio = p)
    (hp : p ≠ 0) (hfront : ∀ x ∈ front, x.prio ≠ p) :
    p ∈ ((front ++ s :: back).takeWhile (·.prio ≠ 0)).map Slot.prio ↔ ∀ x ∈ front, x.prio ≠ 0 := by
  constructor
  · intro hmem x hx hzero
    obtain ⟨y, hy, hyp⟩ := List.mem_map.mp hmem
    rw [takeWhile_append] at hy
    have hshort : ¬ (front.takeWhile (·.prio ≠ 0)).length = front.length := by
      intro hlen
      have hall : front.takeWhile (·.prio ≠ 0) = front := ( takeWhile_prefix _).eq_of_length hlen
      have hmem' : x ∈ front.takeWhile (·.prio ≠ 0) := hall.symm ▸ hx
      simpa [hzero] using mem_takeWhile_imp hmem'
    rw [if_neg hshort] at hy
    exact hfront y (( takeWhile_prefix _).subset hy) hyp
  · intro hall
    rw [takeWhile_append_of_pos (by simpa using hall),
      takeWhile_cons_of_pos (by simpa [hs] using hp)]
    simp [hs]

theorem Sound.del {t t' : Tables} {given : Given} {p : ℕ} (h : Paired t) (hsound : Sound t given)
    (heffect : DelEffect p t t') (hno : ¬ Disturbs t (.del p)) : Sound t' given := by
  cases heffect with
  | missing => exact hsound
  | deleted above r below front s back hrules hr hsplit hs hfront =>
    have hin : ∀ q, q ≠ p → (q ∈ (above ++ below).map prio ↔ Installed t q) := by
      intro q hq
      simp [Installed, hrules, hr, hq]
    have hflags : ∀ x ∈ front ++ {} :: back, x.prio ≠ 0 → given x.prio = some x.flags := by
      intro x hx hne
      rcases mem_replaced (s := s) hx with rfl | hx
      · exact absurd rfl hne
      · exact hsound.flags x (hsplit ▸ hx) hne
    by_cases hp : p = 0
    · subst hp
      have hzero : enhancements 0 (front ++ {} :: back) = 0 := by
        rw [enhancements_append hfront]
        rfl
      have hgone : 0 ∉ (above ++ below).map prio := by
        have hnodup := nodup_of_sorted h.sorted
        rw [hrules, map_append, map_cons, hr] at hnodup
        rw [map_append]
        exact (nodup_middle.mp hnodup).notMem
      refine ⟨hflags, fun hin0 => absurd hin0 hgone, fun _ => hzero, ?_⟩
      show ∀ x ∈ (free (front ++ {} :: back)).tail, x.flags = 0
      rw [free_append, free_eq_nil hfront, free_cons, if_pos rfl]
      exact hsound.blank_behind hsplit hs hfront
    -- the free slots gain a blank one, which is the first only when prio zero finds nothing
    have hfree : free t.slots = free front ++ free back := by
      rw [hsplit, free_append, free_cons, if_neg (hs ▸ hp)]
    have hfree' : free (front ++ {} :: back) = free front ++ {} :: free back := by
      rw [free_append, free_cons, if_pos rfl]
    have hkeep : enhancements 0 (front ++ {} :: back) = enhancements 0 t.slots ∧
        ∀ x ∈ (free (front ++ {} :: back)).tail, x.flags = 0 := by
      rw [enhancements_zero, enhancements_zero, hfree, hfree']
      have hblank := hsound.blank
      rw [hfree] at hblank
      cases hfronts : free front with
      | cons z zs =>
        rw [hfronts] at hblank
        refine ⟨rfl, ?_⟩
        intro x hx
        rcases mem_append.mp hx with hx | hx
        · exact hblank x (mem_append_left _ hx)
        rcases mem_cons.mp hx with rfl | hx
        · rfl
        · exact hblank x (mem_append_right _ hx)
      | nil =>
        have hall : ∀ x ∈ front, x.prio ≠ 0 := by simpa [free] using hfronts
        have hin0 : Installed t p := by simp [Installed, hrules, hr]
        have hnone : enhancements 0 t.slots = 0 := by
          by_contra hne
          refine hno ⟨hin0, hp, hne, ?_⟩
          rw [hsplit]
          exact (mem_takeWhile_iff hs hp hfront).mpr hall
        rw [hfronts] at hblank
        rw [enhancements_zero, hfree, hfronts] at hnone
        refine ⟨hnone.symm, ?_⟩
        intro x hx
        cases hback : free back with
        | nil =>
          rw [hback] at hx
          cases hx
        | cons z zs =>
          rw [hback] at hx hblank hnone
          rcases mem_cons.mp hx with rfl | hx
          · exact hnone
          · exact hblank x hx
    refine ⟨hflags, fun hin0 => ?_, fun hin0 => ?_, hkeep.2⟩
    · show _ = some (enhancements 0 (front ++ {} :: back))
      rw [hkeep.1]
      exact hsound.zero ((hin 0 (Ne.symm hp)).mp hin0)
    · show enhancements 0 (front ++ {} :: back) = 0
      rw [hkeep.1]
      exact hsound.nothing fun h0 => hin0 ((hin 0 (Ne.symm hp)).mpr h0)

/-- Empty tables are sound, whatever was given before. -/
theorem sound_empty (given : Given) : Sound {} given where
  flags := by
    intro s hs hne
    exact absurd (congrArg Slot.prio (eq_of_mem_replicate hs)) hne
  zero := fun h => absurd h (by simp [Installed])
  nothing := fun _ => by
    apply enhancements_zero_of_blank
    intro s hs
    rw [eq_of_mem_replicate (mem_filter.mp hs).1]
  blank := by
    intro s hs
    rw [eq_of_mem_replicate (mem_filter.mp (mem_of_mem_tail hs)).1]

/-- An operation that does not disturb sound tables leaves them sound. -/
theorem Sound.step {t : Tables} {given : Given} (h : Paired t) (hsound : Sound t given) {op : Op}
    (hno : ¬ Disturbs t op) :
    Sound (Route.step t op).1 (record (Route.step t op).2 op given) := by
  cases op with
  | add rule flags => exact hsound.add h (add_effect h rule flags) hno
  | del p => exact hsound.del h (del_effect h p) hno
  | flush => exact sound_empty given
  | clearHits p =>
    have hin : ∀ q, Installed (ruleClearHits p t) q ↔ Installed t q := by
      intro q
      simp only [Installed, ruleClearHits, List.map_map]
      have hprio : (prio ∘ fun r : RouteRule =>
          if p ≠ 0 ∧ r.prio ≠ p then r else { r with hitCount := 0, lastHitJiffies := 0 })
          = prio := by
        ext1 r
        simp only [Function.comp]
        split <;> rfl
      rw [hprio]
    exact ⟨hsound.flags, fun h0 => hsound.zero ((hin 0).mp h0),
      fun h0 => hsound.nothing fun h => h0 ((hin 0).mpr h), hsound.blank⟩

/-- An operation that disturbs sound tables leaves them broken: the rule of prio zero is still
    installed, and its flags are gone. -/
theorem Sound.broken {t : Tables} {given : Given} (h : Paired t) (hsound : Sound t given) {op : Op}
    (hdisturbs : Disturbs t op) :
    ¬ Intact (Route.step t op).1 (record (Route.step t op).2 op given) := by
  -- what has to be shown of the tables after the operation
  have hlost : ∀ (t' : Tables) (given' : Given), enhancements 0 t.slots ≠ 0 →
      (Installed t 0 → Installed t' 0) → given' 0 = given 0 → enhancements 0 t'.slots = 0 →
      ¬ Intact t' given' := by
    intro t' given' hne hkeep hgiven hzero hintact
    have hin : Installed t 0 := by
      by_contra hno
      exact hne (hsound.nothing hno)
    obtain ⟨r, hr, hrp⟩ := List.mem_map.mp (hkeep hin)
    have hinst := hintact.installed r hr
    rw [hrp, hgiven, hsound.zero hin, hzero] at hinst
    exact hne (some.inj hinst)
  cases op with
  | add rule flags =>
    obtain ⟨hgood, hroom, hnew, hp, hne⟩ := hdisturbs
    show ¬ Intact (ruleAddWithEnhancements rule flags t).1
      (record (ruleAddWithEnhancements rule flags t).2 (.add rule flags) given)
    have heffect := add_effect h rule flags
    generalize (ruleAddWithEnhancements rule flags t).1 = t' at heffect ⊢
    generalize (ruleAddWithEnhancements rule flags t).2 = rc at heffect ⊢
    cases heffect with
    | refused e hwhy =>
      rcases hwhy with hbad | ⟨hfull, _⟩
      · exact absurd hbad hgood
      · exact absurd hroom (not_lt.mpr hfull)
    | replaced rules front s back hin => exact absurd hin hnew
    | inserted front s back _ _ _ hsplit hs hfront =>
      apply hlost _ _ hne
      · exact fun hin => installed_added.mpr (by simpa [Installed] using Or.inl hin)
      · exact update_of_ne (Ne.symm hp) _ _
      · exact (hsound.taken hsplit hs hfront hp).2
  | del p =>
    obtain ⟨hin, hp, hne, hahead⟩ := hdisturbs
    show ¬ Intact (ruleDel p t) given
    have heffect := del_effect h p
    generalize ruleDel p t = t' at heffect ⊢
    cases heffect with
    | missing hno => exact absurd hin hno
    | deleted above r below front s back hrules hr hsplit hs hfront =>
      rw [hsplit] at hahead
      have hall := (mem_takeWhile_iff hs hp hfront).mp hahead
      apply hlost _ _ hne
      · intro hin0
        simpa [Installed, hrules, hr, Ne.symm hp] using hin0
      · rfl
      · exact enhancements_append hall _
  | clearHits p => exact hdisturbs.elim
  | flush => exact hdisturbs.elim

/-- An operation that returns an error leaves paired tables as they are. -/
theorem step_error {t : Tables} (h : Paired t) {op : Op} (hrc : (step t op).2 ≠ none) :
    (step t op).1 = t := by
  cases op with
  | add rule flags =>
    have heffect := add_effect h rule flags
    change (ruleAddWithEnhancements rule flags t).2 ≠ none at hrc
    show (ruleAddWithEnhancements rule flags t).1 = t
    generalize (ruleAddWithEnhancements rule flags t).1 = t' at heffect ⊢
    generalize (ruleAddWithEnhancements rule flags t).2 = rc at heffect hrc
    cases heffect with
    | refused => rfl
    | replaced => exact absurd rfl hrc
    | inserted => exact absurd rfl hrc
  | del p => exact absurd rfl hrc
  | clearHits p => exact absurd rfl hrc
  | flush => exact absurd rfl hrc

/-! ### Runs -/

/-- The tables are intact behind every part of the run, and no failed operation changes them. -/
structure Integrity (ops : List Op) : Prop where
  intact : ∀ before, before <+: ops → Intact (run before).1 (run before).2
  failed : ∀ before op, before ++ [op] <+: ops → (step (run before).1 op).2 ≠ none →
    (step (run before).1 op).1 = (run before).1

theorem sound_of_undisturbed (ops : List Op)
    (h : ∀ before op, before ++ [op] <+: ops → ¬ Disturbs (run before).1 op) :
    Sound (run ops).1 (run ops).2 := by
  induction ops using List.reverseRecOn with
  | nil => exact sound_empty _
  | append_singleton ops op ih =>
    rw [run_concat]
    apply Sound.step (paired ops)
    · exact ih fun before op' hpre => h before op' (hpre.trans (prefix_append _ _))
    · exact h ops op prefix_rfl

theorem undisturbed_of_intact (ops : List Op)
    (h : ∀ before, before <+: ops → Intact (run before).1 (run before).2) :
    ∀ before op, before ++ [op] <+: ops → ¬ Disturbs (run before).1 op := by
  induction ops using List.reverseRecOn with
  | nil =>
    intro before op hpre
    exact absurd (prefix_nil.mp hpre) (by simp)
  | append_singleton ops last ih =>
    have hbefore := ih fun before hpre => h before (hpre.trans (prefix_append _ _))
    intro before op hpre hdisturbs
    rcases prefix_concat_iff.mp hpre with heq | hpre
    · -- the last operation, on tables that were sound before it
      obtain ⟨rfl, hop⟩ := append_inj' heq rfl
      have hsound := sound_of_undisturbed before hbefore
      apply hsound.broken (paired before) hdisturbs
      have hintact := h (before ++ [op]) (heq ▸ prefix_rfl)
      rwa [run_concat] at hintact
    · exact hbefore before op hpre hdisturbs

/-- **The tables keep their promise throughout a run iff none of its operations disturbs them.** -/
theorem integrity_iff (ops : List Op) :
    Integrity ops ↔ ∀ before op, before ++ [op] <+: ops → ¬ Disturbs (run before).1 op := by
  constructor
  · exact fun h => undisturbed_of_intact ops h.intact
  · intro h
    refine ⟨fun before hpre => ?_, fun before op _ hrc => step_error (paired before) hrc⟩
    exact (sound_of_undisturbed before fun b op hb => h b op (hb.trans hpre)).intact (paired before)

/-- A ROUTE_ADD_V2 of prio zero with the adaptive penalty, and a ROUTE_ADD of prio five. -/
def zeroThenFive : List (List UInt8) :=
  [Bytes.toLE 4 JMX_NL_ACT_ROUTE_ADD_V2 ++ [1, 0, 0, 0] ++ List.replicate 26 0 ++ [1, 1]
      ++ List.replicate 56 0 ++ [1, 0, 0, 0],
    Bytes.toLE 4 JMX_NL_ACT_ROUTE_ADD ++ [1, 0, 5, 0] ++ List.replicate 26 0 ++ [1, 1]
      ++ List.replicate 56 0]

/-- **A rule of prio zero can lose its flags**: both messages are accepted, and then the rule of
    prio zero, added with the adaptive penalty, is found without it. -/
theorem zero_prio_loses_flags :
    let ops := zeroThenFive.filterMap routeOp
    (run ops).1.rules.map prio = [0, 5] ∧ (run ops).2 0 = some 1 ∧
      enhancements 0 (run ops).1.slots = 0 ∧ ¬ Integrity ops := by
  have hrules : (run (zeroThenFive.filterMap routeOp)).1.rules.map prio = [0, 5] := by
    decide +kernel
  have hgiven : (run (zeroThenFive.filterMap routeOp)).2 0 = some 1 := by decide +kernel
  have hfound : enhancements 0 (run (zeroThenFive.filterMap routeOp)).1.slots = 0 := by
    decide +kernel
  refine ⟨hrules, hgiven, hfound, fun h => ?_⟩
  have hin : 0 ∈ (run (zeroThenFive.filterMap routeOp)).1.rules.map prio := by
    rw [hrules]
    exact mem_cons_self
  obtain ⟨r, hr, hrp⟩ := List.mem_map.mp hin
  have hinst := (h.intact _ prefix_rfl).installed r hr
  rw [hrp, hgiven, hfound] at hinst
  exact absurd hinst (by decide)

end DreamingOS.Route
