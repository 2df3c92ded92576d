import DreamingOS.RouteMark.Slots
import Mathlib.Data.List.Induction

namespace DreamingOS.RouteMark

/-!
# Marks of live flows — a run of the table

The table against a finite map of ids to marks.

* `Op`, `step`, `run` — the operations, on the table;
* `Refines` — what the table and the map agree on; `holds_step` — a step keeps it where an id
  that is new finds an empty slot;
* `run_refines` — **the table refines the map as long as every new id finds an empty slot**, and
  not beyond;
* `overflow_after_removal` — a removal does not make room again.
-/

open Probing List Option

/-! ### The operations -/

inductive Op where
  | upsert (id mark : UInt32)
  | remove (id : UInt32)
  | clear

def step (st : Marks) : Op → Marks
  | .upsert id mark => slotUpsert st id mark
  | .remove id => (slotRemove st id).1
  | .clear => clear st

/-- The table before the first operation. -/
def initial : Marks := ⟨List.replicate SLOTS .empty, 0, false, false⟩

def run (ops : List Op) : Marks := ops.foldl step initial

/-- A map of ids to marks. -/
abbrev MarkMap := Table (Prod.fst : UInt32 × UInt32 → UInt32)

def MarkMap.step (t : MarkMap) : Op → MarkMap
  | .upsert id mark => t.upsert (id, mark) (fun r => (r.1, mark)) fun _ => rfl
  | .remove id => t.delete fun r => r.1 = id
  | .clear => .empty

/-- The map after some operations. -/
def meaning (ops : List Op) : MarkMap := ops.foldl MarkMap.step .empty

/-! ### The map -/

theorem find_upsert (t : MarkMap) (id mark id' : UInt32) :
    ((t.step (.upsert id mark)).find id').map Prod.snd =
      if id = id' then some mark else (t.find id').map Prod.snd := by
  show ((t.upsert (id, mark) (fun r => (r.1, mark)) fun _ => rfl).find id').map Prod.snd = _
  unfold Table.upsert
  split
  · next hmem =>
    obtain ⟨r, hr, hid⟩ := List.mem_map.mp hmem
    rw [Table.find_update_key (f := fun r => (r.1, mark)) (fun _ => rfl)
      (Table.find_eq_some.mpr ⟨hr, hid⟩)]
    split <;> rfl
  · next hmem =>
    rw [Table.find_insert _ _ hmem]
    split <;> rfl

theorem find_remove (t : MarkMap) (id id' : UInt32) :
    ((t.step (.remove id)).find id').map Prod.snd =
      if id = id' then none else (t.find id').map Prod.snd := by
  show ((t.delete fun r => r.1 = id).find id').map Prod.snd = _
  rw [Table.find_delete]
  cases hfind : t.find id' with
  | none => split <;> rfl
  | some r =>
    have hid := (Table.find_eq_some.mp hfind).2
    by_cases h : id = id'
    · simp [h, hid]
    · have hne : r.1 ≠ id := fun heq => h (heq.symm.trans hid)
      rw [if_neg h, filter_some, decide_eq_false hne]
      rfl

variable {id : UInt32}

theorem find_isSome {t : MarkMap} : (t.find id).isSome = true ↔ id ∈ t.rows.map Prod.fst := by
  rw [isSome_iff_exists]
  constructor
  · rintro ⟨r, hr⟩
    obtain ⟨hmem, hid⟩ := Table.find_eq_some.mp hr
    exact List.mem_map.mpr ⟨r, hmem, hid⟩
  · intro hmem
    obtain ⟨r, hr, hid⟩ := List.mem_map.mp hmem
    exact ⟨r, Table.find_eq_some.mpr ⟨hr, hid⟩⟩

/-- How many ids are live after an upsert. -/
theorem length_upsert (t : MarkMap) (id mark : UInt32) : (t.step (.upsert id mark)).rows.length =
      t.rows.length + if (t.find id).isSome then 0 else 1 := by
  show (t.upsert (id, mark) (fun r => (r.1, mark)) fun _ => rfl).rows.length = _
  unfold Table.upsert
  split
  · next hmem =>
    rw [if_pos (find_isSome.mpr hmem)]
    exact length_map _
  · next hmem =>
    rw [if_neg fun h => hmem (find_isSome.mp h)]
    exact length_append

/-- How many ids are live after a removal. -/
theorem length_remove (t : MarkMap) (id : UInt32) :
    (t.step (.remove id)).rows.length + (if (t.find id).isSome then 1 else 0) = t.rows.length := by
  have hcount := Table.count_key t id fun _ => true
  have hlen := length_eq_countP_add_countP (fun r : UInt32 × UInt32 => decide (r.1 = id))
    (l := t.rows)
  show (t.rows.filter fun r => !decide (r.1 = id)).length + _ = _
  rw [hlen, countP_eq_length_filter, countP_eq_length_filter]
  have hone : (t.rows.filter fun r => decide (r.1 = id)).length =
      if (t.find id).isSome then 1 else 0 := by
    rw [← countP_eq_length_filter]
    unfold Table.count at hcount
    simp only [and_true] at hcount
    rw [hcount]
    cases t.find id <;> rfl
  rw [hone, Nat.add_comm]
  congr 2
  apply filter_congr
  intro r _
  by_cases h : r.1 = id <;> simp [h]

/-! ### What the table and the map agree on -/

/-- The table finds the ids of the map with their marks, each in one slot, and counts them. -/
structure Refines (st : Marks) (t : MarkMap) : Prop where
  overflow : st.overflow = false
  lookup : ∀ id, lookup st id = (t.find id).map Prod.snd
  distinct : Slots.Distinct (Cell.key Mark.id) st.slots
  total : st.total = t.rows.length

/-- The same, with the walks of the table. -/
structure Holds (st : Marks) (t : MarkMap) : Prop where
  overflow : st.overflow = false
  length : st.slots.length = SLOTS
  reach : Reachable Mark.id hash st.slots
  find : ∀ id, (Probing.find Mark.id hash st.slots id).map Mark.mark = (t.find id).map Prod.snd
  used : used st.slots = t.rows.length
  total : st.total = t.rows.length
variable {i : ℕ}


section

variable {st : Marks} {t : MarkMap}

theorem locate_eq (h : st.slots.length = SLOTS) (id : UInt32) :
    locate Mark.id hash st.slots id = walk Mark.id st.slots id (probes id) none := by
  unfold locate probes
  rw [h]

/-- A lookup is a walk. -/
theorem slotFind_eq (h : st.slots.length = SLOTS) (id : UInt32) : slotFind st id =
    match locate Mark.id hash st.slots id with
    | .found i => some i
    | .missing _ => none := by
  rw [locate_eq h]
  exact findLoop_eq st.slots id (probes id) none

theorem lookup_eq (h : st.slots.length = SLOTS) (id : UInt32) :
    lookup st id = (Probing.find Mark.id hash st.slots id).map Mark.mark := by
  unfold lookup Probing.find
  rw [slotFind_eq h]
  cases locate Mark.id hash st.slots id with
  | missing free => rfl
  | found i =>
    dsimp only
    cases st.slots[i]? with
    | none => rfl
    | some c => cases c <;> rfl

theorem Holds.refines (h : Holds st t) : Refines st t :=
  ⟨h.overflow, fun id => by rw [lookup_eq h.length, h.find], h.reach.distinct, h.total⟩

theorem holds_clear (st : Marks) : Holds (clear st) .empty := by
  have hcell : ∀ {i : ℕ} {c : Cell Mark}, (clear st).slots[i]? = some c → c = .empty := by
    intro i c hc
    exact (mem_replicate.mp (mem_of_getElem? hc)).2
  have hreach : Reachable Mark.id hash (clear st).slots := by
    intro i s hs
    cases hcell hs
  refine ⟨rfl, length_replicate, hreach, fun id => ?_, ?_, rfl⟩
  · cases hfind : Probing.find Mark.id hash (clear st).slots id with
    | none => rfl
    | some s =>
      obtain ⟨-, i, hi⟩ := (find_eq_some hreach).mp hfind
      cases hcell hi
  · show List.countP _ (List.replicate SLOTS (Cell.empty : Cell Mark)) = 0
    rw [countP_replicate]
    rfl

/-- A cell that is written keeps the number of the cells. -/
theorem length_set_slots (h : Holds st t) (i : ℕ) (c : Cell Mark) :
    (st.slots.set i c).length = SLOTS := by
  rw [length_set, h.length]

theorem find_isSome_eq (h : Holds st t) (id : UInt32) :
    (Probing.find Mark.id hash st.slots id).isSome = (t.find id).isSome := by
  have hfind := congrArg Option.isSome (h.find id)
  rwa [isSome_map, isSome_map] at hfind

theorem probes_lt (h : Holds st t) (hi : i ∈ probes id) : i < st.slots.length := by
  rw [h.length]
  exact mem_places_lt hi

/-- An id that is live gets its new mark. -/
theorem holds_update (h : Holds st t) (mark : UInt32)
    (hloc : locate Mark.id hash st.slots id = .found i) :
    slotUpsert st id mark = { st with slots := st.slots.set i (.live ⟨id, mark⟩) } ∧
      Holds { st with slots := st.slots.set i (.live ⟨id, mark⟩) } (t.step (.upsert id mark)) := by
  obtain ⟨s, hcell, hs, hfind⟩ := locate_found hloc
  have hloop : upsertLoop st.slots id (probes id) none = .used i := by
    rw [locate_eq h.length] at hloc
    exact upsertLoop_found hloc none
  have hkey : (⟨id, mark⟩ : Mark).id = s.id := hs.symm
  have hsome : (t.find id).isSome = true := by
    rw [← find_isSome_eq h, hfind]
    rfl
  refine ⟨by unfold slotUpsert; rw [hloop], h.overflow, length_set_slots h i _,
    h.reach.update hcell hkey, fun id' => ?_, ?_, ?_⟩
  · rw [find_upsert, Probing.find_update h.reach hcell hkey, ← h.find, hs]
    by_cases hid : id' = id
    · rw [if_pos hid, if_pos hid.symm]
      rfl
    · rw [if_neg hid, if_neg (Ne.symm hid)]
  · have hused := used_set (Cell.live (⟨id, mark⟩ : Mark)) hcell
    rw [length_upsert, if_pos hsome, ← h.used]
    simpa [Cell.key] using hused
  · rw [length_upsert, if_pos hsome, ← h.total]
    rfl

/-- An id that is new is put where its loop has passed a removed slot, or has ended. -/
theorem holds_insert (h : Holds st t) (mark : UInt32) {j : ℕ}
    (hloc : locate Mark.id hash st.slots id = .missing (some j)) :
    Holds { st with slots := st.slots.set j (.live ⟨id, mark⟩), total := st.total + 1 }
      (t.step (.upsert id mark)) := by
  have hnone : (t.find id).isSome = false := by
    rw [← find_isSome_eq h, find_missing hloc]
    rfl
  have hloc' : locate Mark.id hash st.slots (⟨id, mark⟩ : Mark).id = .missing (some j) := hloc
  obtain ⟨hfree, hreach⟩ := h.reach.insert hloc'
  refine ⟨h.overflow, length_set_slots h j _, hreach, fun id' => ?_, ?_, ?_⟩
  · rw [find_upsert, Probing.find_insert h.reach hloc', ← h.find]
    by_cases hid : id' = id
    · rw [if_pos hid, if_pos hid.symm]
      rfl
    · rw [if_neg hid, if_neg (Ne.symm hid)]
  · rw [length_upsert, hnone, ← h.used]
    rcases hfree with hcell | hcell
    all_goals
      have hused := used_set (Cell.live (⟨id, mark⟩ : Mark)) hcell
      simpa [Cell.key] using hused
  · rw [length_upsert, hnone, ← h.total]
    rfl

/-- An id that is removed leaves a tomb, and an id that is not there nothing. -/
theorem holds_remove (h : Holds st t) (id : UInt32) :
    Holds (slotRemove st id).1 (t.step (.remove id)) := by
  have hlength := length_remove t id
  unfold slotRemove
  rw [slotFind_eq h.length]
  cases hloc : locate Mark.id hash st.slots id with
  | missing free =>
    have hnone : (t.find id).isSome = false := by
      rw [← find_isSome_eq h, find_missing hloc]
      rfl
    rw [hnone] at hlength
    refine ⟨h.overflow, h.length, h.reach, fun id' => ?_, h.used.trans hlength.symm,
      h.total.trans hlength.symm⟩
    rw [find_remove, h.find]
    by_cases hid : id = id'
    · rw [if_pos hid, ← hid, map_eq_none_iff, ← not_isSome_iff_eq_none, hnone]
      exact Bool.false_ne_true
    · rw [if_neg hid]
  | found i =>
    obtain ⟨s, hcell, hs, hfind⟩ := locate_found hloc
    have hsome : (t.find id).isSome = true := by
      rw [← find_isSome_eq h, hfind]
      rfl
    rw [hsome, if_pos rfl] at hlength
    refine ⟨h.overflow, length_set_slots h i _, h.reach.bury i, fun id' => ?_, ?_, ?_⟩
    · rw [find_remove, Probing.find_bury h.reach hcell, ← h.find, hs]
      by_cases hid : id' = id
      · rw [if_pos hid, if_pos hid.symm]
        rfl
      · rw [if_neg hid, if_neg (Ne.symm hid)]
    · have hused := used_set (Cell.tomb : Cell Mark) hcell
      have hbefore := h.used
      simp only [Cell.key, isSome_some, isSome_none, Bool.toNat_true,
        Bool.toNat_false, Nat.add_zero] at hused
      show used (st.slots.set i .tomb) = _
      omega
    · have htotal := h.total
      show st.total - 1 = _
      omega

end

/-! ### Steps -/

/-- An id that is new finds an empty slot. -/
def Roomy (st : Marks) : Op → Prop
  | .upsert id _ => (lookup st id).isSome = true ∨ HasEmpty st.slots
  | _ => True

section

variable {st : Marks} {t : MarkMap}

/-- **A step keeps what the table and the map agree on, where an id that is new finds an empty
    slot.** -/
theorem holds_step (h : Holds st t) (op : Op) (hroom : Roomy st op) :
    Holds (step st op) (t.step op) := by
  cases op with
  | clear => exact holds_clear st
  | remove id => exact holds_remove h id
  | upsert id mark =>
    cases hloc : locate Mark.id hash st.slots id with
    | found i =>
      obtain ⟨hst, hholds⟩ := holds_update h mark hloc
      show Holds (slotUpsert st id mark) _
      rw [hst]
      exact hholds
    | missing free =>
      have hwalk := hloc
      rw [locate_eq h.length] at hwalk
      rcases upsertLoop_missing (fun i hi => probes_lt h hi) hwalk with ⟨-, hnone⟩ | ⟨j, rfl, hloop⟩
      · exfalso
        rcases hroom with hlive | ⟨i, hi⟩
        · rw [lookup_eq h.length, find_missing hloc] at hlive
          cases hlive
        · have hlt := (List.getElem?_eq_some_iff.mp hi).1
          rw [h.length] at hlt
          exact hnone i (mem_places hlt) hi
      · have hholds := holds_insert h mark hloc
        show Holds (slotUpsert st id mark) _
        unfold slotUpsert
        rw [hloop]
        exact hholds

/-- An id that is new and finds no empty slot makes the table overflow. -/
theorem overflow_step (h : Holds st t) {op : Op} (hroom : ¬ Roomy st op) :
    (step st op).overflow = true := by
  cases op with
  | clear => exact absurd trivial hroom
  | remove id => exact absurd trivial hroom
  | upsert id mark =>
    unfold Roomy at hroom
    rw [not_or] at hroom
    obtain ⟨hnew, hfull⟩ := hroom
    cases hloc : locate Mark.id hash st.slots id with
    | found i =>
      obtain ⟨s, -, -, hfind⟩ := locate_found hloc
      rw [lookup_eq h.length, hfind] at hnew
      exact absurd rfl hnew
    | missing free =>
      rw [locate_eq h.length] at hloc
      have hlt := fun i (hi : i ∈ probes id) => probes_lt h hi
      rcases upsertLoop_missing hlt hloc with ⟨hloop, -⟩ | ⟨j, -, hloop⟩
      · show (slotUpsert st id mark).overflow = true
        unfold slotUpsert
        rw [hloop]
      · exact absurd (hasEmpty_of_free hlt hloop) hfull

end

/-! ### Runs -/

/-- Every step of some operations finds room. -/
def AllRoomy (ops : List Op) : Prop := ∀ before op, before ++ [op] <+: ops → Roomy (run before) op

theorem run_concat (ops : List Op) (op : Op) : run (ops ++ [op]) = step (run ops) op := by
  unfold run
  rw [foldl_append]
  rfl

theorem meaning_concat (ops : List Op) (op : Op) :
    meaning (ops ++ [op]) = (meaning ops).step op := by
  unfold meaning
  rw [foldl_append]
  rfl

variable {ops : List Op}

theorem holds_run (h : AllRoomy ops) : Holds (run ops) (meaning ops) := by
  induction ops using List.reverseRecOn with
  | nil => exact holds_clear initial
  | append_singleton ops op ih =>
    have hops : AllRoomy ops := fun before op' hpre => h before op' (hpre.trans (prefix_append _ _))
    rw [run_concat, meaning_concat]
    exact holds_step (ih hops) op (h ops op prefix_rfl)

/-- **The table refines the map in every state of a run exactly when every id that is new finds an
    empty slot.** -/
theorem run_refines (ops : List Op) :
    (∀ before, before <+: ops → Refines (run before) (meaning before)) ↔ AllRoomy ops := by
  constructor
  · intro h
    induction ops using List.reverseRecOn with
    | nil =>
      intro before op hpre
      exact absurd (prefix_nil.mp hpre) (by simp)
    | append_singleton ops op ih =>
      have hops := ih fun before hb => h before (hb.trans (prefix_append _ _))
      intro before op' hpre
      rcases prefix_concat_iff.mp hpre with heq | hpre
      · obtain ⟨rfl, rfl⟩ := append_singleton_inj.mp heq
        by_contra hroom
        have hover := overflow_step (holds_run hops) hroom
        rw [← run_concat, (h _ prefix_rfl).overflow] at hover
        cases hover
      · exact hops before op' hpre
  · intro h before hpre
    exact (holds_run fun b op hb => h b op (hb.trans hpre)).refines

/-- There are not more live ids than operations. -/
theorem length_meaning_le (ops : List Op) : (meaning ops).rows.length ≤ ops.length := by
  induction ops using List.reverseRecOn with
  | nil => exact Nat.le_refl 0
  | append_singleton ops op ih =>
    rw [meaning_concat, length_append, length_singleton]
    cases op with
    | clear => exact Nat.zero_le _
    | remove id =>
      have hlength := length_remove (meaning ops) id
      omega
    | upsert id mark =>
      rw [length_upsert]
      split <;> omega

/-! ### How long there is room -/

/-- Whether a slot has been used. -/
def mark (c : Cell Mark) : Option Unit := if c = .empty then none else some ()

/-- How many slots have been used. -/
def touched (slots : List (Cell Mark)) : ℕ := Slots.used mark slots

variable {slots : List (Cell Mark)}

theorem touched_set {c : Cell Mark} (h : c ≠ .empty) :
    touched (slots.set i c) ≤ touched slots + 1 := by
  cases hi : slots[i]? with
  | none =>
    rw [set_eq_of_length_le (List.getElem?_eq_none_iff.mp hi)]
    omega
  | some d =>
    have hset : touched (slots.set i c) + (mark d).isSome.toNat =
        touched slots + (mark c).isSome.toNat := Slots.used_set c hi
    have hmark : mark c = some () := if_neg h
    rw [hmark] at hset
    simp only [isSome_some, Bool.toNat_true] at hset
    omega

theorem touched_step (st : Marks) (op : Op) : touched (step st op).slots ≤ touched st.slots + 1 := by
  cases op with
  | clear =>
    have hzero : touched (clear st).slots = 0 := by
      show List.countP _ (List.replicate SLOTS Cell.empty) = 0
      rw [countP_replicate]
      rfl
    show touched (clear st).slots ≤ _
    omega
  | remove id =>
    show touched (slotRemove st id).1.slots ≤ _
    unfold slotRemove
    split
    · exact Nat.le_succ _
    · exact touched_set nofun
  | upsert id mark =>
    show touched (slotUpsert st id mark).slots ≤ _
    unfold slotUpsert
    split
    · exact touched_set nofun
    · exact touched_set nofun
    · exact Nat.le_succ _

theorem touched_run (ops : List Op) : touched (run ops).slots ≤ ops.length := by
  induction ops using List.reverseRecOn with
  | nil =>
    show List.countP _ (List.replicate SLOTS Cell.empty) ≤ 0
    rw [countP_replicate]
    exact Nat.le_refl 0
  | append_singleton ops op ih =>
    have hstep := touched_step (run ops) op
    rw [run_concat, length_append, length_singleton]
    omega

theorem hasEmpty_of_touched (h : touched slots < slots.length) : HasEmpty slots := by
  by_contra hnone
  have hall : touched slots = slots.length := by
    apply countP_eq_length.mpr
    intro c hc
    obtain ⟨i, hi⟩ := getElem?_of_mem hc
    have hne : c ≠ .empty := fun heq => hnone ⟨i, heq ▸ hi⟩
    unfold mark
    rw [if_neg hne]
    rfl
  omega

/-- There is room for as many operations as there are slots. -/
theorem allRoomy_of_length_le (h : ops.length ≤ SLOTS) : AllRoomy ops := by
  induction ops using List.reverseRecOn with
  | nil =>
    intro before op hpre
    exact absurd (prefix_nil.mp hpre) (by simp)
  | append_singleton ops op ih =>
    rw [length_append, length_singleton] at h
    have hops := ih (by omega)
    intro before op' hpre
    rcases prefix_concat_iff.mp hpre with heq | hpre
    · obtain ⟨rfl, rfl⟩ := append_singleton_inj.mp heq
      have htouched := touched_run before
      have hempty : HasEmpty (run before).slots := by
        apply hasEmpty_of_touched
        rw [(holds_run hops).length]
        omega
      cases op' with
      | upsert id mark => exact .inr hempty
      | remove id => exact trivial
      | clear => exact trivial
    · exact hops before op' hpre

/-! ### A table that was full once -/

/-- An upsert for each id. -/
def fill (ids : List UInt32) : List Op := ids.map fun id => .upsert id 0

variable {ids : List UInt32}

theorem keys_fill (h : ids.Nodup) : (meaning (fill ids)).rows.map Prod.fst = ids := by
  induction ids using List.reverseRecOn with
  | nil => rfl
  | append_singleton ids id ih =>
    obtain ⟨hids, -, hnot⟩ := nodup_append.mp h
    have hkeys := ih hids
    have hnew : id ∉ ids := fun hmem => hnot id hmem id (mem_singleton_self id) rfl
    have hfill : fill (ids ++ [id]) = fill ids ++ [.upsert id 0] := map_append
    rw [hfill, meaning_concat]
    show (Table.upsert (meaning (fill ids)) (id, 0) (fun r => (r.1, 0)) fun _ => rfl).rows.map
      Prod.fst = _
    rw [Table.upsert_keys, hkeys, if_neg hnew]

/-- A table with an id in every slot. -/
theorem not_hasEmpty_of_used (h : used slots = slots.length) (i : ℕ) : slots[i]? ≠ some .empty := by
  intro hi
  have hlive := countP_eq_length.mp h _ (mem_of_getElem? hi)
  cases hlive

/-- A table that has been full overflows at the next id that is new, also when one has been
    removed before. -/
theorem overflow_of_full (hnodup : ids.Nodup) (hlength : ids.length = SLOTS)
    (gone new : UInt32) (hnew : new ∉ ids) (hgone : gone ≠ new) :
    (run (fill ids ++ [.remove gone, .upsert new 0])).overflow = true := by
  have hfill : (fill ids).length ≤ SLOTS := Nat.le_of_eq ((length_map _).trans hlength)
  have hholds := holds_run (allRoomy_of_length_le hfill)
  have hkeys := keys_fill hnodup
  have hrows : (meaning (fill ids)).rows.length = SLOTS := by
    rw [← hlength, ← hkeys, length_map]
    rw [hkeys]
  have hused : used (run (fill ids)).slots = (run (fill ids)).slots.length := by
    rw [hholds.used, hholds.length, hrows]
  have hremoved := holds_step hholds (.remove gone) trivial
  rw [← run_concat, ← meaning_concat] at hremoved
  rw [show fill ids ++ [Op.remove gone, .upsert new 0] =
    (fill ids ++ [.remove gone]) ++ [.upsert new 0] by simp, run_concat]
  apply overflow_step hremoved
  rintro (hlive | ⟨i, hi⟩)
  · -- the id is not one that has been put in
    rw [hremoved.refines.lookup, meaning_concat, find_remove, if_neg hgone, isSome_map,
      find_isSome, hkeys] at hlive
    exact hnew hlive
  · rw [run_concat] at hi
    have hslots : (step (run (fill ids)) (.remove gone)).slots = (run (fill ids)).slots ∨
        ∃ j, (step (run (fill ids)) (.remove gone)).slots = (run (fill ids)).slots.set j .tomb := by
      unfold step slotRemove
      dsimp only
      split
      · exact .inl rfl
      · next j _ => exact .inr ⟨j, rfl⟩
    rcases hslots with heq | ⟨j, heq⟩
    · rw [heq] at hi
      exact not_hasEmpty_of_used hused i hi
    · rw [heq] at hi
      rcases Slots.getElem?_set_cases hi with ⟨-, hbad⟩ | ⟨-, hi⟩
      · cases hbad
      · exact not_hasEmpty_of_used hused i hi

/-- As many ids as there are slots. -/
def manyIds : List UInt32 := (List.range SLOTS).map UInt32.ofNat

theorem SLOTS_eq : SLOTS = 16384 := by
  unfold SLOTS
  rfl

theorem nodup_manyIds : manyIds.Nodup := by
  refine Nodup.map_on ?_ nodup_range
  intro a ha b hb heq
  have hslots := SLOTS_eq
  rw [mem_range] at ha hb
  have hnat := congrArg UInt32.toNat heq
  rw [UInt32.toNat_ofNat', UInt32.toNat_ofNat'] at hnat
  omega

theorem mem_manyIds : id ∈ manyIds ↔ id.toNat < 16384 := by
  have hslots := SLOTS_eq
  unfold manyIds
  rw [List.mem_map]
  constructor
  · rintro ⟨i, hi, rfl⟩
    rw [mem_range] at hi
    rw [UInt32.toNat_ofNat']
    omega
  · intro h
    exact ⟨id.toNat, mem_range.mpr (by omega), UInt32.ofNat_toNat⟩

/-- Ids that never are more than the slots, and the last of them is lost. -/
def crowded : List Op := fill manyIds ++ [.remove 0] ++ [.upsert 16384 0]

/-- **A removal does not make room again.** -/
theorem overflow_after_removal :
    (∀ before, before <+: crowded → (meaning before).rows.length ≤ SLOTS) ∧
      (run crowded).overflow = true := by
  have hslots := SLOTS_eq
  have hmany : manyIds.length = SLOTS := by
    unfold manyIds
    rw [length_map, length_range]
  have hkeys := keys_fill nodup_manyIds
  have hfull : (meaning (fill manyIds)).rows.length = SLOTS := by
    rw [← hmany, ← hkeys, length_map, hkeys]
  have hzero : ((meaning (fill manyIds)).find 0).isSome = true := by
    rw [find_isSome, hkeys, mem_manyIds]
    decide
  have hremoved := length_remove (meaning (fill manyIds)) 0
  rw [if_pos hzero, ← meaning_concat] at hremoved
  constructor
  · intro before hbefore
    rcases prefix_concat_iff.mp hbefore with rfl | hbefore
    · have hlast := length_upsert (meaning (fill manyIds ++ [.remove 0])) 16384 0
      rw [← meaning_concat] at hlast
      rw [hlast]
      split <;> omega
    · rcases prefix_concat_iff.mp hbefore with rfl | hbefore
      · omega
      · refine (length_meaning_le before).trans (hbefore.length_le.trans ?_)
        unfold fill
        rw [length_map, hmany]
  · have hover := overflow_of_full nodup_manyIds hmany 0 16384
      (by rw [mem_manyIds]; decide) (by decide)
    unfold crowded
    rwa [append_assoc]

end DreamingOS.RouteMark
