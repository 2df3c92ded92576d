import DreamingOS.Lib.Probing
import DreamingOS.Lib.Table

namespace DreamingOS.RouteMark

/-!
# Marks of live flows — the slots

The hash table of `jmx_route_mark_runtime.c`: a flow's id, as the kernel gives it, and its mark.

* `slotFind`, `slotUpsert`, `slotRemove`, `clear` — the four operations on the slots;
* `findLoop_eq`, `upsertLoop_found`, `upsertLoop_missing` — the two loops, as walks of the table.

An id that is new is put into a slot only when its loop comes to an empty one: slots that have been
removed are passed and noted, and the first of them is used, but not when the loop has gone all the
way around.
-/

open Probing List

@[irreducible] def SLOTS : ℕ := 16384

/-- `struct route_mark_slot` in use. -/
structure Mark where
  (id mark : UInt32)
deriving DecidableEq

/-- The part of `struct jmx_route_mark_state` that belongs to the table. -/
structure Marks where
  slots : List (Cell Mark)
  total : ℕ
  (overflow missingDestroy : Bool)

/-- `route_mark_hash`. -/
def hash (id : UInt32) : ℕ := (id * 2654435761).toNat % SLOTS

/-- The slots in the order of a loop. -/
def probes (id : UInt32) : List ℕ := places SLOTS (hash id)

/-- The loop of `route_mark_slot_find`. -/
def findLoop (slots : List (Cell Mark)) (id : UInt32) : List ℕ → Option ℕ
  | [] => none
  | idx :: rest =>
    match slots[idx]? with
    | some (.live s) => if s.id = id then some idx else findLoop slots id rest
    | some .tomb => findLoop slots id rest
    | _ => none

/-- `route_mark_slot_find`. -/
def slotFind (st : Marks) (id : UInt32) : Option ℕ := findLoop st.slots id (probes id)

/-- What the loop of `route_mark_slot_upsert` ends with. -/
inductive Place where
  | used (idx : ℕ)
  | free (idx : ℕ)
  | full
deriving DecidableEq

/-- The loop of `route_mark_slot_upsert`, with the first slot that has been removed. -/
def upsertLoop (slots : List (Cell Mark)) (id : UInt32) : List ℕ → Option ℕ → Place
  | [], _ => .full
  | idx :: rest, firstTomb =>
    match slots[idx]? with
    | some (.live s) => if s.id = id then .used idx else upsertLoop slots id rest firstTomb
    | some .tomb => upsertLoop slots id rest (firstTomb.or (some idx))
    | _ => .free (firstTomb.getD idx)

/-- `route_mark_slot_upsert`. -/
def slotUpsert (st : Marks) (id mark : UInt32) : Marks :=
  match upsertLoop st.slots id (probes id) none with
  | .used idx => { st with slots := st.slots.set idx (.live ⟨id, mark⟩) }
  | .free idx => { st with slots := st.slots.set idx (.live ⟨id, mark⟩), total := st.total + 1 }
  | .full => { st with overflow := true }

/-- `route_mark_slot_remove`. -/
def slotRemove (st : Marks) (id : UInt32) : Marks × Bool :=
  match slotFind st id with
  | none => (st, false)
  | some idx => ({ st with slots := st.slots.set idx .tomb, total := st.total - 1 }, true)

/-- `route_mark_clear`. -/
def clear (_ : Marks) : Marks := ⟨List.replicate SLOTS .empty, 0, false, false⟩

/-- What a lookup finds. -/
def lookup (st : Marks) (id : UInt32) : Option UInt32 :=
  match slotFind st id with
  | none => none
  | some idx =>
    match st.slots[idx]? with
    | some (.live s) => some s.mark
    | _ => none

/-! ### The loops as walks -/

theorem findLoop_eq (slots : List (Cell Mark)) (id : UInt32) (rest : List ℕ) (free : Option ℕ) :
    findLoop slots id rest = match walk Mark.id slots id rest free with
      | .found i => some i
      | .missing _ => none := by
  induction rest generalizing free with
  | nil => rfl
  | cons idx rest ih =>
    rw [findLoop, walk]
    cases slots[idx]? with
    | none => rfl
    | some c =>
      cases c with
      | empty => rfl
      | tomb => exact ih _
      | live s =>
        by_cases hid : s.id = id
        · simp [hid]
        · simpa [hid] using ih free

/-- A slot that was never used, on the way or behind it. -/
def HasEmpty (slots : List (Cell Mark)) : Prop := ∃ i : ℕ, slots[i]? = some .empty

variable {slots : List (Cell Mark)} {rest : List ℕ} {id : UInt32}

theorem upsertLoop_found
    {free : Option ℕ} {i : ℕ} (h : walk Mark.id slots id rest free = .found i) (tomb : Option ℕ) :
    upsertLoop slots id rest tomb = .used i := by
  induction rest generalizing free tomb with
  | nil => cases h
  | cons idx rest ih =>
    rw [walk] at h
    rw [upsertLoop]
    cases hcell : slots[idx]? with
    | none =>
      rw [hcell] at h
      cases h
    | some c =>
      rw [hcell] at h
      cases c with
      | empty => cases h
      | tomb => exact ih h _
      | live s =>
        dsimp only at h ⊢
        by_cases hid : s.id = id
        · rw [if_pos hid] at h ⊢
          rw [Walk.found.inj h]
        · rw [if_neg hid] at h ⊢
          exact ih h tomb

/-- A missing id is put where its walk ends, if the walk comes to an empty slot. -/
theorem upsertLoop_missing {free free' : Option ℕ} (hrest : ∀ i ∈ rest, i < slots.length)
    (h : walk Mark.id slots id rest free = .missing free') :
    (upsertLoop slots id rest free = .full ∧ ∀ i ∈ rest, slots[i]? ≠ some .empty) ∨
      ∃ j, free' = some j ∧ upsertLoop slots id rest free = .free j := by
  induction rest generalizing free with
  | nil => exact .inl ⟨rfl, by simp⟩
  | cons idx rest ih =>
    have hidx := hrest idx mem_cons_self
    have hrest' := fun i hi => hrest i (mem_cons_of_mem _ hi)
    -- behind a slot that is not empty the loop goes on
    have hgo : slots[idx]? ≠ some .empty → ∀ {f : Option ℕ},
        walk Mark.id slots id rest f = .missing free' →
        (upsertLoop slots id rest f = .full ∧ ∀ i ∈ idx :: rest, slots[i]? ≠ some .empty) ∨
          ∃ j, free' = some j ∧ upsertLoop slots id rest f = .free j := by
      intro hcell f hwalk
      rcases ih hrest' hwalk with ⟨hfull, hnone⟩ | hfree
      · refine .inl ⟨hfull, fun i hi => ?_⟩
        rcases mem_cons.mp hi with rfl | hi
        · exact hcell
        · exact hnone i hi
      · exact .inr hfree
    rw [walk] at h
    rw [upsertLoop]
    cases hcell : slots[idx]? with
    | none =>
      rw [List.getElem?_eq_none_iff] at hcell
      omega
    | some c =>
      rw [hcell] at h hgo
      cases c with
      | empty =>
        refine .inr ⟨free.getD idx, ?_, rfl⟩
        rw [← Walk.missing.inj h]
        cases free <;> rfl
      | tomb => exact hgo nofun h
      | live s =>
        dsimp only at h ⊢
        by_cases hid : s.id = id
        · rw [if_pos hid] at h
          cases h
        · rw [if_neg hid] at h ⊢
          exact hgo nofun h

/-- A free slot is only taken when the loop comes to an empty one. -/
theorem hasEmpty_of_free {free : Option ℕ} {j : ℕ} (hrest : ∀ i ∈ rest, i < slots.length)
    (h : upsertLoop slots id rest free = .free j) : HasEmpty slots := by
  induction rest generalizing free with
  | nil => cases h
  | cons idx rest ih =>
    have hidx := hrest idx mem_cons_self
    have hrest' := fun i hi => hrest i (mem_cons_of_mem _ hi)
    rw [upsertLoop] at h
    cases hcell : slots[idx]? with
    | none =>
      rw [List.getElem?_eq_none_iff] at hcell
      omega
    | some c =>
      rw [hcell] at h
      cases c with
      | empty => exact ⟨idx, hcell⟩
      | tomb => exact ih hrest' h
      | live s =>
        dsimp only at h
        split at h
        · cases h
        · exact ih hrest' h

end DreamingOS.RouteMark
