import DreamingOS.Lib.BigEndian

namespace FieldList

open Bytes List

/-!
# Records laid out by a list of fields

A sender announces the ids and lengths of the fields of its records, and then sends the records as
nothing but their values.

* `readRecord`, `readRecords` — cutting bytes into records by an announced layout;
* `layout`, `flat` — the layout of a record of values, and its bytes;
* `readRecord_flat`, `readRecords_flat` — records are cut back into their values.
-/

variable {κ : Type}

/-- One record: its values by id, and the bytes behind it. -/
def readRecord : List (κ × ℕ) → List UInt8 → Option (List (κ × List UInt8) × List UInt8)
  | [], bs => some ([], bs)
  | (id, length) :: fields, bs => do
    let (value, bs) ← takeBytes length bs
    let (values, bs) ← readRecord fields bs
    return ((id, value) :: values, bs)

/-- The records in a byte string; bytes at the end that are no whole record are padding. -/
def readRecords (fields : List (κ × ℕ)) : ℕ → List UInt8 → List (List (κ × List UInt8))
  | 0, _ => []
  | turns + 1, bs =>
    match readRecord fields bs with
    | none => []
    | some (values, rest) => values :: readRecords fields turns rest

/-- The fields of a record of values. -/
def layout (values : List (κ × List UInt8)) : List (κ × ℕ) := values.map fun v => (v.1, v.2.length)

/-- The bytes of a record of values. -/
def flat (values : List (κ × List UInt8)) : List UInt8 := values.flatMap Prod.snd

theorem readRecord_flat (values : List (κ × List UInt8)) (rest : List UInt8) :
    readRecord (layout values) (flat values ++ rest) = some (values, rest) := by
  induction values with
  | nil => rfl
  | cons v values ih =>
    have hflat : flat (v :: values) ++ rest = v.2 ++ (flat values ++ rest) := by
      rw [flat, flatMap_cons, append_assoc]
      rfl
    show readRecord ((v.1, v.2.length) :: layout values) _ = _
    rw [hflat, readRecord, takeBytes_append rfl]
    show (do
      let (values', bs) ← readRecord (layout values) (flat values ++ rest)
      return ((v.1, v.2) :: values', bs)) = _
    rw [ih]
    rfl

/-- A record with a field that is not empty needs a byte. -/
theorem readRecord_nil {fields : List (κ × ℕ)} (h : ∃ f ∈ fields, 0 < f.2) :
    readRecord fields [] = none := by
  induction fields with
  | nil =>
    obtain ⟨f, hf, -⟩ := h
    cases hf
  | cons f fields ih =>
    obtain ⟨id, length⟩ := f
    by_cases hzero : length = 0
    · subst hzero
      have hrest : ∃ f ∈ fields, 0 < f.2 := by
        obtain ⟨f, hf, hpos⟩ := h
        rcases mem_cons.mp hf with rfl | hf
        · exact absurd hpos (Nat.lt_irrefl 0)
        · exact ⟨f, hf, hpos⟩
      show (do
        let (values, bs) ← readRecord fields []
        return ((id, []) :: values, bs)) = none
      rw [ih hrest]
      rfl
    · have htake : takeBytes length [] = none := by
        rw [takeBytes, if_neg]
        exact fun hle => hzero (Nat.le_zero.mp hle)
      rw [readRecord, htake]
      rfl

/-- **Records are cut back into their values**, all of one layout. -/
theorem readRecords_flat {fields : List (κ × ℕ)} (hfields : ∃ f ∈ fields, 0 < f.2)
    {records : List (List (κ × List UInt8))} (hlayout : ∀ r ∈ records, layout r = fields)
    {turns : ℕ} (hturns : records.length ≤ turns) :
    readRecords fields turns (records.flatMap flat) = records := by
  induction records generalizing turns with
  | nil =>
    cases turns with
    | zero => rfl
    | succ turns =>
      rw [flatMap_nil, readRecords, readRecord_nil hfields]
  | cons r records ih =>
    obtain ⟨turns, rfl⟩ : ∃ t, turns = t + 1 := by
      rw [length_cons] at hturns
      exact ⟨turns - 1, by omega⟩
    have hfirst := hlayout r mem_cons_self
    rw [flatMap_cons, readRecords, ← hfirst, readRecord_flat, hfirst]
    show r :: readRecords fields turns (records.flatMap flat) = r :: records
    rw [ih (fun r' hr' => hlayout r' (mem_cons_of_mem _ hr')) (by
      rw [length_cons] at hturns
      omega)]

end FieldList
