import DreamingOS.Lib.BigEndian

namespace Cbor

/-!
# Definite-length data items of the concise binary object representation

An item starts with a head: three bits of major type, five bits that give a number or the width of
a number behind them. What follows depends on the major type: so many bytes for a string, so many
items for an array, twice as many for a map, one item for a tag.

* `head` — the head at a position of a byte string;
* `Items bytes d n p q` — `n` items, nested at most `d` deep, stand from `p` to `q`;
* `Items.det`, `items_succ_iff` — where they end is determined, and items can be taken off at
  either end;
* `Ends` — the same with any nesting.
-/

/-- Major type and number of an item, and the position behind its head. -/
structure Head where
  (major arg next : ℕ)

/-- The width of the number behind an initial byte, from that byte's low five bits. -/
def argWidth (additional : ℕ) : Option ℕ :=
  if additional < 24 then some 0
  else match additional with
    | 24 => some 1
    | 25 => some 2
    | 26 => some 4
    | 27 => some 8
    -- 28 to 30 are reserved, 31 announces an item of indefinite length
    | _ => none

/-- The head at a position. -/
def head (bytes : List UInt8) (p : ℕ) : Option Head := do
  let initial ← bytes[p]?
  let width ← argWidth (initial.toNat % 32)
  let behind := (bytes.drop (p + 1)).take width
  if behind.length = width then
    some {
      major := initial.toNat / 32
      arg := if width = 0 then initial.toNat % 32 else Bytes.ofBE behind
      next := p + 1 + width }
  else
    none

/-- Byte strings and text strings carry their bytes behind the head. -/
def Head.isString (h : Head) : Bool := h.major == 2 || h.major == 3

/-- The position behind the head and the bytes of a string. -/
def Head.stop (h : Head) : ℕ := if h.isString then h.next + h.arg else h.next

/-- How many items belong to the item with this head. -/
def Head.children (h : Head) : ℕ :=
  match h.major with
  | 4 => h.arg
  | 5 => 2 * h.arg
  | 6 => 1
  | _ => 0

theorem Head.next_le_stop (h : Head) : h.next ≤ h.stop := by
  unfold stop
  split <;> omega

theorem argWidth_le {additional width : ℕ} (h : argWidth additional = some width) : width ≤ 8 := by
  unfold argWidth at h
  split at h
  · cases h
    omega
  · split at h <;> cases h <;> omega

section

variable {bytes : List UInt8} {p : ℕ} {h : Head}

/-- The head behind an initial byte. -/
theorem head_eq {initial : UInt8} (hinitial : bytes[p]? = some initial) :
    head bytes p = (argWidth (initial.toNat % 32)).bind fun width =>
      if p + 1 + width ≤ bytes.length then
        some {
          major := initial.toNat / 32
          arg := if width = 0 then initial.toNat % 32
            else Bytes.ofBE ((bytes.drop (p + 1)).take width)
          next := p + 1 + width }
      else none := by
  have hp := (List.getElem?_eq_some_iff.mp hinitial).1
  unfold head
  rw [hinitial]
  change (argWidth (initial.toNat % 32)).bind _ = _
  congr 1
  funext width
  have hlength : ((bytes.drop (p + 1)).take width).length = width ↔
      p + 1 + width ≤ bytes.length := by
    rw [List.length_take, List.length_drop]
    omega
  exact if_congr hlength rfl rfl

/-- What a head is made of. -/
theorem head_eq_some (hh : head bytes p = some h) :
    ∃ initial width, bytes[p]? = some initial ∧ argWidth (initial.toNat % 32) = some width ∧
      p + 1 + width ≤ bytes.length ∧ h.major = initial.toNat / 32 ∧ h.next = p + 1 + width ∧
      h.arg = if width = 0 then initial.toNat % 32
        else Bytes.ofBE ((bytes.drop (p + 1)).take width) := by
  cases hinitial : bytes[p]? with
  | none =>
    unfold head at hh
    rw [hinitial] at hh
    cases hh
  | some initial =>
    rw [head_eq hinitial, Option.bind_eq_some_iff] at hh
    obtain ⟨width, hwidth, hh⟩ := hh
    split at hh
    · next hle =>
      cases hh
      exact ⟨initial, width, rfl, hwidth, hle, rfl, rfl, rfl⟩
    · cases hh

theorem head_next (hh : head bytes p = some h) : p < h.next ∧ h.next ≤ bytes.length := by
  obtain ⟨-, width, -, -, hle, -, hnext, -⟩ := head_eq_some hh
  omega

theorem head_major_lt (hh : head bytes p = some h) : h.major < 8 := by
  obtain ⟨initial, -, -, -, -, hmajor, -⟩ := head_eq_some hh
  have := initial.toNat_lt
  omega

/-- A number in a head has at most eight bytes. -/
theorem head_arg_lt (hh : head bytes p = some h) : h.arg < 2 ^ 64 := by
  obtain ⟨initial, width, -, hwidth, -, -, -, harg⟩ := head_eq_some hh
  rw [harg]
  split
  · omega
  calc Bytes.ofBE ((bytes.drop (p + 1)).take width)
      < 256 ^ ((bytes.drop (p + 1)).take width).length := Bytes.ofBE_lt _
    _ ≤ 256 ^ 8 := by
        refine Nat.pow_le_pow_right (by omega) ?_
        rw [List.length_take]
        exact (min_le_left _ _).trans (argWidth_le hwidth)
    _ = 2 ^ 64 := by norm_num

end

/-! ### Items -/

/-- So many items, nested at most so deep, stand from one position to another. -/
inductive Items (bytes : List UInt8) : ℕ → ℕ → ℕ → ℕ → Prop
  | nil {d p : ℕ} : Items bytes d 0 p p
  | cons {d n p q r : ℕ} {h : Head} (hhead : head bytes p = some h)
      (hstop : h.stop ≤ bytes.length) (hchildren : Items bytes d h.children h.stop q)
      (hrest : Items bytes (d + 1) n q r) : Items bytes (d + 1) (n + 1) p r

/-- An item, nested at most so deep, stands from one position to another. -/
abbrev Item (bytes : List UInt8) (d p q : ℕ) : Prop := Items bytes d 1 p q

section

variable {bytes : List UInt8} {d n p q r : ℕ}

theorem Items.le (h : Items bytes d n p q) : p ≤ q := by
  induction h with
  | nil => exact Nat.le_refl _
  | cons hhead _ _ _ ihchildren ihrest =>
    have hnext := (head_next hhead).1
    have hstop := Head.next_le_stop ‹Head›
    omega

/-- Items end within the bytes. -/
theorem Items.le_length (h : Items bytes d n p q) (hp : p ≤ bytes.length) : q ≤ bytes.length := by
  induction h with
  | nil => exact hp
  | cons _ hstop _ _ ihchildren ihrest => exact ihrest (ihchildren hstop)

theorem Item.lt (h : Item bytes d p q) : p < q := by
  cases h with
  | cons hhead _ hchildren hrest =>
    have hnext := (head_next hhead).1
    have hstop := Head.next_le_stop ‹Head›
    have := hchildren.le
    have := hrest.le
    omega

/-- Where items end does not depend on the nesting allowed. -/
theorem Items.det {e q' : ℕ} (h : Items bytes d n p q) (h' : Items bytes e n p q') : q = q' := by
  induction h generalizing e q' with
  | nil =>
    cases h'
    rfl
  | cons hhead _ _ _ ihchildren ihrest =>
    cases h' with
    | cons hhead' _ hchildren' hrest' =>
      obtain rfl := Option.some.inj (hhead.symm.trans hhead')
      obtain rfl := ihchildren hchildren'
      exact ihrest hrest'

theorem Items.mono {e : ℕ} (h : Items bytes d n p q) (hde : d ≤ e) : Items bytes e n p q := by
  induction h generalizing e with
  | nil => exact .nil
  | cons hhead hstop _ _ ihchildren ihrest =>
    obtain ⟨e, rfl⟩ := Nat.exists_eq_add_of_lt hde
    exact .cons hhead hstop (ihchildren (by omega)) (ihrest (by omega))

theorem Items.append {m : ℕ} (h : Items bytes d m p q) (h' : Items bytes d n q r) :
    Items bytes d (m + n) p r := by
  induction h with
  | nil =>
    rw [Nat.zero_add]
    exact h'
  | @cons _ m _ _ _ _ hhead hstop hchildren _ _ ihrest =>
    rw [show m + 1 + n = m + n + 1 by omega]
    exact .cons hhead hstop hchildren (ihrest h')

theorem Items.split {m : ℕ} (h : Items bytes d (m + n) p r) :
    ∃ q, Items bytes d m p q ∧ Items bytes d n q r := by
  induction m generalizing p with
  | zero =>
    rw [Nat.zero_add] at h
    exact ⟨p, .nil, h⟩
  | succ m ih =>
    rw [show m + 1 + n = m + n + 1 by omega] at h
    cases h with
    | cons hhead hstop hchildren hrest =>
      obtain ⟨q, hfirst, hlast⟩ := ih hrest
      exact ⟨q, .cons hhead hstop hchildren hfirst, hlast⟩

/-- Items with one more behind them. -/
theorem items_succ_iff : Items bytes d (n + 1) p r ↔ ∃ q, Items bytes d n p q ∧ Item bytes d q r :=
  ⟨Items.split, fun ⟨_, hfirst, hlast⟩ => hfirst.append hlast⟩

/-- An item is its head and the items that belong to it. -/
theorem item_iff : Item bytes (d + 1) p q ↔
      ∃ h, head bytes p = some h ∧ h.stop ≤ bytes.length ∧ Items bytes d h.children h.stop q := by
  constructor
  · rintro (_ | ⟨hhead, hstop, hchildren, hrest⟩)
    cases hrest
    exact ⟨_, hhead, hstop, hchildren⟩
  · rintro ⟨h, hhead, hstop, hchildren⟩
    exact .cons hhead hstop hchildren .nil

end

/-! ### Items of any nesting -/

/-- So many well-formed items stand from one position to another. -/
def Ends (bytes : List UInt8) (n p q : ℕ) : Prop := ∃ d, Items bytes d n p q

variable {bytes : List UInt8} {n p q r : ℕ}

@[simp] theorem ends_zero : Ends bytes 0 p q ↔ p = q := by
  constructor
  · rintro ⟨_, h⟩
    cases h
    rfl
  · rintro rfl
    exact ⟨0, .nil⟩

theorem ends_succ : Ends bytes (n + 1) p r ↔ ∃ q, Ends bytes n p q ∧ Ends bytes 1 q r := by
  constructor
  · rintro ⟨d, h⟩
    obtain ⟨q, hfirst, hlast⟩ := items_succ_iff.mp h
    exact ⟨q, ⟨d, hfirst⟩, ⟨d, hlast⟩⟩
  · rintro ⟨q, ⟨d, hfirst⟩, ⟨e, hlast⟩⟩
    exact ⟨max d e, items_succ_iff.mpr
      ⟨q, hfirst.mono (le_max_left d e), hlast.mono (le_max_right d e)⟩⟩

theorem ends_one : Ends bytes 1 p q ↔
      ∃ h, head bytes p = some h ∧ h.stop ≤ bytes.length ∧ Ends bytes h.children h.stop q := by
  constructor
  · rintro ⟨d, hitem⟩
    cases d with
    | zero => cases hitem
    | succ d =>
      obtain ⟨h, hhead, hstop, hchildren⟩ := item_iff.mp hitem
      exact ⟨h, hhead, hstop, d, hchildren⟩
  · rintro ⟨h, hhead, hstop, d, hchildren⟩
    exact ⟨d + 1, item_iff.mpr ⟨h, hhead, hstop, hchildren⟩⟩

theorem Ends.det {q' : ℕ} (h : Ends bytes n p q) (h' : Ends bytes n p q') : q = q' := by
  obtain ⟨_, h⟩ := h
  obtain ⟨_, h'⟩ := h'
  exact h.det h'

theorem Ends.lt_le (h : Ends bytes 1 p q) : p < q ∧ q ≤ bytes.length := by
  obtain ⟨head, hhead, hstop, d, hchildren⟩ := ends_one.mp h
  obtain ⟨_, hitem⟩ := h
  exact ⟨Item.lt hitem, hchildren.le_length hstop⟩

end Cbor
