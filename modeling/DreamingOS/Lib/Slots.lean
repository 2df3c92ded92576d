import Mathlib.Data.List.Basic

namespace Slots

open List Option

/-!
# Slot tables — an array of slots, some of them in use

A slot in use has a key; a search returns the first slot it looks for, with its place.  What
matters of such a table is `lookup`, the slot of a key, and `used`, how many slots are in use.

* `Distinct` — no two slots in use have one key;
* `Distinct.set` — writing a slot keeps the keys distinct, if no other slot has the new key;
* `lookup_set` — **what a key finds after a slot is written**;
* `used_set` — the count after a slot is written.
-/

variable {σ κ : Type}

/-- The first slot that satisfies `p`, with its place. -/
def find (p : σ → Bool) : List σ → Option (ℕ × σ)
  | [] => none
  | a :: slots => if p a then some (0, a) else (find p slots).map fun r => (r.1 + 1, r.2)

variable {slots : List σ} {i : ℕ} {a : σ} {p : σ → Bool}

theorem find_some (h : find p slots = some (i, a)) : slots[i]? = some a ∧ p a = true := by
  induction slots generalizing i with
  | nil => cases h
  | cons b slots ih =>
    rw [find] at h
    by_cases hb : p b = true
    · rw [if_pos hb] at h
      obtain ⟨rfl, rfl⟩ := Prod.mk.inj (some.inj h)
      exact ⟨rfl, hb⟩
    · rw [if_neg hb] at h
      obtain ⟨⟨j, c⟩, hfind, heq⟩ := map_eq_some_iff.mp h
      obtain ⟨rfl, rfl⟩ := Prod.mk.inj heq
      exact ih hfind

theorem find_none : find p slots = none ↔ ∀ a ∈ slots, p a = false := by
  induction slots with
  | nil => simp [find]
  | cons b slots ih =>
    rw [find, forall_mem_cons]
    by_cases hb : p b = true
    · simp [hb]
    · rw [if_neg hb, map_eq_none_iff, ih]
      simp [hb]

variable (key : σ → Option κ)

/-- How many slots are in use. -/
def used (slots : List σ) : ℕ := slots.countP fun a => (key a).isSome

/-- No two slots in use have one key. -/
def Distinct (slots : List σ) : Prop :=
  ∀ (i j : ℕ) (a b : σ) (k : κ), slots[i]? = some a → slots[j]? = some b →
    key a = some k → key b = some k → i = j

variable {key} {b : σ}

theorem getElem?_set_cases {i j : ℕ} {c : σ}
    (h : (slots.set i b)[j]? = some c) : (j = i ∧ c = b) ∨ (j ≠ i ∧ slots[j]? = some c) := by
  by_cases hij : j = i
  · subst hij
    rw [getElem?_set_self'] at h
    cases hslot : slots[j]? with
    | none => rw [hslot] at h; cases h
    | some d =>
      rw [hslot] at h
      exact .inl ⟨rfl, (some.inj h).symm⟩
  · rw [getElem?_set_ne (Ne.symm hij)] at h
    exact .inr ⟨hij, h⟩

/-- Writing a slot keeps the keys distinct, if no other slot has the new key. -/
theorem Distinct.set (hd : Distinct key slots)
    (hnew : ∀ j c k, j ≠ i → slots[j]? = some c → key b = some k → key c ≠ some k) :
    Distinct key (slots.set i b) := by
  intro m n c d k hm hn hc hd'
  rcases getElem?_set_cases hm with ⟨hmi, rfl⟩ | ⟨hmi, hm'⟩
  · rcases getElem?_set_cases hn with ⟨hni, -⟩ | ⟨hni, hn'⟩
    · rw [hmi, hni]
    · exact absurd hd' (hnew n d k hni hn' hc)
  · rcases getElem?_set_cases hn with ⟨hni, rfl⟩ | ⟨hni, hn'⟩
    · exact absurd hc (hnew m c k hmi hm' hd')
    · exact hd m n c d k hm' hn' hc hd'

/-- A slot may be rewritten under its key, or freed. -/
theorem Distinct.set_same (hd : Distinct key slots)
    (hget : slots[i]? = some a) (hkey : key b = key a ∨ key b = none) :
    Distinct key (slots.set i b) := by
  apply hd.set
  intro j c k hj hc hb hck
  rcases hkey with hkey | hkey
  · exact hj (hd j i c a k hc hget hck (hkey ▸ hb))
  · rw [hkey] at hb
    cases hb

variable {f : σ → σ}

/-- Slots may be freed. -/
theorem Distinct.map (hd : Distinct key slots)
    (hf : ∀ a, key (f a) = key a ∨ key (f a) = none) : Distinct key (slots.map f) := by
  intro i j a b k hi hj ha hb
  rw [getElem?_map] at hi hj
  obtain ⟨a, ha', rfl⟩ := map_eq_some_iff.mp hi
  obtain ⟨b, hb', rfl⟩ := map_eq_some_iff.mp hj
  have hold : ∀ c, key (f c) = some k → key c = some k := by
    intro c hc
    rcases hf c with h | h
    · rw [← h, hc]
    · rw [h] at hc
      cases hc
  exact hd i j a b k ha' hb' (hold a ha) (hold b hb)

/-- The count after a slot is written. -/
theorem used_set {slots : List σ} {i : ℕ} {a : σ} (b : σ) (hget : slots[i]? = some a) :
    used key (slots.set i b) + (key a).isSome.toNat = used key slots + (key b).isSome.toNat := by
  induction slots generalizing i with
  | nil => cases hget
  | cons c slots ih =>
    cases i with
    | zero =>
      obtain rfl : c = a := some.inj hget
      simp only [set_cons_zero, used, countP_cons]
      cases hc : (key c).isSome <;> cases hb : (key b).isSome <;> simp
    | succ i =>
      have hrest := ih hget
      simp only [set_cons_succ, used, countP_cons] at hrest ⊢
      omega

variable [DecidableEq κ]

variable (key) in
/-- The slot of a key. -/
def lookup (slots : List σ) (k : κ) : Option σ :=
  (find (fun a => key a = some k) slots).map Prod.snd

variable {k : κ}

theorem lookup_eq_none : lookup key slots k = none ↔ ∀ a ∈ slots, key a ≠ some k := by
  rw [lookup, map_eq_none_iff, find_none]
  simp only [decide_eq_false_iff_not, ne_eq]

theorem lookup_some (h : lookup key slots k = some a) :
    ∃ i : ℕ, slots[i]? = some a ∧ key a = some k := by
  obtain ⟨⟨i, b⟩, hfind, rfl⟩ := map_eq_some_iff.mp h
  obtain ⟨hget, hkey⟩ := find_some hfind
  exact ⟨i, hget, by simpa using hkey⟩

/-- In a table with distinct keys a slot is what its key finds. -/
theorem lookup_of_getElem (hd : Distinct key slots)
    (hget : slots[i]? = some a) (hkey : key a = some k) : lookup key slots k = some a := by
  cases h : lookup key slots k with
  | none => exact absurd hkey (lookup_eq_none.mp h a (mem_of_getElem? hget))
  | some b =>
    obtain ⟨j, hget', hkey'⟩ := lookup_some h
    obtain rfl := hd i j a b k hget hget' hkey hkey'
    rw [hget] at hget'
    exact hget'.symm

/-- A slot may get a key that no slot has. -/
theorem Distinct.set_new (hd : Distinct key slots)
    (hkey : key b = some k) (hfree : lookup key slots k = none) :
    Distinct key (slots.set i b) := by
  apply hd.set
  intro j c k' _ hc hb hck
  rw [hkey] at hb
  obtain rfl := some.inj hb
  exact lookup_eq_none.mp hfree c (mem_of_getElem? hc) hck

/-- **What a key finds after a slot is written**: the new slot under its key, nothing under the key
    the slot had, and what it found before under any other. -/
theorem lookup_set (hd : Distinct key slots)
    (hget : slots[i]? = some a) (hd' : Distinct key (slots.set i b)) (k : κ) :
    lookup key (slots.set i b) k = if key b = some k then some b
      else if key a = some k then none
      else lookup key slots k := by
  have hlen : i < slots.length := (List.getElem?_eq_some_iff.mp hget).1
  by_cases hb : key b = some k
  · rw [if_pos hb]
    exact lookup_of_getElem hd' (getElem?_set_self hlen) hb
  rw [if_neg hb]
  by_cases ha : key a = some k
  · rw [if_pos ha, lookup_eq_none]
    intro c hc hck
    obtain ⟨j, hj⟩ := getElem?_of_mem hc
    rcases getElem?_set_cases hj with ⟨rfl, rfl⟩ | ⟨hji, hj⟩
    · exact hb hck
    · exact hji (hd j i c a k hj hget hck ha)
  rw [if_neg ha]
  cases h : lookup key slots k with
  | none =>
    rw [lookup_eq_none] at h ⊢
    intro c hc
    obtain ⟨j, hj⟩ := getElem?_of_mem hc
    rcases getElem?_set_cases hj with ⟨rfl, rfl⟩ | ⟨-, hj⟩
    · exact hb
    · exact h c (mem_of_getElem? hj)
  | some c =>
    obtain ⟨j, hj, hck⟩ := lookup_some h
    have hji : j ≠ i := by
      rintro rfl
      rw [hget] at hj
      exact ha (some.inj hj ▸ hck)
    exact lookup_of_getElem hd' (by rw [getElem?_set_ne hji.symm, hj]) hck

/-- A key finds its slot still, if the slot was not freed. -/
theorem lookup_map (hd : Distinct key slots) {keep : σ → Bool}
    (hkeep : ∀ a, keep a = true → f a = a) (hfree : ∀ a, keep a = false → key (f a) = none)
    (k : κ) : lookup key (slots.map f) k = (lookup key slots k).filter keep := by
  have hf : ∀ a, key (f a) = key a ∨ key (f a) = none := by
    intro a
    cases h : keep a with
    | true => exact .inl (by rw [hkeep a h])
    | false => exact .inr (hfree a h)
  have hd' := hd.map hf
  cases hlook : lookup key slots k with
  | none =>
    rw [filter_none, lookup_eq_none]
    intro b hb
    obtain ⟨a, ha, rfl⟩ := List.mem_map.mp hb
    have hne := lookup_eq_none.mp hlook a ha
    rcases hf a with h | h
    · rwa [h]
    · rw [h]
      nofun
  | some a =>
    obtain ⟨i, hi, hak⟩ := lookup_some hlook
    have hi' : (slots.map f)[i]? = some (f a) := by rw [getElem?_map, hi]; rfl
    cases h : keep a with
    | true =>
      rw [filter_some_pos h]
      rw [hkeep a h] at hi'
      exact lookup_of_getElem hd' hi' hak
    | false =>
      rw [filter_some_neg h, lookup_eq_none]
      intro b hb hbk
      obtain ⟨j, hj⟩ := getElem?_of_mem hb
      rw [getElem?_map] at hj
      obtain ⟨c, hc, rfl⟩ := map_eq_some_iff.mp hj
      rcases hf c with hkc | hkc
      · -- the only slot with the key is the one that was freed
        rw [hkc] at hbk
        obtain rfl := hd i j a c k hi hc hak hbk
        rw [hi] at hc
        obtain rfl := some.inj hc
        rw [hfree a h] at hkc
        rw [← hkc] at hak
        cases hak
      · rw [hkc] at hbk
        cases hbk

end Slots
