import DreamingOS.Lib.BigEndian

namespace Codec

open Bytes List Option

/-!
# Readers that are exact

A reader takes a value off the front of a byte string.

* `Exact` — what the reader takes off is what the writer writes, for the values of a condition;
* `takeMany`, `Exact.many` — a counted run of entries;
* `length_flatMap` — the bytes of a run of entries of one size.
-/

variable {α : Type}

/-- A reader: the value, and the bytes behind it. -/
abbrev Reader (α : Type) := List UInt8 → Option (α × List UInt8)

/-- The reader takes off exactly what is written of the values with `P`. -/
structure Exact (P : α → Prop) (write : α → List UInt8) (read : Reader α) : Prop where
  read_write : ∀ {a rest}, P a → read (write a ++ rest) = some (a, rest)
  write_read : ∀ {bs a rest}, read bs = some (a, rest) → bs = write a ++ rest ∧ P a

/-- A counted run of entries. -/
def takeMany (read : Reader α) : ℕ → Reader (List α)
  | 0, bs => some ([], bs)
  | n + 1, bs => do
    let (a, bs) ← read bs
    let (as, bs) ← takeMany read n bs
    return (a :: as, bs)

/-- **A counted run is exact** where its entries are. -/
theorem Exact.many {P : α → Prop} {write : α → List UInt8} {read : Reader α}
    (h : Exact P write read) (n : ℕ) :
    Exact (fun as => as.length = n ∧ ∀ a ∈ as, P a) (fun as => as.flatMap write)
      (takeMany read n) where
  read_write := by
    intro as rest has
    obtain ⟨hlen, hall⟩ := has
    induction as generalizing n with
    | nil =>
      subst hlen
      rfl
    | cons a as ih =>
      subst hlen
      have ha := hall a mem_cons_self
      have hrest := ih as.length rfl fun b hb => hall b (mem_cons_of_mem _ hb)
      rw [flatMap_cons, append_assoc, length_cons]
      unfold takeMany
      rw [h.read_write ha]
      show (do
        let (as, bs) ← takeMany read as.length (as.flatMap write ++ rest)
        return (a :: as, bs)) = _
      rw [hrest]
      rfl
  write_read := by
    intro bs as rest hread
    induction n generalizing bs as with
    | zero =>
      obtain ⟨rfl, rfl⟩ := Prod.mk.inj (some.inj hread)
      exact ⟨rfl, rfl, fun a ha => absurd ha not_mem_nil⟩
    | succ n ih =>
      obtain ⟨⟨a, bs₁⟩, ha, hread⟩ := bind_eq_some_iff.mp hread
      obtain ⟨⟨as', bs₂⟩, has, hread⟩ := bind_eq_some_iff.mp hread
      obtain ⟨rfl, rfl⟩ := Prod.mk.inj (some.inj hread)
      obtain ⟨rfl, hPa⟩ := h.write_read ha
      obtain ⟨rfl, hlen, hall⟩ := ih has
      refine ⟨by rw [flatMap_cons, append_assoc], by rw [length_cons, hlen], ?_⟩
      intro b hb
      rcases mem_cons.mp hb with rfl | hb
      · exact hPa
      · exact hall b hb

/-- A run of entries of one size. -/
theorem length_flatMap {write : α → List UInt8} {size : ℕ} (h : ∀ a, (write a).length = size)
    (as : List α) : (as.flatMap write).length = as.length * size := by
  induction as with
  | nil => simp
  | cons a as ih =>
    rw [flatMap_cons, length_append, h, ih, length_cons]
    ring

end Codec
