import DreamingOS.Lib.Scan
import DreamingOS.Lib.Outcome

/-!
# Internet addresses in text form

Which texts `inet_pton` takes for addresses.

* `isV4` — four decimal numbers up to 255, without leading zeros;
* `isV6` — eight hexadecimal groups, with `::` for a stretch of zeros, the last two groups also as
  an IPv4 address;
* `isV4_chars`, `isV6_chars` — such a text is short, and has no blanks.
-/

namespace Inet

open List

/-- A hexadecimal digit, of either case. -/
def isXDigit (c : Char) : Bool := c.isDigit || ('a' ≤ c && c ≤ 'f') || ('A' ≤ c && c ≤ 'F')

/-- `left` decimal numbers, with a dot between any two. -/
def v4Parts : ℕ → List Char → Bool
  | 0, _ => false
  | left + 1, s =>
    let ds := (s.take 3).takeWhile Char.isDigit
    if ds = [] ∨ (1 < ds.length ∧ ds.head? = some '0') ∨ 255 < Nat.ofDigitChars 10 ds 0 then false
    else
      match s.drop ds.length with
      | [] => left = 0
      | '.' :: r => v4Parts left r
      | _ => false

/-- `inet_pton(AF_INET, s, …) == 1`. -/
def isV4 (s : List Char) : Bool := v4Parts 4 s

/-- `left` groups, or fewer once the stretch of zeros has been seen. -/
def v6Groups : ℕ → Bool → List Char → Bool
  | 0, _, _ => false
  | left + 1, zeros, s =>
    if s.head? = some ':' ∧ zeros = false then
      if s.tail = [] then true
      else if left = 0 then false
      else v6Groups left true s.tail
    else
      let ds := (s.take 4).takeWhile isXDigit
      if ds = [] then false
      else
        match s.drop ds.length with
        | [] => zeros || left = 0
        | ':' :: r => left ≠ 0 && v6Groups left zeros r
        -- the groups left are an IPv4 address
        | '.' :: _ => left ≠ 0 && (left ≤ 1 || zeros) && isV4 s
        | _ => false

/-- `inet_pton(AF_INET6, s, …) == 1`. -/
def isV6 : List Char → Bool
  | ':' :: ':' :: s => v6Groups 8 false (':' :: s)
  | ':' :: _ => false
  | s => v6Groups 8 false s

/-! ### Their characters -/

/-- A character of an address. -/
def IsAddrChar (c : Char) : Prop := isXDigit c = true ∨ c = ':' ∨ c = '.'

theorem IsAddrChar.solid {c : Char} (h : IsAddrChar c) : Scan.isSpace c = false := by
  unfold Scan.isSpace
  simp only [Bool.or_eq_false_iff, decide_eq_false_iff_not]
  unfold IsAddrChar at h
  refine ⟨⟨⟨⟨⟨?_, ?_⟩, ?_⟩, ?_⟩, ?_⟩, ?_⟩ <;> rintro rfl <;> revert h <;> decide

theorem isXDigit_of_isDigit {c : Char} (h : c.isDigit = true) : isXDigit c = true := by
  unfold isXDigit
  rw [h]
  rfl

/-- The front of a text that passes a test, and what comes behind it. -/
theorem take_takeWhile_append (n : ℕ) (p : Char → Bool) (s : List Char) :
    (s.take n).takeWhile p ++ s.drop ((s.take n).takeWhile p).length = s := by
  have hprefix := ( takeWhile_prefix p (l := s.take n)).trans ( take_prefix n s)
  obtain ⟨rest, hrest⟩ := hprefix
  have hdrop : s.drop ((s.take n).takeWhile p).length = rest := by
    have h := @List.drop_left _ ((s.take n).takeWhile p) rest
    rwa [hrest] at h
  rw [hdrop, hrest]

theorem length_take_takeWhile (n : ℕ) (p : Char → Bool) (s : List Char) :
    ((s.take n).takeWhile p).length ≤ n :=
  Nat.le_trans ( takeWhile_prefix p).length_le (length_take_le n s)

variable {s : List Char}

/-- What an accepted text of numbers is made of. -/
theorem v4Parts_chars {left : ℕ} (h : v4Parts left s = true) :
    s.length ≤ 4 * left ∧ s ≠ [] ∧ ∀ c ∈ s, IsAddrChar c := by
  induction left generalizing s with
  | zero => cases h
  | succ left ih =>
    unfold v4Parts at h
    dsimp only at h
    have hs := take_takeWhile_append 3 Char.isDigit s
    have hlen := length_take_takeWhile 3 Char.isDigit s
    have hdigits : ∀ c ∈ (s.take 3).takeWhile Char.isDigit, IsAddrChar c := fun c hc =>
      Or.inl (isXDigit_of_isDigit (Scan.of_mem_takeWhile hc))
    generalize (s.take 3).takeWhile Char.isDigit = ds at h hs hlen hdigits
    obtain ⟨hds, h⟩ := Outcome.passed h nofun
    have hne : s ≠ [] := by
      rintro rfl
      exact hds (.inl (append_eq_nil_iff.mp hs).1)
    refine ⟨?_, hne, ?_⟩
    · split at h
      · next hrest => rw [← hs, hrest, append_nil]; omega
      · next r hrest =>
        have := (ih h).1
        rw [← hs, hrest, length_append, length_cons]
        omega
      · cases h
    · intro c hc
      rw [← hs] at hc
      obtain hc | hc := mem_append.mp hc
      · exact hdigits c hc
      · split at h
        · next hrest => rw [hrest] at hc; cases hc
        · next r hrest =>
          rw [hrest, mem_cons] at hc
          obtain rfl | hc := hc
          · exact .inr (.inr rfl)
          · exact (ih h).2.2 c hc
        · cases h

theorem v6Groups_chars {left : ℕ} {zeros : Bool} (h : v6Groups left zeros s = true) :
    s.length ≤ 5 * left + 16 ∧ s ≠ [] ∧ ∀ c ∈ s, IsAddrChar c := by
  induction left generalizing zeros s with
  | zero => cases h
  | succ left ih =>
    unfold v6Groups at h
    split at h
    · next hcolon =>
      cases s with
      | nil => cases hcolon.1
      | cons c s =>
        obtain rfl := Option.some.inj hcolon.1
        rw [tail_cons] at h
        split at h
        · next hnil =>
          subst hnil
          refine ⟨by simp, cons_ne_nil _ _, ?_⟩
          intro c hc
          rw [mem_singleton] at hc
          exact .inr (.inl hc)
        · replace h := (Outcome.passed h nofun).2
          obtain ⟨hlen, -, hchars⟩ := ih h
          refine ⟨by rw [length_cons]; omega, cons_ne_nil _ _, ?_⟩
          intro c hc
          rw [mem_cons] at hc
          obtain rfl | hc := hc
          · exact .inr (.inl rfl)
          · exact hchars c hc
    · dsimp only at h
      have hs := take_takeWhile_append 4 isXDigit s
      have hlen := length_take_takeWhile 4 isXDigit s
      have hdigits : ∀ c ∈ (s.take 4).takeWhile isXDigit, IsAddrChar c := fun c hc =>
        Or.inl (Scan.of_mem_takeWhile hc)
      generalize (s.take 4).takeWhile isXDigit = ds at h hs hlen hdigits
      obtain ⟨hds, h⟩ := Outcome.passed h nofun
      have hne : s ≠ [] := by
        rintro rfl
        exact hds (append_eq_nil_iff.mp hs).1
      split at h
      · next hrest =>
        rw [hrest, append_nil] at hs
        subst hs
        exact ⟨by omega, hne, hdigits⟩
      · next r hrest =>
        obtain ⟨hrlen, -, hchars⟩ := ih (Bool.and_eq_true _ _ ▸ h).2
        refine ⟨?_, hne, ?_⟩
        · rw [← hs, hrest, length_append, length_cons]
          omega
        · intro c hc
          rw [← hs, hrest, mem_append, mem_cons] at hc
          obtain hc | rfl | hc := hc
          · exact hdigits c hc
          · exact .inr (.inl rfl)
          · exact hchars c hc
      · obtain ⟨hvlen, -, hchars⟩ := v4Parts_chars (Bool.and_eq_true _ _ ▸ h).2
        exact ⟨by omega, hne, hchars⟩
      · cases h

theorem isV4_chars (h : isV4 s = true) : s.length ≤ 63 ∧ s ≠ [] ∧ ∀ c ∈ s, IsAddrChar c := by
  obtain ⟨hlen, hne, hchars⟩ := v4Parts_chars h
  exact ⟨by omega, hne, hchars⟩

theorem isV6_chars (h : isV6 s = true) : s.length ≤ 63 ∧ s ≠ [] ∧ ∀ c ∈ s, IsAddrChar c := by
  unfold isV6 at h
  split at h
  · next s =>
    obtain ⟨hlen, -, hchars⟩ := v6Groups_chars h
    refine ⟨by rw [length_cons]; omega, cons_ne_nil _ _, ?_⟩
    intro c hc
    rw [mem_cons] at hc
    obtain rfl | hc := hc
    · exact .inr (.inl rfl)
    · exact hchars c hc
  · cases h
  · obtain ⟨hlen, hne, hchars⟩ := v6Groups_chars h
    exact ⟨by omega, hne, hchars⟩

end Inet
