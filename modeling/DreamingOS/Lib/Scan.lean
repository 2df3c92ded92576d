import Mathlib.Algebra.Group.Int.Defs
import Mathlib.Algebra.Group.Nat.Defs
import Mathlib.Data.List.TakeDrop
import Mathlib.Data.List.TakeWhile

/-!
# Scanning formatted text

The conversions of `sscanf`, on lists of characters.

* `char`, `word`, `int`, `nat` — ` %c`, `%ns`, `%lld` and `%llu`: what is read, and what is left;
* `word_append`, `int_decimal`, `nat_decimal` — a field that is there is read whole;
* `tokens` — the words of a text; `tokens_char`, `tokens_word`, `tokens_int` — a conversion takes
  one word at most.
-/

namespace Scan

open List

/-- `isspace`. -/
def isSpace (c : Char) : Bool :=
  c = ' ' || c = '\t' || c = '\n' || c = '\x0b' || c = '\x0c' || c = '\r'

/-- What a conversion reads, and what it leaves. -/
abbrev Conv (α : Type) := List Char → Option (α × List Char)

/-- ` %c`. -/
def char : Conv Char := fun s =>
  match s.dropWhile isSpace with
  | [] => none
  | c :: r => some (c, r)

/-- `%ns`. -/
def word (n : ℕ) : Conv (List Char) := fun s =>
  let s := s.dropWhile isSpace
  let w := (s.takeWhile fun c => !isSpace c).take n
  if w = [] then none else some (w, s.drop w.length)

/-- Whether a number begins with a sign. -/
def signLength (s : List Char) : ℕ := if s.head? = some '-' ∨ s.head? = some '+' then 1 else 0

/-- An optional sign, and the digits behind it. -/
def signed : Conv (Bool × List Char) := fun s =>
  let s := s.dropWhile isSpace
  let ds := (s.drop (signLength s)).takeWhile Char.isDigit
  if ds = [] then none
  else some ((s.head? = some '-', ds), s.drop (signLength s + ds.length))

/-- `%lld`, with the range of 64 bits. -/
def int : Conv ℤ := fun s =>
  (signed s).map fun p =>
    let v : ℤ := Nat.ofDigitChars 10 p.1.2 0
    (max (-2 ^ 63) (min (2 ^ 63 - 1) (if p.1.1 then -v else v)), p.2)

/-- `%llu`. -/
def nat : Conv ℕ := fun s =>
  (signed s).map fun p =>
    let v := min (2 ^ 64 - 1) (Nat.ofDigitChars 10 p.1.2 0)
    (if p.1.1 then (2 ^ 64 - v) % 2 ^ 64 else v, p.2)

/-- A field: characters that are no blanks, one at least. -/
structure Field (w : List Char) : Prop where
  ne_nil : w ≠ []
  solid : ∀ c ∈ w, isSpace c = false

/-- The text ends or goes on with a blank. -/
def Stops (s : List Char) : Prop := ∀ c ∈ s.head?, isSpace c = true

theorem solid_of_all {w : List Char} (h : (w.all fun c => !isSpace c) = true) :
    ∀ c ∈ w, isSpace c = false := by simpa using h

/-! ### Fields that are there -/

variable {s : List Char} {c : Char}

theorem dropWhile_space_cons (h : isSpace c = true) :
    (c :: s).dropWhile isSpace = s.dropWhile isSpace := dropWhile_cons_of_pos h

theorem dropWhile_field {w s : List Char} (h : Field w) : (w ++ s).dropWhile isSpace = w ++ s := by
  obtain ⟨hne, hsolid⟩ := h
  cases w with
  | nil => exact absurd rfl hne
  | cons c w =>
    rw [cons_append, dropWhile_cons_of_neg]
    rw [hsolid c mem_cons_self]
    exact Bool.false_ne_true

theorem char_space (h : isSpace c = true) : char (c :: s) = char s := by
  unfold char
  rw [dropWhile_space_cons h]

theorem char_cons (h : isSpace c = false) : char (c :: s) = some (c, s) := by
  unfold char
  rw [dropWhile_cons_of_neg (by rw [h]; exact Bool.false_ne_true)]

variable {n : ℕ}

theorem word_space (h : isSpace c = true) : word n (c :: s) = word n s := by
  unfold word
  rw [dropWhile_space_cons h]

theorem takeWhile_field {w s : List Char} (hw : ∀ c ∈ w, isSpace c = false) (hs : Stops s) :
    (w ++ s).takeWhile (fun c => !isSpace c) = w := by
  rw [takeWhile_append_of_pos]
  · cases s with
    | nil => simp
    | cons c s =>
      have hc := hs c rfl
      rw [takeWhile_cons_of_neg (by rw [hc]; exact Bool.false_ne_true), append_nil]
  · intro c hc
    rw [hw c hc]
    rfl

/-- A field is read up to the width of the conversion. -/
theorem word_take {w s : List Char} (hw : Field w) (hn : 0 < n) (hs : Stops s) :
    word n (w ++ s) = some (w.take n, w.drop n ++ s) := by
  unfold word
  rw [dropWhile_field hw]
  dsimp only
  rw [takeWhile_field hw.solid hs]
  have hne : w.take n ≠ [] := by
    intro h
    rcases take_eq_nil_iff.mp h with h0 | h0
    · omega
    · exact hw.ne_nil h0
  rw [if_neg hne]
  congr 2
  rw [length_take]
  by_cases h : n ≤ w.length
  · rw [Nat.min_eq_left h, drop_append_of_le_length h]
  · have h' : w.length ≤ n := by omega
    rw [Nat.min_eq_right h', drop_left, drop_eq_nil_of_le h', nil_append]

theorem word_append {w s : List Char} (hw : Field w) (hn : w.length ≤ n) (hs : Stops s) :
    word n (w ++ s) = some (w, s) := by
  have hpos : 0 < n := by
    have := length_pos_iff.mpr hw.ne_nil
    omega
  rw [word_take hw hpos hs, take_of_length_le hn, drop_eq_nil_of_le hn, nil_append]

/-- A blank at the end of the text stays behind the word. -/
theorem word_concat_space (h : isSpace c = true) (s : List Char) :
    word n (s ++ [c]) = (word n s).map fun p => (p.1, p.2 ++ [c]) := by
  unfold word
  dsimp only
  by_cases hall : ∀ d ∈ s, isSpace d = true
  · have hleft : s.dropWhile isSpace = [] := dropWhile_eq_nil_iff.mpr hall
    have hright : (s ++ [c]).dropWhile isSpace = [] := by
      apply dropWhile_eq_nil_iff.mpr
      intro d hd
      rcases mem_append.mp hd with hd | hd
      · exact hall d hd
      · rw [mem_singleton.mp hd]
        exact h
    rw [hleft, hright, takeWhile_nil, take_nil, if_pos rfl]
    rfl
  · have hne : s.dropWhile isSpace ≠ [] := fun hnil => hall (dropWhile_eq_nil_iff.mp hnil)
    have hdrop : (s ++ [c]).dropWhile isSpace = s.dropWhile isSpace ++ [c] := by
      rw [dropWhile_append, if_neg]
      simpa using hne
    have htake : (s.dropWhile isSpace ++ [c]).takeWhile (fun c => !isSpace c) =
        (s.dropWhile isSpace).takeWhile fun c => !isSpace c := by
      rw [takeWhile_append]
      split
      · next hlen =>
        have hwhole : (s.dropWhile isSpace).takeWhile (fun c => !isSpace c) = s.dropWhile isSpace :=
          ( takeWhile_prefix _).eq_of_length hlen
        rw [takeWhile_cons_of_neg (by rw [h]; exact Bool.false_ne_true), append_nil, hwhole]
      · rfl
    rw [hdrop, htake]
    split
    · rfl
    · rw [Option.map_some, drop_append_of_le_length]
      rw [length_take]
      exact Nat.le_trans (Nat.min_le_right _ _) ( takeWhile_prefix _).length_le

theorem signed_space (h : isSpace c = true) : signed (c :: s) = signed s := by
  unfold signed
  rw [dropWhile_space_cons h]

theorem int_space (h : isSpace c = true) : int (c :: s) = int s := by
  unfold int
  rw [signed_space h]

theorem nat_space (h : isSpace c = true) : nat (c :: s) = nat s := by
  unfold nat
  rw [signed_space h]

theorem isSpace_of_isDigit (h : c.isDigit = true) : isSpace c = false := by
  unfold isSpace
  simp only [Bool.or_eq_false_iff, decide_eq_false_iff_not]
  refine ⟨⟨⟨⟨⟨?_, ?_⟩, ?_⟩, ?_⟩, ?_⟩, ?_⟩ <;> rintro rfl <;> revert h <;> decide

/-- The decimal digits of a number are a field. -/
theorem field_decimal (n : ℕ) : Field (Nat.toDigits 10 n) where
  ne_nil := Nat.toDigits_ne_nil
  solid := fun _ hc =>
    isSpace_of_isDigit (Nat.isDigit_of_mem_toDigits (by decide) (by decide) hc)

/-- Digits are read whole. -/
theorem signed_digits {ds s : List Char} (hdigit : ∀ c ∈ ds, c.isDigit = true) (hne : ds ≠ [])
    (hs : Stops s) : signed (ds ++ s) = some ((false, ds), s) := by
  have hfield : Field ds := ⟨hne, fun c hc => isSpace_of_isDigit (hdigit c hc)⟩
  have htake : (ds ++ s).takeWhile Char.isDigit = ds := by
    rw [takeWhile_append_of_pos hdigit]
    cases s with
    | nil => simp
    | cons c s =>
      have hc : c.isDigit = false := by
        cases hd : c.isDigit with
        | false => rfl
        | true =>
          have hspace := hs c rfl
          rw [isSpace_of_isDigit hd] at hspace
          cases hspace
      rw [takeWhile_cons_of_neg (by rw [hc]; exact Bool.false_ne_true), append_nil]
  have hhead : ∀ x, (ds ++ s).head? = some x → x.isDigit = true := by
    intro x hx
    cases ds with
    | nil => exact absurd rfl hne
    | cons c cs =>
      obtain rfl := Option.some.inj hx
      exact hdigit c mem_cons_self
  have hminus : (ds ++ s).head? ≠ some '-' := fun h => absurd (hhead _ h) (by decide)
  have hplus : (ds ++ s).head? ≠ some '+' := fun h => absurd (hhead _ h) (by decide)
  unfold signed signLength
  rw [dropWhile_field hfield]
  simp only [hminus, hplus, or_self, if_false, drop_zero, htake, hne, decide_false,
    Nat.zero_add, drop_left]

theorem int_digits {ds s : List Char} (hdigit : ∀ c ∈ ds, c.isDigit = true) (hne : ds ≠ [])
    (hlt : Nat.ofDigitChars 10 ds 0 < 2 ^ 63) (hs : Stops s) :
    int (ds ++ s) = some ((Nat.ofDigitChars 10 ds 0 : ℤ), s) := by
  unfold int
  rw [signed_digits hdigit hne hs]
  simp only [Option.map_some, Bool.false_eq_true, if_false]
  congr 2
  omega

theorem signed_decimal (n : ℕ) {s : List Char} (hs : Stops s) :
    signed (Nat.toDigits 10 n ++ s) = some ((false, Nat.toDigits 10 n), s) :=
  signed_digits (fun _ hc => Nat.isDigit_of_mem_toDigits (by decide) (by decide) hc)
    Nat.toDigits_ne_nil hs

theorem int_decimal (hn : n < 2 ^ 63) (hs : Stops s) :
    int (Nat.toDigits 10 n ++ s) = some ((n : ℤ), s) := by
  unfold int
  rw [signed_decimal n hs]
  simp only [Option.map_some, Nat.ofDigitChars_ten_toDigits, Bool.false_eq_true, if_false]
  congr 2
  omega

theorem nat_decimal (hn : n < 2 ^ 63) (hs : Stops s) :
    nat (Nat.toDigits 10 n ++ s) = some (n, s) := by
  unfold nat
  rw [signed_decimal n hs]
  simp only [Option.map_some, Nat.ofDigitChars_ten_toDigits, Bool.false_eq_true, if_false]
  rw [Nat.min_eq_right (by omega)]

/-! ### Counting words -/

/-- How many words a text has: the characters that end one. -/
def tokens : List Char → ℕ
  | [] => 0
  | c :: s => (if !isSpace c && s.head?.all isSpace then 1 else 0) + tokens s

theorem tokens_space (h : isSpace c = true) : tokens (c :: s) = tokens s := by
  rw [tokens, h]
  simp

theorem tokens_dropWhile (s : List Char) : tokens (s.dropWhile isSpace) = tokens s := by
  induction s with
  | nil => rfl
  | cons c s ih =>
    cases h : isSpace c with
    | true => rw [dropWhile_space_cons h, ih, tokens_space h]
    | false => rw [dropWhile_cons_of_neg (by rw [h]; exact Bool.false_ne_true)]

/-- Characters in front of a text end one word at most, when none of them is a blank. -/
theorem tokens_run {w : List Char} (s : List Char) (hw : ∀ c ∈ w, isSpace c = false) :
    tokens (w ++ s) ≤ tokens s + 1 := by
  induction w with
  | nil => exact Nat.le_succ _
  | cons c w ih =>
    have ih := ih fun c hc => hw c (mem_cons_of_mem _ hc)
    rw [cons_append, tokens]
    cases w with
    | nil =>
      rw [nil_append]
      split <;> omega
    | cons d w =>
      -- the next character is no blank, so none ends here
      have hd := hw d (mem_cons_of_mem _ mem_cons_self)
      rw [cons_append, head?_cons, Option.all_some, hd, Bool.and_false,
        if_neg Bool.false_ne_true, Nat.zero_add]
      exact ih

/-- A field and a blank in front of a text are one word more. -/
theorem tokens_field {w s : List Char} (hw : Field w) (hs : Stops s) :
    tokens (w ++ s) = tokens s + 1 := by
  obtain ⟨hne, hsolid⟩ := hw
  induction w with
  | nil => exact absurd rfl hne
  | cons c w ih =>
    rw [cons_append, tokens]
    cases w with
    | nil =>
      have hstop : s.head?.all isSpace = true := Option.all_eq_true_iff_get _ _ |>.mpr fun h =>
        hs _ (Option.get_mem h)
      rw [nil_append, hsolid c mem_cons_self, hstop, Bool.not_false, Bool.and_true, if_pos rfl]
      omega
    | cons d w =>
      have hd := hsolid d (mem_cons_of_mem _ mem_cons_self)
      have ih := ih (cons_ne_nil _ _) fun c hc => hsolid c (mem_cons_of_mem _ hc)
      rw [cons_append, head?_cons, Option.all_some, hd, Bool.and_false,
        if_neg Bool.false_ne_true, Nat.zero_add]
      exact ih

theorem tokens_char {s r : List Char} (h : char s = some (c, r)) : tokens s ≤ tokens r + 1 := by
  unfold char at h
  rw [← tokens_dropWhile]
  cases hs : s.dropWhile isSpace with
  | nil => rw [hs] at h; cases h
  | cons d t =>
    rw [hs] at h
    obtain ⟨rfl, rfl⟩ := Prod.mk.inj (Option.some.inj h)
    rw [tokens]
    split <;> omega

/-- A stretch without blanks that is taken away has one word at most. -/
theorem tokens_drop {k : ℕ} (h : ∀ c ∈ s.take k, isSpace c = false) :
    tokens s ≤ tokens (s.drop k) + 1 := by
  have hrun := tokens_run (s.drop k) h
  rwa [take_append_drop] at hrun

/-- The characters in front of the first one that fails a test pass it. -/
theorem of_mem_takeWhile {p : Char → Bool} (h : c ∈ s.takeWhile p) :
    p c = true := List.all_eq_true.mp all_takeWhile c h

theorem tokens_word {s r w : List Char} (h : word n s = some (w, r)) : tokens s ≤ tokens r + 1 := by
  unfold word at h
  rw [← tokens_dropWhile]
  dsimp only at h
  split at h
  · cases h
  obtain ⟨rfl, rfl⟩ := Prod.mk.inj (Option.some.inj h)
  apply tokens_drop
  -- the word is the front of the text
  have hprefix := ( take_prefix n _).trans
    ( takeWhile_prefix (fun c => !isSpace c) (l := s.dropWhile isSpace))
  rw [← prefix_iff_eq_take.mp hprefix]
  intro c hc
  simpa using of_mem_takeWhile (mem_of_mem_take hc)

theorem tokens_signed {s r : List Char} {p : Bool × List Char} (h : signed s = some (p, r)) :
    tokens s ≤ tokens r + 1 := by
  unfold signed at h
  rw [← tokens_dropWhile]
  dsimp only at h
  split at h
  · cases h
  obtain ⟨-, rfl⟩ := Prod.mk.inj (Option.some.inj h)
  apply tokens_drop
  intro c hc
  rw [take_add] at hc
  obtain hc | hc := mem_append.mp hc
  · -- the sign
    unfold signLength at hc
    split at hc
    · next hsign =>
      cases hs : s.dropWhile isSpace with
      | nil => rw [hs] at hc; cases hc
      | cons d t =>
        rw [hs, head?_cons] at hsign
        rw [hs, take_succ_cons, take_zero, mem_singleton] at hc
        subst hc
        obtain hsign | hsign := hsign <;> cases hsign <;> decide
    · rw [take_zero] at hc
      cases hc
  · -- the digits
    rw [← prefix_iff_eq_take.mp ( takeWhile_prefix Char.isDigit)] at hc
    exact isSpace_of_isDigit (of_mem_takeWhile hc)

theorem tokens_int {s r : List Char} {v : ℤ} (h : int s = some (v, r)) :
    tokens s ≤ tokens r + 1 := by
  unfold int at h
  obtain ⟨⟨p, r'⟩, hsigned, heq⟩ := Option.map_eq_some_iff.mp h
  obtain ⟨-, rfl⟩ := Prod.mk.inj heq
  exact tokens_signed hsigned

/-- A text with a word left has a character to read. -/
theorem char_isSome (h : 0 < tokens s) : ∃ p, char s = some p := by
  unfold char
  rw [← tokens_dropWhile] at h
  cases hs : s.dropWhile isSpace with
  | nil => rw [hs] at h; exact absurd h (Nat.lt_irrefl 0)
  | cons c r => exact ⟨_, rfl⟩

end Scan
