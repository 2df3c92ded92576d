import Mathlib.Data.List.Infix
import Mathlib.Tactic.Ring
import Mathlib.Tactic.NormNum

namespace Text

open List Option

/-!
# Text in byte strings

Searching, splitting into lines and decimal numbers, for lists of symbols and of bytes.

* `search needle hay` — the parts in front of and from the first occurrence on;
* `lines sep text` — the lines of a text, each with the mark whether a separator ended it;
* `decimal n` — the decimal digits of a number, and `digitsValue` — the number with these digits;
* `search_append`, `search_eq_none_iff` — where the first occurrence is, and when there is none;
* `join_lines` — the lines make up the text;
* `pairwise_lines`, `lines_flatMap` — only the last line may lack its separator, and a text of whole
  lines has these lines.
-/

section
variable {α : Type} [DecidableEq α]

/-! ### Searching -/

/-- The text in front of the first occurrence of `needle`, and the text from it on. -/
def search (needle : List α) : List α → Option (List α × List α)
  | [] => if needle = [] then some ([], []) else none
  | c :: cs =>
    if needle.isPrefixOf (c :: cs) then some ([], c :: cs)
    else (search needle cs).map fun p => (c :: p.1, p.2)

variable {hay needle : List α}

attribute [local simp] search in
theorem search_eq_some {a b : List α} (h : search needle hay = some (a, b)) :
    hay = a ++ b ∧ needle <+: b := by
  induction hay generalizing a with
  | nil =>
    unfold search at h
    split at h
    · next hnil =>
      cases h
      exact ⟨rfl, hnil ▸ prefix_rfl⟩
    · cases h
  | cons c cs ih =>
    unfold search at h
    split at h
    · next hpre =>
      cases h
      exact ⟨rfl, isPrefixOf_iff_prefix.mp hpre⟩
    · obtain ⟨⟨a', b'⟩, hsome, heq⟩ := map_eq_some_iff.mp h
      cases heq
      obtain ⟨rfl, hpre⟩ := ih hsome
      exact ⟨rfl, hpre⟩

theorem search_eq_none_iff : search needle hay = none ↔ ¬ needle <:+: hay := by
  induction hay with
  | nil =>
    unfold search
    by_cases h : needle = []
    · simp [h]
    · simp [h]
  | cons c cs ih =>
    unfold search
    by_cases hpre : needle.isPrefixOf (c :: cs) = true
    · rw [if_pos hpre]
      have hoccurs := ( isPrefixOf_iff_prefix.mp hpre).isInfix
      simp [hoccurs]
    · rw [if_neg hpre, map_eq_none_iff, ih, infix_cons_iff, not_or]
      have hno : ¬ needle <+: c :: cs := fun h => hpre ( isPrefixOf_iff_prefix.mpr h)
      exact ⟨fun h => ⟨hno, h⟩, fun h => h.2⟩

variable {front : List α}

/-- The first occurrence: none begins in the text in front of it. -/
theorem search_append {rest : List α}
    (h : ∀ b, b ≠ [] → b <:+ front → ¬ needle <+: b ++ (needle ++ rest)) :
    search needle (front ++ (needle ++ rest)) = some (front, needle ++ rest) := by
  induction front with
  | nil =>
    rw [nil_append]
    cases hcat : needle ++ rest with
    | nil =>
      unfold search
      rw [if_pos (append_eq_nil_iff.mp hcat).1]
    | cons c cs =>
      unfold search
      rw [if_pos]
      rw [← hcat]
      exact isPrefixOf_iff_prefix.mpr (prefix_append _ _)
  | cons c front ih =>
    have hfirst := h (c :: front) (by simp) suffix_rfl
    rw [cons_append] at hfirst ⊢
    unfold search
    rw [if_neg fun hpre => hfirst ( isPrefixOf_iff_prefix.mp hpre),
      ih fun b hb hsuf => h b hb (hsuf.trans (suffix_cons _ _))]
    rfl

/-- The first occurrence stays the first one when the text goes on. -/
theorem search_append_right {a b : List α} (h : search needle hay = some (a, b)) (more : List α) :
    search needle (hay ++ more) = some (a, b ++ more) := by
  induction hay generalizing a with
  | nil =>
    unfold search at h
    split at h
    · next hnil =>
      cases h
      rw [hnil]
      cases more with
      | nil => rfl
      | cons c more => rfl
    · cases h
  | cons c cs ih =>
    have hwhole := search_eq_some h
    rw [search] at h
    rw [cons_append, search]
    split at h
    · next hpre =>
      cases h
      have hpre' : needle.isPrefixOf (c :: (cs ++ more)) = true := by
        rw [ isPrefixOf_iff_prefix] at hpre ⊢
        rw [← cons_append]
        exact hpre.trans (prefix_append _ _)
      rw [if_pos hpre']
      rfl
    · next hpre =>
      obtain ⟨⟨a', b'⟩, hsome, heq⟩ := map_eq_some_iff.mp h
      cases heq
      have hpre' : ¬ needle.isPrefixOf (c :: (cs ++ more)) = true := by
        intro hpre'
        -- the needle is in the shorter text, so it is not longer than that
        have hlen : needle.length ≤ (c :: cs).length := by
          rw [hwhole.1, length_append]
          exact hwhole.2.length_le.trans (Nat.le_add_left _ _)
        rw [ isPrefixOf_iff_prefix, ← cons_append] at hpre'
        exact hpre ( isPrefixOf_iff_prefix.mpr
          (prefix_of_prefix_length_le hpre' (prefix_append _ _) hlen))
      rw [if_neg hpre', ih hsome]
      rfl

/-- A symbol at the end that the needle does not have makes no occurrence. -/
theorem search_concat_of_notMem {c : α} (h : c ∉ needle) (hne : needle ≠ []) (hay : List α) :
    search needle (hay ++ [c]) = (search needle hay).map fun p => (p.1, p.2 ++ [c]) := by
  cases hs : search needle hay with
  | some p => exact search_append_right hs [c]
  | none =>
    rw [map_none, search_eq_none_iff]
    rw [search_eq_none_iff] at hs
    intro hin
    obtain ⟨front, rest, heq⟩ := hin
    rcases eq_nil_or_concat rest with rfl | ⟨rest', d, rfl⟩
    · -- the needle would end with the symbol
      rw [append_nil] at heq
      have hlast := congrArg List.getLast? heq
      rw [getLast?_append_of_ne_nil _ hne, getLast?_concat] at hlast
      exact h (mem_of_getLast? hlast)
    · rw [concat_eq_append, ← append_assoc, append_singleton_inj] at heq
      exact hs ⟨front, rest', heq.1⟩

/-- A text without the first symbol of the needle is skipped. -/
theorem search_append_of_notMem {n : α} (h : n ∉ front) (rest : List α) :
    search (n :: needle) (front ++ rest) =
      (search (n :: needle) rest).map fun p => (front ++ p.1, p.2) := by
  induction front with
  | nil =>
    show search (n :: needle) rest = _
    simp
  | cons c front ih =>
    have hc : ¬ (n :: needle).isPrefixOf (c :: (front ++ rest)) = true := by
      intro hpre
      have hcons := (cons_prefix_cons.mp ( isPrefixOf_iff_prefix.mp hpre)).1
      exact h (hcons ▸ mem_cons_self)
    rw [cons_append, search, if_neg hc, ih fun hmem => h (mem_cons_of_mem _ hmem), Option.map_map]
    rfl

variable {sep : α}

/-- Searching for a doubled separator goes on behind a line that is followed by another one. -/
theorem search_doubled_line {line next : List α} (h : sep ∉ line) (hnext : sep ∉ next)
    (hne : next ≠ []) (rest : List α) :
    search [sep, sep] (line ++ sep :: (next ++ rest)) =
      (search [sep, sep] (next ++ rest)).map fun p => (line ++ sep :: p.1, p.2) := by
  obtain ⟨c, next, rfl⟩ := exists_cons_of_ne_nil hne
  have hc : sep ≠ c := fun heq => hnext (heq ▸ mem_cons_self)
  have hno : ¬ [sep, sep].isPrefixOf (sep :: (c :: next ++ rest)) = true := by simpa using hc
  rw [search_append_of_notMem h, search, if_neg hno, Option.map_map]
  rfl

/-- A doubled separator behind a line is found. -/
theorem search_doubled_end {line : List α} (h : sep ∉ line) (rest : List α) :
    search [sep, sep] (line ++ sep :: sep :: rest) = some (line, sep :: sep :: rest) := by
  have hpre : [sep, sep].isPrefixOf (sep :: sep :: rest) = true := by simp
  rw [search_append_of_notMem h, search, if_pos hpre, map_some, append_nil]

/-! ### Lines -/

/-- The lines of a text; the mark tells whether a separator ended the line. -/
def lines (sep : α) : List α → List (List α × Bool)
  | [] => []
  | c :: cs =>
    if c = sep then ([], true) :: lines sep cs
    else
      match lines sep cs with
      | [] => [([c], false)]
      | line :: rest => (c :: line.1, line.2) :: rest

/-- A line with its separator. -/
def ended (sep : α) (line : List α × Bool) : List α := line.1 ++ if line.2 then [sep] else []

attribute [local simp] lines in
theorem join_lines (sep : α) (text : List α) : (lines sep text).flatMap (ended sep) = text := by
  induction text with
  | nil => rfl
  | cons c cs ih =>
    unfold lines
    split
    · next hc =>
      rw [flatMap_cons, ih, hc]
      rfl
    split
    · next hnil =>
      rw [hnil, flatMap_nil] at ih
      rw [← ih]
      rfl
    · next line rest hcons =>
      rw [hcons, flatMap_cons] at ih
      rw [flatMap_cons, ← ih]
      rfl

variable {text : List α} {line : List α × Bool}

theorem notMem_of_mem_lines (h : line ∈ lines sep text) : sep ∉ line.1 := by
  induction text generalizing line with
  | nil => cases h
  | cons c cs ih =>
    unfold lines at h
    split at h
    · rcases mem_cons.mp h with rfl | h
      · simp
      · exact ih h
    rename_i hc
    split at h
    · rw [mem_singleton.mp h]
      simpa using Ne.symm hc
    rename_i first rest hcons
    rcases mem_cons.mp h with rfl | h
    · have hmem : first ∈ lines sep cs := hcons ▸ mem_cons_self
      have hfirst := ih hmem
      simpa [Ne.symm hc] using hfirst
    · exact ih (hcons ▸ mem_cons_of_mem _ h)

/-- The first line of a text that has a separator. -/
theorem lines_append (h : sep ∉ front) (rest : List α) :
    lines sep (front ++ sep :: rest) = (front, true) :: lines sep rest := by
  induction front with
  | nil => rw [nil_append, lines, if_pos rfl]
  | cons c front ih =>
    have hc : c ≠ sep := fun heq => h (heq ▸ mem_cons_self)
    rw [cons_append, lines, if_neg hc, ih fun hmem => h (mem_cons_of_mem _ hmem)]

/-- A text of whole lines is split line by line. -/
theorem lines_concat (sep : α) (front rest : List α) :
    lines sep (front ++ sep :: rest) = lines sep (front ++ [sep]) ++ lines sep rest := by
  induction front with
  | nil =>
    rw [nil_append, nil_append, lines, lines, if_pos rfl, if_pos rfl]
    rfl
  | cons c front ih =>
    rw [cons_append, cons_append, lines, lines]
    by_cases hc : c = sep
    · rw [if_pos hc, if_pos hc, ih]
      rfl
    rw [if_neg hc, if_neg hc, ih]
    cases hl : lines sep (front ++ [sep]) with
    | nil =>
      have hjoin := join_lines sep (front ++ [sep])
      rw [hl] at hjoin
      exact absurd hjoin.symm (by simp)
    | cons line ls => rfl

theorem lines_of_notMem (h : sep ∉ text) (hne : text ≠ []) : lines sep text = [(text, false)] := by
  induction text with
  | nil => exact absurd rfl hne
  | cons c cs ih =>
    have hc : c ≠ sep := fun heq => h (heq ▸ mem_cons_self)
    rw [lines, if_neg hc]
    cases cs with
    | nil => rfl
    | cons d cs =>
      rw [ih (fun hmem => h (mem_cons_of_mem _ hmem)) (by simp)]

/-- A line without its separator is not empty. -/
theorem ne_nil_of_mem_lines (h : line ∈ lines sep text) (hmark : line.2 = false) : line.1 ≠ [] := by
  induction text generalizing line with
  | nil => cases h
  | cons c cs ih =>
    unfold lines at h
    split at h
    · rcases mem_cons.mp h with rfl | h
      · cases hmark
      · exact ih h hmark
    split at h
    · rw [mem_singleton.mp h]
      exact cons_ne_nil _ _
    rename_i first rest hcons
    rcases mem_cons.mp h with rfl | h
    · exact cons_ne_nil _ _
    · exact ih (hcons ▸ mem_cons_of_mem _ h) hmark

/-- Only the last line may lack its separator. -/
theorem pairwise_lines (sep : α) (text : List α) :
    (lines sep text).Pairwise fun line _ => line.2 = true := by
  induction text with
  | nil => exact List.Pairwise.nil
  | cons c cs ih =>
    unfold lines
    split
    · exact pairwise_cons.mpr ⟨fun _ _ => rfl, ih⟩
    split
    · exact pairwise_singleton _ _
    rename_i line rest hcons
    rw [hcons, pairwise_cons] at ih
    exact pairwise_cons.mpr ⟨ih.1, ih.2⟩

variable {ls : List (List α × Bool)}

/-- The lines of a text that begins with whole lines. -/
theorem lines_flatMap (h : ∀ line ∈ ls, sep ∉ line.1)
    (rest : List α) : lines sep (ls.flatMap (fun line => line.1 ++ [sep]) ++ rest) =
      ls.map (fun line => (line.1, true)) ++ lines sep rest := by
  induction ls with
  | nil => rfl
  | cons line ls ih =>
    rw [flatMap_cons, append_assoc, append_assoc, singleton_append,
      lines_append (h line mem_cons_self), ih fun l hl => h l (mem_cons_of_mem _ hl)]
    rfl

omit [DecidableEq α] in
/-- Lines of which only the last may lack its separator, and that separator. -/
theorem flatMap_ended (h : ls.Pairwise fun line _ => line.2 = true) :
    ls.flatMap (ended sep) ++ (if ls.getLast?.all Prod.snd then [] else [sep]) =
      ls.flatMap fun line => line.1 ++ [sep] := by
  induction ls with
  | nil => rfl
  | cons line ls ih =>
    obtain ⟨hline, hls⟩ := pairwise_cons.mp h
    cases ls with
    | nil =>
      obtain ⟨body, mark⟩ := line
      cases mark <;> simp [ended]
    | cons next ls =>
      have hmark : line.2 = true := hline next mem_cons_self
      have hended : ended sep line = line.1 ++ [sep] := by rw [ended, hmark, if_pos rfl]
      rw [getLast?_cons_cons, flatMap_cons, append_assoc, ih hls, hended]
      rfl

end

/-! ### Decimal numbers -/

/-- The bytes of ASCII characters. -/
def ascii (cs : List Char) : List UInt8 := cs.map fun c => UInt8.ofNat c.toNat

/-- The last digits of a number, as many as there is fuel. -/
def decimalFuel : ℕ → ℕ → List UInt8
  | 0, _ => []
  | fuel + 1, n =>
    (if n < 10 then [] else decimalFuel fuel (n / 10)) ++ [UInt8.ofNat (48 + n % 10)]

/-- The decimal digits of a number. -/
def decimal (n : ℕ) : List UInt8 := decimalFuel (n + 1) n

def isDigit (b : UInt8) : Bool := 48 ≤ b.toNat ∧ b.toNat ≤ 57

/-- The number with these decimal digits. -/
def digitsValue (bs : List UInt8) : ℕ := bs.foldl (fun n b => n * 10 + (b.toNat - 48)) 0

theorem toNat_digit (n : ℕ) : (UInt8.ofNat (48 + n % 10)).toNat = 48 + n % 10 := by
  rw [UInt8.toNat_ofNat']
  omega

variable {n : ℕ} {b : UInt8}

attribute [local simp] decimalFuel in
theorem isDigit_of_mem_decimalFuel {fuel : ℕ} (h : b ∈ decimalFuel fuel n) : isDigit b = true := by
  induction fuel generalizing n with
  | zero => cases h
  | succ fuel ih =>
    unfold decimalFuel at h
    rcases mem_append.mp h with h | h
    · split at h
      · cases h
      · exact ih h
    · rw [mem_singleton.mp h, isDigit, toNat_digit]
      simp
      omega

theorem digitsValue_decimalFuel {fuel : ℕ} (h : n < fuel) :
    digitsValue (decimalFuel fuel n) = n := by
  induction fuel generalizing n with
  | zero => omega
  | succ fuel ih =>
    unfold decimalFuel
    rw [digitsValue, foldl_append, foldl_cons, foldl_nil, toNat_digit]
    split
    · rw [foldl_nil]
      omega
    have hrest := ih (n := n / 10) (by omega)
    rw [digitsValue] at hrest
    rw [hrest]
    omega

theorem isDigit_of_mem_decimal (h : b ∈ decimal n) : isDigit b = true :=
  isDigit_of_mem_decimalFuel h

theorem decimal_ne_nil (n : ℕ) : decimal n ≠ [] := by
  simp [decimal, decimalFuel]

/-- Reading back the digits of a number. -/
theorem digitsValue_decimal (n : ℕ) : digitsValue (decimal n) = n :=
  digitsValue_decimalFuel (Nat.lt_succ_self n)

theorem length_decimalFuel_le (fuel n k : ℕ) (h : n < 10 ^ (k + 1)) :
    (decimalFuel fuel n).length ≤ k + 1 := by
  induction fuel generalizing n k with
  | zero => exact Nat.zero_le _
  | succ fuel ih =>
    unfold decimalFuel
    rw [length_append, length_singleton]
    split
    · exact Nat.succ_le_succ (Nat.zero_le _)
    cases k with
    | zero => omega
    | succ k =>
      have hlt : n / 10 < 10 ^ (k + 1) := by
        rw [Nat.div_lt_iff_lt_mul (by norm_num)]
        rwa [pow_succ] at h
      exact Nat.succ_le_succ (ih (n / 10) k hlt)

/-- A number below `10 ^ k` has at most `k` digits. -/
theorem length_decimal_le {k : ℕ} (h : n < 10 ^ (k + 1)) : (decimal n).length ≤ k + 1 :=
  length_decimalFuel_le _ _ _ h

end Text
