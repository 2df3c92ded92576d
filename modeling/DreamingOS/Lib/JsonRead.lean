import DreamingOS.Lib.JsonBytes

namespace JsonBytes

open List Option

/-!
# JSON values — a library without doubles

A reader of compact texts, which makes a `StrictJson` that is lawful.

* `readUnit`, `readString`, `readValue` — the inverse of the writer, with fuel;
* `readValue_print` — **what was written is read back**;
* `compact`, `compact_lawful` — the strict parser of compact texts.
-/

/-! ### Strings -/

def hexValue (b : UInt8) : ℕ := if b < 0x3a then b.toNat - 0x30 else b.toNat - 0x57

/-- One byte of a string, from the one or more bytes it is written as. -/
def readUnit : List UInt8 → Option (UInt8 × List UInt8)
  | [] => none
  | b :: rest =>
    if b ≠ 0x5c then some (b, rest)
    else
      match rest with
      | [] => none
      | e :: rest =>
        if e = 0x62 then some (0x08, rest)
        else if e = 0x74 then some (0x09, rest)
        else if e = 0x6e then some (0x0a, rest)
        else if e = 0x66 then some (0x0c, rest)
        else if e = 0x72 then some (0x0d, rest)
        else if e = 0x75 then
          match rest with
          | _ :: _ :: high :: low :: rest =>
            some (UInt8.ofNat (16 * hexValue high + hexValue low), rest)
          | _ => none
        else some (e, rest)

/-- The rest of a string behind its opening quote. -/
def readString : ℕ → List UInt8 → Option (List UInt8 × List UInt8)
  | 0, _ => none
  | fuel + 1, bs =>
    if bs.head? = some 0x22 then some ([], bs.tail)
    else
      match readUnit bs with
      | none => none
      | some (b, rest) => (readString fuel rest).map fun r => (b :: r.1, r.2)

theorem hexValue_hexDigit {n : ℕ} (h : n < 16) : hexValue (hexDigit n) = n := by
  have hall : ∀ n : Fin 16, hexValue (hexDigit n) = n := by decide
  exact hall ⟨n, h⟩

theorem readUnit_escape (b : UInt8) (rest : List UInt8) :
    readUnit (escape b ++ rest) = some (b, rest) := by
  unfold escape
  split_ifs with h1 h2 h3 h4 h5 h6 h7
  · rw [h1]; rfl
  · rw [h2]; rfl
  · rw [h3]; rfl
  · rw [h4]; rfl
  · rw [h5]; rfl
  · obtain rfl | rfl | rfl := h6 <;> rfl
  · have hlt : b.toNat < 32 := UInt8.lt_iff_toNat_lt.mp h7
    show some (UInt8.ofNat (16 * hexValue (hexDigit (b.toNat / 16)) +
      hexValue (hexDigit (b.toNat % 16))), rest) = _
    rw [hexValue_hexDigit (by omega), hexValue_hexDigit (by omega), Nat.div_add_mod,
      UInt8.ofNat_toNat]
  · have hplain : b ≠ 0x5c := fun heq => h6 (.inr (.inl heq))
    show (if b ≠ 0x5c then some (b, rest) else _) = _
    rw [if_pos hplain]

/-- No byte of a string is written like the quote that ends it. -/
theorem head_escape (b : UInt8) (rest : List UInt8) : (escape b ++ rest).head? ≠ some 0x22 := by
  have hall : ∀ n : Fin 256, (escape (UInt8.ofNat n)).head? ≠ some 0x22 ∧
      escape (UInt8.ofNat n) ≠ [] := by
    decide +kernel
  obtain ⟨hhead, hne⟩ := hall ⟨b.toNat, b.toNat_lt⟩
  rw [UInt8.ofNat_toNat] at hhead hne
  cases hcase : escape b with
  | nil => exact absurd hcase hne
  | cons c cs =>
    rw [hcase] at hhead
    exact hhead

variable {s : List UInt8}

theorem readString_escaped {fuel : ℕ} (hfuel : s.length < fuel) (rest : List UInt8) :
    readString fuel (s.flatMap escape ++ 0x22 :: rest) = some (s, rest) := by
  induction s generalizing fuel with
  | nil =>
    obtain ⟨fuel, rfl⟩ := Nat.exists_eq_succ_of_ne_zero (Nat.ne_of_gt hfuel)
    rfl
  | cons b s ih =>
    obtain ⟨fuel, rfl⟩ := Nat.exists_eq_succ_of_ne_zero (Nat.ne_of_gt (Nat.zero_lt_of_lt hfuel))
    rw [flatMap_cons, append_assoc, readString, if_neg (head_escape b _), readUnit_escape]
    show Option.map _ (readString fuel _) = _
    rw [ih (Nat.lt_of_succ_lt_succ hfuel)]
    rfl

/-! ### Values -/

/-- The digits at the front, and the rest. -/
def readDigits (bs : List UInt8) : ℕ × List UInt8 :=
  (Text.digitsValue (bs.takeWhile Text.isDigit), bs.dropWhile Text.isDigit)

mutual

def readValue : ℕ → List UInt8 → Option (Value Empty × List UInt8)
  | 0, _ => none
  | _ + 1, [] => none
  | fuel + 1, b :: rest =>
    if b = 0x6e then some (.null, rest.drop 3)
    else if b = 0x74 then some (.bool true, rest.drop 3)
    else if b = 0x66 then some (.bool false, rest.drop 4)
    else if b = 0x22 then (readString fuel rest).map fun r => (.str r.1, r.2)
    else if b = 0x5b then (readItems fuel true rest).map fun r => (.arr r.1, r.2)
    else if b = 0x7b then (readMembers fuel true rest).map fun r => (.obj r.1, r.2)
    else if b = 0x2d then some (.int (-(readDigits rest).1), (readDigits rest).2)
    else some (.int (readDigits (b :: rest)).1, (readDigits (b :: rest)).2)

def readItems : ℕ → Bool → List UInt8 → Option (List (Value Empty) × List UInt8)
  | 0, _, _ => none
  | fuel + 1, first, bs =>
    if bs.head? = some 0x5d then some ([], bs.tail)
    else
      match readValue fuel (if first then bs else bs.tail) with
      | none => none
      | some (v, bs) => (readItems fuel false bs).map fun r => (v :: r.1, r.2)

def readMembers : ℕ → Bool → List UInt8 → Option (List (List UInt8 × Value Empty) × List UInt8)
  | 0, _, _ => none
  | fuel + 1, first, bs =>
    if bs.head? = some 0x7d then some ([], bs.tail)
    else
      match readString fuel (if first then bs.tail else bs.tail.tail) with
      | none => none
      | some (k, bs) =>
        match readValue fuel bs.tail with
        | none => none
        | some (v, bs) => (readMembers fuel false bs).map fun r => ((k, v) :: r.1, r.2)

end

/-- No digit comes next. -/
def Stops (s : List UInt8) : Prop := ∀ b ∈ s.head?, Text.isDigit b = false

theorem readDigits_decimal (n : ℕ) (hs : Stops s) : readDigits (Text.decimal n ++ s) = (n, s) := by
  have hdigits : ∀ b ∈ Text.decimal n, Text.isDigit b = true :=
    fun b hb => Text.isDigit_of_mem_decimal hb
  have htake : s.takeWhile Text.isDigit = [] := by
    cases s with
    | nil => rfl
    | cons b s => rw [takeWhile_cons_of_neg (by rw [hs b rfl]; exact Bool.false_ne_true)]
  have hdrop : s.dropWhile Text.isDigit = s := by
    cases s with
    | nil => rfl
    | cons b s => rw [dropWhile_cons_of_neg (by rw [hs b rfl]; exact Bool.false_ne_true)]
  unfold readDigits
  rw [takeWhile_append_of_pos hdigits, dropWhile_append_of_pos hdigits, htake, hdrop,
    append_nil, Text.digitsValue_decimal]

/-- The text of an integer is told apart from that of any other value by its first byte. -/
theorem readValue_int (fuel : ℕ) (n : ℤ) (hs : Stops s) :
    readValue (fuel + 1) (printInt n ++ s) = some (.int n, s) := by
  unfold printInt
  by_cases hneg : n < 0
  · rw [if_pos hneg, cons_append]
    show some (Value.int (-((readDigits (Text.decimal n.natAbs ++ s)).1 : ℤ)), _) = _
    rw [readDigits_decimal _ hs]
    have habs : -((n.natAbs : ℕ) : ℤ) = n := by omega
    rw [habs]
  · rw [if_neg hneg]
    have hread := readDigits_decimal n.natAbs hs
    have hdigits : ∀ b ∈ Text.decimal n.natAbs, Text.isDigit b = true :=
      fun b hb => Text.isDigit_of_mem_decimal hb
    cases hcase : Text.decimal n.natAbs with
    | nil => exact absurd hcase (Text.decimal_ne_nil _)
    | cons b bs =>
      rw [hcase] at hread hdigits
      have hb := hdigits b mem_cons_self
      have hother : ∀ c : UInt8, Text.isDigit c = false → b ≠ c := by
        rintro c hc rfl
        rw [hc] at hb
        cases hb
      rw [cons_append] at hread ⊢
      rw [readValue, if_neg (hother _ (by decide)), if_neg (hother _ (by decide)),
        if_neg (hother _ (by decide)), if_neg (hother _ (by decide)),
        if_neg (hother _ (by decide)), if_neg (hother _ (by decide)),
        if_neg (hother _ (by decide)), hread]
      have habs : ((n.natAbs : ℕ) : ℤ) = n := by omega
      rw [habs]

section RoundTrip

variable (printDouble : Empty → List UInt8)

/-- A value starts with a byte that closes nothing. -/
theorem print_cons (v : Value Empty) :
    ∃ b bs, v.print printDouble = b :: bs ∧ b ≠ 0x5d ∧ b ≠ 0x7d := by
  cases v with
  | null => exact ⟨_, _, rfl, by decide, by decide⟩
  | bool b =>
    cases b with
    | false => exact ⟨_, _, rfl, by decide, by decide⟩
    | true => exact ⟨_, _, rfl, by decide, by decide⟩
  | double d => exact d.elim
  | str s => exact ⟨_, _, rfl, by decide, by decide⟩
  | arr vs => exact ⟨_, _, rfl, by decide, by decide⟩
  | obj ms => exact ⟨_, _, rfl, by decide, by decide⟩
  | int n =>
    show ∃ b bs, printInt n = b :: bs ∧ b ≠ 0x5d ∧ b ≠ 0x7d
    unfold printInt
    split
    · exact ⟨_, _, rfl, by decide, by decide⟩
    cases hcase : Text.decimal n.natAbs with
    | nil => exact absurd hcase (Text.decimal_ne_nil _)
    | cons b bs =>
      have hb : Text.isDigit b = true :=
        Text.isDigit_of_mem_decimal (n := n.natAbs) (hcase ▸ mem_cons_self)
      refine ⟨b, bs, rfl, ?_, ?_⟩
      all_goals
        rintro rfl
        cases hb

theorem length_print_pos (v : Value Empty) : 0 < (v.print printDouble).length := by
  obtain ⟨b, bs, h, -⟩ := print_cons printDouble v
  rw [h]
  exact Nat.succ_pos _

theorem stops_items (vs : List (Value Empty)) (s : List UInt8) :
    Stops (printItems printDouble false vs ++ 0x5d :: s) := by
  intro b hb
  cases vs with
  | nil =>
    cases hb
    decide
  | cons v vs =>
    cases hb
    decide

theorem stops_members (ms : List (List UInt8 × Value Empty)) (s : List UInt8) :
    Stops (printMembers printDouble false ms ++ 0x7d :: s) := by
  intro b hb
  cases ms with
  | nil =>
    cases hb
    decide
  | cons m ms =>
    cases hb
    decide

theorem length_le_escapedSize (s : List UInt8) : s.length ≤ escapedSize s := by
  induction s with
  | nil => exact Nat.zero_le _
  | cons b s ih =>
    have hb : 0 < (escape b).length := by
      unfold escape
      split_ifs <;> exact Nat.succ_pos _
    have hcons : escapedSize (b :: s) = (escape b).length + escapedSize s := rfl
    rw [hcons, length_cons]
    omega

theorem readString_quote {fuel : ℕ} (hfuel : (quote s).length ≤ fuel + 1) (rest : List UInt8) :
    readString fuel ((quote s).tail ++ rest) = some (s, rest) := by
  rw [length_quote] at hfuel
  have hlen := length_le_escapedSize s
  show readString fuel (s.flatMap escape ++ [0x22] ++ rest) = _
  rw [append_assoc]
  exact readString_escaped (by omega) rest

mutual

/-- **What was written is read back.** -/
theorem readValue_print : ∀ (v : Value Empty) {fuel : ℕ},
    (v.print printDouble).length ≤ fuel → ∀ {s : List UInt8}, Stops s →
      readValue fuel (v.print printDouble ++ s) = some (v, s)
  | v, 0, hfuel, _, _ => by
    have hpos := length_print_pos printDouble v
    omega
  | .null, fuel + 1, _, _, _ => rfl
  | .bool false, fuel + 1, _, _, _ => rfl
  | .bool true, fuel + 1, _, _, _ => rfl
  | .double d, _, _, _, _ => d.elim
  | .int n, fuel + 1, _, _, hs => readValue_int fuel n hs
  | .str t, fuel + 1, hfuel, s, _ => by
    show Option.map _ (readString fuel ((quote t).tail ++ s)) = _
    rw [readString_quote hfuel]
    rfl
  | .arr vs, fuel + 1, hfuel, s, _ => by
    have hlen : (printItems printDouble true vs).length + 1 ≤ fuel := by
      rw [Value.print, length_cons, length_append, length_singleton] at hfuel
      omega
    show Option.map _ (readItems fuel true (printItems printDouble true vs ++ [0x5d] ++ s)) = _
    rw [append_assoc, singleton_append, readItems_print vs hlen]
    rfl
  | .obj ms, fuel + 1, hfuel, s, _ => by
    have hlen : (printMembers printDouble true ms).length + 1 ≤ fuel := by
      rw [Value.print, length_cons, length_append, length_singleton] at hfuel
      omega
    show Option.map _ (readMembers fuel true (printMembers printDouble true ms ++ [0x7d] ++ s)) = _
    rw [append_assoc, singleton_append, readMembers_print ms hlen]
    rfl

theorem readItems_print : ∀ (vs : List (Value Empty)) {fuel : ℕ} {first : Bool},
    (printItems printDouble first vs).length + 1 ≤ fuel → ∀ {s : List UInt8},
      readItems fuel first (printItems printDouble first vs ++ 0x5d :: s) = some (vs, s)
  | [], fuel + 1, first, _, s => rfl
  | v :: vs, fuel + 1, first, hfuel, s => by
    obtain ⟨b, bs, hb, hclose, -⟩ := print_cons printDouble v
    have hpos := length_print_pos printDouble v
    rw [printItems, length_append, length_append] at hfuel
    have hvfuel : (v.print printDouble).length ≤ fuel := by omega
    have hvsfuel : (printItems printDouble false vs).length + 1 ≤ fuel := by omega
    have hv := readValue_print v hvfuel (stops_items printDouble vs s)
    have hvs := readItems_print vs hvsfuel (s := s)
    have hhead : (printItems printDouble first (v :: vs) ++ 0x5d :: s).head? ≠ some 0x5d := by
      rw [printItems, hb]
      cases first with
      | true => exact fun heq => hclose (some.inj heq)
      | false => exact fun heq => absurd (some.inj heq) (by decide)
    have hrest : (if first then printItems printDouble first (v :: vs) ++ 0x5d :: s
        else (printItems printDouble first (v :: vs) ++ 0x5d :: s).tail) =
        v.print printDouble ++ (printItems printDouble false vs ++ 0x5d :: s) := by
      rw [printItems]
      cases first with
      | true =>
        show v.print printDouble ++ printItems printDouble false vs ++ 0x5d :: s = _
        rw [append_assoc]
      | false =>
        show v.print printDouble ++ printItems printDouble false vs ++ 0x5d :: s = _
        rw [append_assoc]
    rw [readItems, if_neg hhead, hrest, hv]
    show Option.map _ (readItems fuel false (printItems printDouble false vs ++ 0x5d :: s)) = _
    rw [hvs]
    rfl

theorem readMembers_print : ∀ (ms : List (List UInt8 × Value Empty)) {fuel : ℕ} {first : Bool},
    (printMembers printDouble first ms).length + 1 ≤ fuel → ∀ {s : List UInt8},
      readMembers fuel first (printMembers printDouble first ms ++ 0x7d :: s) = some (ms, s)
  | [], fuel + 1, first, _, s => rfl
  | (k, v) :: ms, fuel + 1, first, hfuel, s => by
    have hpos := length_print_pos printDouble v
    rw [printMembers, length_append, length_append, length_append, length_cons] at hfuel
    have hk : ∀ rest, readString fuel ((quote k).tail ++ rest) = some (k, rest) :=
      readString_quote (by omega)
    have hvfuel : (v.print printDouble).length ≤ fuel := by omega
    have hmsfuel : (printMembers printDouble false ms).length + 1 ≤ fuel := by omega
    have hv := readValue_print v hvfuel (stops_members printDouble ms s)
    have hms := readMembers_print ms hmsfuel (s := s)
    have hhead : (printMembers printDouble first ((k, v) :: ms) ++ 0x7d :: s).head? ≠ some 0x7d := by
      rw [printMembers]
      cases first with
      | true => exact fun heq => absurd (some.inj heq) (by decide)
      | false => exact fun heq => absurd (some.inj heq) (by decide)
    have hrest : (if first then (printMembers printDouble first ((k, v) :: ms) ++ 0x7d :: s).tail
        else (printMembers printDouble first ((k, v) :: ms) ++ 0x7d :: s).tail.tail) =
        (quote k).tail ++
          (0x3a :: (v.print printDouble ++ (printMembers printDouble false ms ++ 0x7d :: s))) := by
      rw [printMembers]
      cases first with
      | true =>
        show (quote k).tail ++ 0x3a :: v.print printDouble ++ printMembers printDouble false ms ++
          0x7d :: s = _
        rw [append_assoc, append_assoc, cons_append]
      | false =>
        show (quote k).tail ++ 0x3a :: v.print printDouble ++ printMembers printDouble false ms ++
          0x7d :: s = _
        rw [append_assoc, append_assoc, cons_append]
    rw [readMembers, if_neg hhead, hrest, hk]
    show (match readValue fuel (v.print printDouble ++
        (printMembers printDouble false ms ++ 0x7d :: s)) with
      | none => none
      | some (v, bs) => (readMembers fuel false bs).map
          fun r : List (List UInt8 × Value Empty) × List UInt8 => ((k, v) :: r.1, r.2)) = _
    rw [hv]
    show Option.map _ (readMembers fuel false (printMembers printDouble false ms ++ 0x7d :: s)) = _
    rw [hms]
    rfl

end

end RoundTrip

/-! ### The library -/

/-- Lead bytes announce how many bytes of a character follow. -/
def utf8Walk : ℕ → List UInt8 → Bool
  | pending, [] => pending = 0
  | 0, b :: s =>
    if b < 0x80 then utf8Walk 0 s
    else if b &&& 0xe0 = 0xc0 then utf8Walk 1 s
    else if b &&& 0xf0 = 0xe0 then utf8Walk 2 s
    else if b &&& 0xf8 = 0xf0 then utf8Walk 3 s
    else false
  | pending + 1, b :: s => b &&& 0xc0 = 0x80 && utf8Walk pending s

/-- A library without doubles, whose parser takes compact texts only. -/
def compact : StrictJson Empty where
  printDouble := Empty.elim
  utf8 := utf8Walk 0
  parse t :=
    match readValue t.length t with
    | some (v, []) =>
      if v.print Empty.elim = t ∧ v.held = true ∧ v.valid (utf8Walk 0) = true ∧
          v.nesting ≤ maxNesting then
        some v
      else none
    | _ => none

theorem utf8Walk_ascii (h : ∀ b ∈ s, b < 0x80) : utf8Walk 0 s = true := by
  induction s with
  | nil => rfl
  | cons b s ih =>
    rw [utf8Walk, if_pos (h b mem_cons_self)]
    exact ih fun c hc => h c (mem_cons_of_mem _ hc)

theorem compact_lawful : compact.Lawful where
  ascii _ h := utf8Walk_ascii h
  parse_print := by
    intro v hheld
    have hread := readValue_print Empty.elim v (le_refl _) (s := []) (fun _ hb => by cases hb)
    rw [append_nil] at hread
    show (match readValue (v.print Empty.elim).length (v.print Empty.elim) with
      | some (w, []) => if w.print Empty.elim = v.print Empty.elim ∧ w.held = true ∧
          w.valid (utf8Walk 0) = true ∧ w.nesting ≤ maxNesting then some w else none
      | _ => none) = if v.valid (utf8Walk 0) = true ∧ v.nesting ≤ maxNesting then some v else none
    rw [hread]
    dsimp only
    by_cases hok : v.valid (utf8Walk 0) = true ∧ v.nesting ≤ maxNesting
    · rw [if_pos hok, if_pos ⟨rfl, hheld, hok⟩]
    · rw [if_neg hok, if_neg fun h => hok h.2.2]
  of_parse := by
    intro t v hparse
    unfold compact at hparse
    dsimp only at hparse
    split at hparse
    · split at hparse
      · next hok =>
        cases hparse
        exact hok.2
      · cases hparse
    · cases hparse

end JsonBytes
