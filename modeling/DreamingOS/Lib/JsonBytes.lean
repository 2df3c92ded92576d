import DreamingOS.Lib.Text

namespace JsonBytes

/-!
# JSON values with strings of bytes

Values as a library holds them that does not check the strings it is given, and the compact text it
writes.

* `Value`, `Value.print` — values, and their text without blanks;
* `Value.valid`, `Value.nesting`, `Value.held` — what a strict parser looks at besides the grammar,
  and what the library can hold;
* `StrictJson`, `StrictJson.Lawful` — a writer with a strict parser for texts of limited nesting;
* `lookup`, `member` — the members of an object.
-/

/-- A JSON value with doubles from `D`; the members of an object are in the order they were
    added. -/
inductive Value (D : Type) where
  | null
  | bool (b : Bool)
  | int (n : ℤ)
  | double (d : D)
  | str (s : List UInt8)
  | arr (items : List (Value D))
  | obj (members : List (List UInt8 × Value D))

variable {D : Type}

/-! ### The compact text -/

def hexDigit (n : ℕ) : UInt8 := if n < 10 then UInt8.ofNat (0x30 + n) else UInt8.ofNat (0x57 + n)

/-- A byte of a string as it is written. -/
def escape (b : UInt8) : List UInt8 :=
  if b = 0x08 then [0x5c, 0x62]
  else if b = 0x09 then [0x5c, 0x74]
  else if b = 0x0a then [0x5c, 0x6e]
  else if b = 0x0c then [0x5c, 0x66]
  else if b = 0x0d then [0x5c, 0x72]
  else if b = 0x22 ∨ b = 0x5c ∨ b = 0x2f then [0x5c, b]
  else if b < 0x20 then
    [0x5c, 0x75, 0x30, 0x30, hexDigit (b.toNat / 16), hexDigit (b.toNat % 16)]
  else [b]

/-- A string in its quotes. -/
def quote (s : List UInt8) : List UInt8 := 0x22 :: (s.flatMap escape ++ [0x22])

def printInt (n : ℤ) : List UInt8 :=
  if n < 0 then 0x2d :: Text.decimal n.natAbs else Text.decimal n.natAbs

section Print

variable (printDouble : D → List UInt8)

mutual

/-- The text without blanks. -/
def Value.print : Value D → List UInt8
  | .null => [0x6e, 0x75, 0x6c, 0x6c]
  | .bool true => [0x74, 0x72, 0x75, 0x65]
  | .bool false => [0x66, 0x61, 0x6c, 0x73, 0x65]
  | .int n => printInt n
  | .double d => printDouble d
  | .str s => quote s
  | .arr items => 0x5b :: (printItems true items ++ [0x5d])
  | .obj members => 0x7b :: (printMembers true members ++ [0x7d])

/-- The items with a comma in front of all but the first. -/
def printItems : Bool → List (Value D) → List UInt8
  | _, [] => []
  | first, v :: vs => (if first then [] else [0x2c]) ++ v.print ++ printItems false vs

def printMembers : Bool → List (List UInt8 × Value D) → List UInt8
  | _, [] => []
  | first, (k, v) :: ms =>
    (if first then [] else [0x2c]) ++ quote k ++ 0x3a :: v.print ++ printMembers false ms

end

end Print

/-! ### What is checked besides the grammar -/

section Checks

variable (utf8 : List UInt8 → Bool)

mutual

/-- Every string is one that `utf8` lets pass. -/
def Value.valid : Value D → Bool
  | .str s => utf8 s
  | .arr items => validItems items
  | .obj members => validMembers members
  | _ => true

def validItems : List (Value D) → Bool
  | [] => true
  | v :: vs => v.valid && validItems vs

def validMembers : List (List UInt8 × Value D) → Bool
  | [] => true
  | (k, v) :: ms => utf8 k && v.valid && validMembers ms

end

end Checks

mutual

/-- How far down the deepest value is; an empty array is no deeper than a number. -/
def Value.nesting : Value D → ℕ
  | .arr items => nestingItems items
  | .obj members => nestingMembers members
  | _ => 0

def nestingItems : List (Value D) → ℕ
  | [] => 0
  | v :: vs => max (v.nesting + 1) (nestingItems vs)

def nestingMembers : List (List UInt8 × Value D) → ℕ
  | [] => 0
  | (_, v) :: ms => max (v.nesting + 1) (nestingMembers ms)

end

mutual

/-- What the library can hold: integers of 64 bits, and objects with members of distinct names. -/
def Value.held : Value D → Bool
  | .int n => -(2 ^ 63) ≤ n && n < 2 ^ 64
  | .arr items => heldItems items
  | .obj members => decide (members.map Prod.fst).Nodup && heldMembers members
  | _ => true

def heldItems : List (Value D) → Bool
  | [] => true
  | v :: vs => v.held && heldItems vs

def heldMembers : List (List UInt8 × Value D) → Bool
  | [] => true
  | (_, v) :: ms => v.held && heldMembers ms

end

/-! ### A library -/

/-- The levels below the outermost value that a parser with 16 levels has. -/
def maxNesting : ℕ := 15

/-- What a program uses of a JSON library: doubles as they are written, the strings that a strict
    parser lets pass, and a strict parser for a whole text. -/
structure StrictJson (D : Type) where
  printDouble : D → List UInt8
  utf8 : List UInt8 → Bool
  parse : List UInt8 → Option (Value D)

def StrictJson.print (c : StrictJson D) (v : Value D) : List UInt8 := v.print c.printDouble

/-- The parser takes what was written, unless a string of it is not UTF-8 or it is nested too
    deeply, and what it returns can be written and parsed again. -/
structure StrictJson.Lawful (c : StrictJson D) : Prop where
  ascii : ∀ s : List UInt8, (∀ b ∈ s, b < 0x80) → c.utf8 s = true
  parse_print : ∀ v : Value D, v.held = true → c.parse (c.print v) =
    if v.valid c.utf8 = true ∧ v.nesting ≤ maxNesting then some v else none
  of_parse : ∀ t v, c.parse t = some v →
    v.held = true ∧ v.valid c.utf8 = true ∧ v.nesting ≤ maxNesting

/-! ### The members of an object -/

/-- The member of a name. -/
def lookup : List (List UInt8 × Value D) → List UInt8 → Option (Value D)
  | [], _ => none
  | (k, v) :: ms, key => if k = key then some v else lookup ms key

/-- Only an object has members. -/
def Value.member : Value D → List UInt8 → Option (Value D)
  | .obj ms, key => lookup ms key
  | _, _ => none

/-! ### Lengths -/

/-- What a string takes between its quotes. -/
def escapedSize (s : List UInt8) : ℕ := (s.map fun b => (escape b).length).sum

attribute [local simp] Value.print printMembers Value.valid validItems validMembers Value.nesting nestingMembers Value.held heldMembers in
theorem length_quote (s : List UInt8) : (quote s).length = escapedSize s + 2 := by
  rw [quote, List.length_cons, List.length_append, List.length_flatMap]
  rfl

theorem length_escape_le (b : UInt8) : (escape b).length ≤ 6 := by
  unfold escape
  split_ifs <;> simp

theorem escapedSize_le (s : List UInt8) : escapedSize s ≤ 6 * s.length := by
  induction s with
  | nil => exact Nat.zero_le _
  | cons b s ih =>
    have hb := length_escape_le b
    have hcons : escapedSize (b :: s) = (escape b).length + escapedSize s := rfl
    rw [hcons, List.length_cons]
    omega

/-- An integer of 64 bits has at most 20 digits and a sign. -/
theorem length_printInt_le {n : ℤ} (h : n.natAbs < 10 ^ 20) : (printInt n).length ≤ 21 := by
  have hdigits := Text.length_decimal_le (k := 19) h
  unfold printInt
  split
  · rw [List.length_cons]
    omega
  · omega

end JsonBytes
