import Mathlib.Algebra.GroupWithZero.Nat
import Mathlib.Data.List.Nodup

namespace JsonText

open List

/-!
# JSON texts — concrete syntax trees and what their strings stand for

The grammar of JSON as trees that keep every byte: the whitespace, the spelling of each number
and the escapes of each string.  `render` writes a tree out, and the well-formed texts are the
renderings of trees.

* `Item`, `Item.render` — one piece of a string: a raw byte, a two-byte escape or a `\u` escape;
* `resolve` — the UTF-8 bytes a string stands for, `none` where a surrogate is not paired;
* `Value`, `Elements`, `Members` — the trees, with `render`, `depth`, `strings` and `objects`;
* `Text.HasDuplicate` — some object, at any depth, has two members of one name.
-/

/-! ### Lexical classes -/

/-- Insignificant whitespace. -/
def isSpace (b : UInt8) : Bool := b == 0x20 || b == 0x09 || b == 0x0a || b == 0x0d

/-- A run of whitespace. -/
abbrev Space := { w : List UInt8 // ∀ b ∈ w, isSpace b = true }

def isDigit (b : UInt8) : Bool := 0x30 ≤ b && b ≤ 0x39

/-- The value of a hexadecimal digit of either case. -/
def hexValue (b : UInt8) : Option ℕ :=
  if 0x30 ≤ b ∧ b ≤ 0x39 then some (b.toNat - 0x30)
  else if 0x41 ≤ b ∧ b ≤ 0x46 then some (b.toNat - 0x41 + 10)
  else if 0x61 ≤ b ∧ b ≤ 0x66 then some (b.toNat - 0x61 + 10)
  else none

/-- A hexadecimal digit, as it is spelt. -/
abbrev Hex := { b : UInt8 // (hexValue b).isSome = true }

def Hex.value (h : Hex) : ℕ := (hexValue h.1).get h.2

/-- The brackets, braces and the quotation mark: the bytes that no scalar contains. -/
def isStructural (b : UInt8) : Bool := b == 0x7b || b == 0x7d || b == 0x5b || b == 0x5d || b == 0x22

theorem isStructural_of_isSpace {b : UInt8} (h : isSpace b = true) : isStructural b = false := by
  simp only [isSpace, Bool.or_eq_true, beq_iff_eq, or_assoc] at h
  rcases h with rfl | rfl | rfl | rfl <;> rfl

theorem isStructural_of_isDigit {b : UInt8} (h : isDigit b = true) : isStructural b = false := by
  simp only [isDigit, Bool.and_eq_true, decide_eq_true_eq, UInt8.le_iff_toNat_le] at h
  have hlo : 0x30 ≤ b.toNat := h.1
  have hhi : b.toNat ≤ 0x39 := h.2
  simp only [isStructural, Bool.or_eq_false_iff, beq_eq_false_iff_ne, ne_eq, UInt8.ext_iff]
  refine ⟨⟨⟨⟨?_, ?_⟩, ?_⟩, ?_⟩, ?_⟩ <;> intro hb <;> rw [hb] at hlo hhi <;>
    revert hlo hhi <;> decide

theorem Hex.value_lt (h : Hex) : h.value < 16 := by
  obtain ⟨b, hb⟩ := h
  obtain ⟨v, hv⟩ := Option.isSome_iff_exists.mp hb
  have hval : Hex.value ⟨b, hb⟩ = v := Option.get_of_eq_some hb hv
  rw [hval]
  unfold hexValue at hv
  split at hv
  case isTrue h => have := UInt8.le_iff_toNat_le.mp h.2; simp at hv this; omega
  split at hv
  case isTrue h => have := UInt8.le_iff_toNat_le.mp h.2; simp at hv this; omega
  split at hv
  case isTrue h => have := UInt8.le_iff_toNat_le.mp h.2; simp at hv this; omega
  cases hv

/-! ### Scalars -/

/-- A nonempty run of digits. -/
structure Digits where
  first : UInt8
  rest : List UInt8
  digit : ∀ b ∈ first :: rest, isDigit b = true

def Digits.render (d : Digits) : List UInt8 := d.first :: d.rest

/-- The exponent of a number: the letter, an optional sign (`true` is minus) and the digits. -/
structure Exponent where
  upper : Bool
  sign : Option Bool
  digits : Digits

/-- A sign byte, where there is one. -/
def signBytes : Option Bool → List UInt8
  | none => []
  | some minus => [if minus then 0x2d else 0x2b]

def Exponent.render (e : Exponent) : List UInt8 :=
  (if e.upper then 0x45 else 0x65) :: (signBytes e.sign ++ e.digits.render)

/-- A number; a leading zero stands alone. -/
structure Number where
  minus : Bool
  whole : Digits
  noLeadingZero : whole.first = 0x30 → whole.rest = []
  fraction : Option Digits
  exponent : Option Exponent

/-- The point and the digits behind it, where there are some. -/
def fractionBytes : Option Digits → List UInt8
  | none => []
  | some d => 0x2e :: d.render

def exponentBytes : Option Exponent → List UInt8
  | none => []
  | some e => e.render

def Number.render (n : Number) : List UInt8 :=
  (if n.minus then [0x2d] else []) ++ n.whole.render ++ fractionBytes n.fraction ++
    exponentBytes n.exponent

/-- The values without structure. -/
inductive Scalar
  | true
  | false
  | null
  | number (n : Number)

def Scalar.render : Scalar → List UInt8
  | .true => [0x74, 0x72, 0x75, 0x65]
  | .false => [0x66, 0x61, 0x6c, 0x73, 0x65]
  | .null => [0x6e, 0x75, 0x6c, 0x6c]
  | .number n => n.render

theorem Digits.plain (d : Digits) : ∀ b ∈ d.render, isStructural b = Bool.false :=
  fun b hb => isStructural_of_isDigit (d.digit b hb)

theorem Exponent.plain (e : Exponent) : ∀ b ∈ e.render, isStructural b = Bool.false := by
  intro b hb
  obtain ⟨upper, sign, digits⟩ := e
  simp only [Exponent.render, mem_cons, mem_append] at hb
  rcases hb with rfl | hb | hb
  · cases upper <;> rfl
  · cases sign with
    | none => exact absurd hb not_mem_nil
    | some minus => cases minus <;> rw [mem_singleton.mp hb] <;> rfl
  · exact digits.plain b hb

theorem Number.plain (n : Number) : ∀ b ∈ n.render, isStructural b = Bool.false := by
  intro b hb
  obtain ⟨minus, whole, _, fraction, exponent⟩ := n
  simp only [Number.render, mem_append] at hb
  rcases hb with ((hb | hb) | hb) | hb
  · by_cases hminus : minus = Bool.true
    · rw [if_pos hminus] at hb
      rw [mem_singleton.mp hb]
      rfl
    · rw [if_neg hminus] at hb
      exact absurd hb not_mem_nil
  · exact whole.plain b hb
  · cases fraction with
    | none => exact absurd hb not_mem_nil
    | some d =>
      rcases mem_cons.mp hb with rfl | hb
      · rfl
      · exact d.plain b hb
  · cases exponent with
    | none => exact absurd hb not_mem_nil
    | some e => exact e.plain b hb

theorem Scalar.plain (s : Scalar) : ∀ b ∈ s.render, isStructural b = Bool.false := by
  cases s with
  | true => decide +kernel
  | false => decide +kernel
  | null => decide +kernel
  | number n => exact n.plain

theorem Scalar.length_pos (s : Scalar) : 0 < s.render.length := by
  cases s with
  | true => decide +kernel
  | false => decide +kernel
  | null => decide +kernel
  | number n =>
    simp only [Scalar.render, Number.render, Digits.render, length_append, length_cons]
    omega

/-! ### Strings -/

/-- The byte a two-byte escape stands for. -/
def escapeValue (b : UInt8) : Option UInt8 :=
  if b = 0x22 then some 0x22
  else if b = 0x5c then some 0x5c
  else if b = 0x2f then some 0x2f
  else if b = 0x62 then some 0x08
  else if b = 0x66 then some 0x0c
  else if b = 0x6e then some 0x0a
  else if b = 0x72 then some 0x0d
  else if b = 0x74 then some 0x09
  else none

/-- One piece of a string, as it is spelt. -/
inductive Item
  | raw (b : UInt8) (plain : 0x20 ≤ b ∧ b ≠ 0x22 ∧ b ≠ 0x5c)
  | escape (b : UInt8) (known : (escapeValue b).isSome = true)
  | unicode (a b c d : Hex)

def Item.render : Item → List UInt8
  | .raw b _ => [b]
  | .escape b _ => [0x5c, b]
  | .unicode a b c d => [0x5c, 0x75, a.1, b.1, c.1, d.1]

/-- The UTF-16 unit that four digits spell. -/
def unit (a b c d : Hex) : ℕ := ((a.value * 16 + b.value) * 16 + c.value) * 16 + d.value

theorem unit_lt (a b c d : Hex) : unit a b c d < 0x10000 := by
  have ha := a.value_lt
  have hb := b.value_lt
  have hc := c.value_lt
  have hd := d.value_lt
  unfold unit
  omega

/-- A unit that opens a surrogate pair. -/
def isHigh (u : ℕ) : Bool := 0xd800 ≤ u && u ≤ 0xdbff

/-- A unit that closes a surrogate pair. -/
def isLow (u : ℕ) : Bool := 0xdc00 ≤ u && u ≤ 0xdfff

/-- The code point of a surrogate pair. -/
def pairPoint (high low : ℕ) : ℕ := 0x10000 + (high - 0xd800) * 0x400 + (low - 0xdc00)

/-- The UTF-8 bytes of a code point. -/
def utf8 (point : ℕ) : List UInt8 := String.utf8EncodeChar (Char.ofNat point)

/-- The bytes a string stands for, every escape resolved to UTF-8; `none` where a surrogate is not
    half of a pair, and so stands for no character. -/
def resolve : List Item → Option (List UInt8)
  | [] => some []
  | .raw b _ :: items => (resolve items).map (b :: ·)
  | .escape b known :: items => (resolve items).map ((escapeValue b).get known :: ·)
  | .unicode a b c d :: items =>
    if isHigh (unit a b c d) then
      match items with
      | .unicode a' b' c' d' :: items =>
        if isLow (unit a' b' c' d') then
          (resolve items).map (utf8 (pairPoint (unit a b c d) (unit a' b' c' d')) ++ ·)
        else none
      | _ => none
    else if isLow (unit a b c d) then none
    else (resolve items).map (utf8 (unit a b c d) ++ ·)

/-- The bytes between the quotation marks. -/
def renderItems (items : List Item) : List UInt8 := items.flatMap Item.render

/-- A string with its quotation marks. -/
def renderString (items : List Item) : List UInt8 := 0x22 :: (renderItems items ++ [0x22])

/-- The bytes of a name; its spelling is forgotten. -/
def decoded (items : List Item) : List UInt8 := (resolve items).getD []

/-! ### Trees -/

mutual

/-- A JSON value. -/
inductive Value
  | scalar (s : Scalar)
  | string (items : List Item)
  | emptyArray (inside : Space)
  | array (elements : Elements)
  | emptyObject (inside : Space)
  | object (members : Members)

/-- The elements of an array, at least one. -/
inductive Elements
  | last (before : Space) (value : Value) (after : Space)
  | more (before : Space) (value : Value) (after : Space) (elements : Elements)

/-- The members of an object, at least one. -/
inductive Members
  | last (before : Space) (name : List Item) (between before' : Space) (value : Value)
      (after : Space)
  | more (before : Space) (name : List Item) (between before' : Space) (value : Value)
      (after : Space) (members : Members)

end

/-- A JSON text: a value between runs of whitespace. -/
structure Text where
  before : Space
  value : Value
  after : Space

mutual

def Value.render : Value → List UInt8
  | .scalar s => s.render
  | .string items => renderString items
  | .emptyArray w => 0x5b :: (w.1 ++ [0x5d])
  | .array es => 0x5b :: (es.render ++ [0x5d])
  | .emptyObject w => 0x7b :: (w.1 ++ [0x7d])
  | .object ms => 0x7b :: (ms.render ++ [0x7d])

def Elements.render : Elements → List UInt8
  | .last w v w' => w.1 ++ v.render ++ w'.1
  | .more w v w' es => w.1 ++ v.render ++ w'.1 ++ 0x2c :: es.render

def Members.render : Members → List UInt8
  | .last w name b w' v a => w.1 ++ renderString name ++ b.1 ++ 0x3a :: (w'.1 ++ v.render ++ a.1)
  | .more w name b w' v a ms =>
    w.1 ++ renderString name ++ b.1 ++ 0x3a :: (w'.1 ++ v.render ++ a.1 ++ 0x2c :: ms.render)

end

def Text.render (t : Text) : List UInt8 := t.before.1 ++ t.value.render ++ t.after.1

mutual

/-- How deeply arrays and objects are nested. -/
def Value.depth : Value → ℕ
  | .scalar _ | .string _ => 0
  | .emptyArray _ | .emptyObject _ => 1
  | .array es => es.depth + 1
  | .object ms => ms.depth + 1

def Elements.depth : Elements → ℕ
  | .last _ v _ => v.depth
  | .more _ v _ es => max v.depth es.depth

def Members.depth : Members → ℕ
  | .last _ _ _ _ v _ => v.depth
  | .more _ _ _ _ v _ ms => max v.depth ms.depth

end

mutual

/-- Every string of a value, the names of members included. -/
def Value.strings : Value → List (List Item)
  | .scalar _ | .emptyArray _ | .emptyObject _ => []
  | .string items => [items]
  | .array es => es.strings
  | .object ms => ms.strings

def Elements.strings : Elements → List (List Item)
  | .last _ v _ => v.strings
  | .more _ v _ es => v.strings ++ es.strings

def Members.strings : Members → List (List Item)
  | .last _ name _ _ v _ => name :: v.strings
  | .more _ name _ _ v _ ms => name :: (v.strings ++ ms.strings)

end

/-- The names of the members, in their order. -/
def Members.names : Members → List (List Item)
  | .last _ name _ _ _ _ => [name]
  | .more _ name _ _ _ _ ms => name :: ms.names

mutual

/-- The objects of a value at every depth, each as the list of its members' names. -/
def Value.objects : Value → List (List (List Item))
  | .scalar _ | .string _ | .emptyArray _ => []
  | .array es => es.objects
  | .emptyObject _ => [[]]
  | .object ms => ms.names :: ms.objects

def Elements.objects : Elements → List (List (List Item))
  | .last _ v _ => v.objects
  | .more _ v _ es => v.objects ++ es.objects

def Members.objects : Members → List (List (List Item))
  | .last _ _ _ _ v _ => v.objects
  | .more _ _ _ _ v _ ms => v.objects ++ ms.objects

end

/-- The number of members of all objects together. -/
def keyCount (objects : List (List (List Item))) : ℕ := (objects.map List.length).sum

/-- Every string stands for characters: no surrogate is left without its other half. -/
def Resolves (strings : List (List Item)) : Prop := ∀ s ∈ strings, (resolve s).isSome = true

/-- The names of one object are pairwise different once decoded. -/
def Distinct (names : List (List Item)) : Prop := (names.map decoded).Nodup

/-- Some object, at any depth, has two members whose decoded names are the same bytes. -/
def Text.HasDuplicate (t : Text) : Prop := ∃ names ∈ t.value.objects, ¬ Distinct names

instance (names : List (List Item)) : Decidable (Distinct names) :=
  inferInstanceAs (Decidable (List.Nodup _))

instance (strings : List (List Item)) : Decidable (Resolves strings) :=
  inferInstanceAs (Decidable (∀ _ ∈ _, _))

instance (t : Text) : Decidable t.HasDuplicate := inferInstanceAs (Decidable (∃ _ ∈ _, _))

/-! ### Counting -/

@[simp] theorem keyCount_nil : keyCount [] = 0 := rfl

@[simp] theorem keyCount_append (xs ys : List (List (List Item))) :
    keyCount (xs ++ ys) = keyCount xs + keyCount ys := by
  simp [keyCount]

@[simp] theorem keyCount_cons (names : List (List Item)) (xs : List (List (List Item))) :
    keyCount (names :: xs) = names.length + keyCount xs := by
  simp [keyCount]

theorem resolves_append {xs ys : List (List Item)} :
    Resolves (xs ++ ys) ↔ Resolves xs ∧ Resolves ys :=
  forall_mem_append

theorem resolves_cons {x : List Item} {xs : List (List Item)} :
    Resolves (x :: xs) ↔ (resolve x).isSome = true ∧ Resolves xs :=
  forall_mem_cons

/-- A string has at least its quotation marks. -/
theorem two_le_length_renderString (items : List Item) : 2 ≤ (renderString items).length := by
  simp [renderString]

mutual

/-- A key takes four bytes of a text at least: two quotation marks, a colon and a value. -/
theorem Value.four_mul_keyCount (v : Value) : 4 * keyCount v.objects + 1 ≤ v.render.length := by
  cases v with
  | scalar s => exact s.length_pos
  | string items =>
    have := two_le_length_renderString items
    simp only [Value.objects, Value.render, keyCount_nil]
    omega
  | emptyArray w => simp [Value.objects, Value.render]
  | emptyObject w => simp [Value.objects, Value.render, keyCount]
  | array es =>
    have := es.four_mul_keyCount
    simp only [Value.objects, Value.render, length_cons, length_append]
    omega
  | object ms =>
    have := ms.four_mul_keyCount
    simp only [Value.objects, Value.render, length_cons, length_append, keyCount_cons]
    omega

theorem Elements.four_mul_keyCount (es : Elements) :
    4 * keyCount es.objects ≤ es.render.length := by
  cases es with
  | last w v w' =>
    have := v.four_mul_keyCount
    simp only [Elements.objects, Elements.render, length_append]
    omega
  | more w v w' es =>
    have := v.four_mul_keyCount
    have := es.four_mul_keyCount
    simp only [Elements.objects, Elements.render, length_append, length_cons, keyCount_append]
    omega

theorem Members.four_mul_keyCount (ms : Members) :
    4 * (ms.names.length + keyCount ms.objects) ≤ ms.render.length := by
  cases ms with
  | last w name b w' v a =>
    have := v.four_mul_keyCount
    have := two_le_length_renderString name
    simp only [Members.names, Members.objects, Members.render, length_append,
      length_cons, length_nil]
    omega
  | more w name b w' v a ms =>
    have := v.four_mul_keyCount
    have := two_le_length_renderString name
    have := ms.four_mul_keyCount
    simp only [Members.names, Members.objects, Members.render, length_append,
      length_cons, keyCount_append]
    omega

end

mutual

theorem Value.length_objects_le (v : Value) : v.objects.length ≤ v.render.length := by
  cases v with
  | scalar s => exact Nat.zero_le _
  | string items => exact Nat.zero_le _
  | emptyArray w => exact Nat.zero_le _
  | emptyObject w => simp [Value.objects, Value.render]
  | array es =>
    have := es.length_objects_le
    simp only [Value.objects, Value.render, length_cons, length_append]
    omega
  | object ms =>
    have := ms.length_objects_le
    simp only [Value.objects, Value.render, length_cons, length_append]
    omega

theorem Elements.length_objects_le (es : Elements) : es.objects.length ≤ es.render.length := by
  cases es with
  | last w v w' =>
    have := v.length_objects_le
    simp only [Elements.objects, Elements.render, length_append]
    omega
  | more w v w' es =>
    have := v.length_objects_le
    have := es.length_objects_le
    simp only [Elements.objects, Elements.render, length_append, length_cons]
    omega

theorem Members.length_objects_le (ms : Members) : ms.objects.length ≤ ms.render.length := by
  cases ms with
  | last w name b w' v a =>
    have := v.length_objects_le
    simp only [Members.objects, Members.render, length_append, length_cons]
    omega
  | more w name b w' v a ms =>
    have := v.length_objects_le
    have := ms.length_objects_le
    simp only [Members.objects, Members.render, length_append, length_cons]
    omega

end

end JsonText
