import DreamingOS.Lib.Text

/-!
# Internet addresses as text

`inet_ntop` for the two families, on the octets of an address in network order.

* `ntop4` — four decimal numbers;
* `ntop6` — eight hexadecimal groups, the longest run of zero groups left out.
-/

namespace Inet

/-- A hexadecimal digit. -/
def hexDigit (n : ℕ) : UInt8 := if n < 10 then UInt8.ofNat (48 + n) else UInt8.ofNat (87 + n)

/-- A group in hexadecimal without leading zeros. -/
def hexGroup (n : ℕ) : List UInt8 :=
  let digits := [n / 4096 % 16, n / 256 % 16, n / 16 % 16, n % 16].dropWhile (· == 0)
  if digits = [] then [48] else digits.map hexDigit

def joined (sep : UInt8) : List (List UInt8) → List UInt8
  | [] => []
  | [part] => part
  | part :: parts => part ++ sep :: joined sep parts

/-- `a.b.c.d`. -/
def ntop4 (addr : List UInt8) : List UInt8 := joined 46 (addr.map fun b => Text.decimal b.toNat)

/-- The groups of an address, two octets each. -/
def groups : List UInt8 → List ℕ
  | a :: b :: rest => (a.toNat * 256 + b.toNat) :: groups rest
  | _ => []

/-- The first longest stretch of colons and zeros that begins the text or begins with a colon, as
    its place and its length; shorter ones than three characters do not count. -/
def longestZeros : ℕ → List UInt8 → ℕ × ℕ → ℕ × ℕ
  | _, [], best => best
  | i, c :: cs, best =>
    let len := ((c :: cs).takeWhile fun b => b == 48 || b == 58).length
    longestZeros (i + 1) cs (if (i = 0 ∨ c = 58) ∧ best.2 < len then (i, len) else best)

/-- The address in hexadecimal groups, with `::` for the longest run of zeros. -/
def ntop6 (addr : List UInt8) : List UInt8 :=
  let text :=
    if addr.take 12 = List.replicate 10 0 ++ [0xff, 0xff] then
      joined 58 (((groups addr).take 6).map hexGroup) ++ 58 :: ntop4 (addr.drop 12)
    else joined 58 ((groups addr).map hexGroup)
  let best := longestZeros 0 text (0, 2)
  if best.2 > 3 then text.take best.1 ++ [58, 58] ++ text.drop (best.1 + best.2) else text

end Inet
