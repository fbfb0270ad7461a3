/-!
# The range of numbers

A number is in range if it has a finite value in double precision. The value is computed in three
steps, each of which rounds: the leading digits of the number, as many as fit into 64 bits, are
taken as a double, the power of ten that scales them is taken as a double, and the two are
multiplied. Digits behind the leading ones only count towards the power of ten. `overflows` decides
in exact arithmetic whether the product is infinite.
-/

namespace TableQuery.Json

/-- The greatest natural number that fits into 64 bits. -/
def maxWord : Nat := Nat.pow 2 64 - 1

/-- Appends digits to a number as long as it fits into 64 bits; also the digits left over. -/
def absorb (n : Nat) : List Char → Nat × List Char
  | [] => (n, [])
  | c :: r =>
    let m := 10 * n + (c.toNat - '0'.toNat)
    if m ≤ maxWord then absorb m r else (n, c :: r)

/-- A number in digits of ten: `significand * 10 ^ exponent`. -/
structure Scaled where
  significand : Nat
  exponent : Int
deriving DecidableEq, Repr

namespace Scaled

/-- The scaled number with the given digits in front of and behind the point and the given
exponent. -/
def ofDigits (whole fraction : List Char) (exponent : Int) : Scaled :=
  let (n, left) := absorb 0 whole
  let (m, unused) := absorb n fraction
  ⟨m, left.length - (fraction.length - unused.length : Nat) + exponent⟩

/-- A natural number in double precision: 53 bits, to the nearest, ties to even. -/
def roundDouble (n : Nat) : Nat :=
  let unit := Nat.pow 2 (n.log2 - 52)
  let quotient := n / unit
  let remainder := n % unit
  if unit < 2 * remainder || (unit == 2 * remainder && quotient % 2 == 1) then
    (quotient + 1) * unit
  else
    quotient * unit

/-- The least number that double precision rounds to infinity. -/
def infinityBound : Nat := Nat.pow 2 1024 - Nat.pow 2 970

/-- The greatest power of ten that is finite in double precision. -/
def maxExponent : Nat := 308

/-- The number is infinite in double precision. -/
def overflows (s : Scaled) : Bool :=
  if s.significand = 0 ∨ s.exponent < 0 then
    false
  else if (maxExponent : Int) < s.exponent then
    true
  else
    infinityBound ≤ roundDouble s.significand * roundDouble (Nat.pow 10 s.exponent.toNat)

end Scaled

end TableQuery.Json
