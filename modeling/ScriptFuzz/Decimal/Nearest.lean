/-!
# The double nearest to a fraction

`Decimal.nearest num den` is the double nearest to `num / den`, and of two equally near ones the one
with an even significand. A double is laid out so that its bits, read as a number, count the
doubles from zero upwards: a significand `q` in units of `2 ^ e` has the bits
`(e + 1074) * 2 ^ 52 + q`, whether or not it has an implicit leading one.

`Decimal.overflows` tells which numbers are too great for a double.
-/

namespace ScriptFuzz.Decimal

/-- The natural number nearest to `num / den`; a half goes to the even neighbour. -/
def roundHalfEven (num den : Nat) : Nat :=
  let quotient := num / den
  let twice := 2 * (num % den)
  if twice < den then quotient
  else if den < twice then quotient + 1
  else quotient + quotient % 2

/-- The number `e` such that the double nearest to `num / den` is counted in units of
`2 ^ (e - 1074)`: it gives the significand 53 bits, or as many as the smallest doubles have. -/
def unitIndex (num den : Nat) : Nat :=
  -- `log2` of the quotient, exact: the first guess is right or one too great
  let guess : Int := (num.log2 : Int) - den.log2
  let tooGreat := num * 2 ^ (-guess).toNat < den * 2 ^ guess.toNat
  let exponent := if tooGreat then guess - 1 else guess
  (exponent - 52 + 1074).toNat

/-- The bits of the double nearest to `num / den`. -/
def nearestBits (num den : Nat) : UInt64 :=
  if num = 0 then 0
  else
    let index := unitIndex num den
    let power : Int := (index : Int) - 1074
    let significand := roundHalfEven (num * 2 ^ (-power).toNat) (den * 2 ^ power.toNat)
    UInt64.ofNat (min (index * 2 ^ (52 : Nat) + significand) (0x7FF * 2 ^ (52 : Nat)))

/-- The double nearest to `num / den`. -/
def nearest (num den : Nat) : Float := Float.ofBits (nearestBits num den)

/-- The least number that is too great for a double: halfway from the greatest double to the power
of two behind it. It has 309 digits. -/
def overflowBound : Nat := 2 ^ (1024 : Nat) - 2 ^ (970 : Nat)

/-- Whether the number with the given decimal digits, multiplied by a power of ten, is too great for
a double. Unless it has as many digits as the bound, they need not be looked at. -/
def overflows (digits : List Nat) (exponent : Int) : Bool :=
  let digits := digits.dropWhile (· = 0)
  if digits.isEmpty ∨ digits.length + exponent < 309 then false
  else if 309 < digits.length + exponent then true
  else
    let n := digits.foldl (fun n digit => 10 * n + digit) 0
    overflowBound * 10 ^ (-exponent).toNat ≤ n * 10 ^ exponent.toNat

end ScriptFuzz.Decimal
