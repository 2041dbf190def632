/-!
# Shortest decimal form of a double

Every finite double is an exact fraction, and the numbers that round to it form an interval around
it. Its shortest form is the decimal with the fewest digits in that interval, the nearest one if
there are two, the greater one if they are equally near. All arithmetic is exact, on natural
numbers.

- `Decimal.shortest`: digits and exponent of the shortest form.
- `Decimal.text`: that form without an exponent, such as `0.001`, `-0`, `inf` or `NaN`.
-/

namespace ScriptFuzz.Decimal

/-- The decimal `digits * 10 ^ exponent`. -/
structure Scaled where
  /-- The significant digits, as a number. -/
  digits : Nat
  /-- The power of ten they are counted in. -/
  exponent : Int
deriving DecidableEq, Repr

/-- A magnitude among the doubles: `significand * 2 ^ power`. -/
structure Magnitude where
  /-- The significand, below `2 ^ 53`. -/
  significand : Nat
  /-- The power of two it is counted in. -/
  power : Int
  /-- Whether the next smaller double is only half a unit away. -/
  closeBelow : Bool
deriving DecidableEq, Repr

/-- The magnitude that the low 63 bits of a finite double encode. -/
def Magnitude.ofBits (bits : UInt64) : Magnitude :=
  let field : Nat := bits.toNat / 2 ^ (52 : Nat) % 2 ^ (11 : Nat)
  let fraction := bits.toNat % 2 ^ (52 : Nat)
  if field = 0 then ⟨fraction, -1074, false⟩
  else ⟨fraction + 2 ^ (52 : Nat), (field : Int) - 1075, fraction = 0 && 1 < field⟩

/-- An interval around a value, all three over one denominator. -/
structure Around where
  /-- The lower end. -/
  low : Nat
  /-- The value itself. -/
  value : Nat
  /-- The upper end. -/
  high : Nat
  /-- The common denominator. -/
  unit : Nat
  /-- Whether the ends belong to the interval. -/
  closed : Bool

/-- The numbers that round to a magnitude: half a unit to either side, and the ends themselves where
the significand is even. -/
def Magnitude.around (m : Magnitude) : Around :=
  let scale := 2 ^ m.power.toNat
  { low := (4 * m.significand - (if m.closeBelow then 1 else 2)) * scale
    value := 4 * m.significand * scale
    high := (4 * m.significand + 2) * scale
    unit := 4 * 2 ^ (-m.power).toNat
    closed := m.significand % 2 = 0 }

/-- Whether `n` times `step` lies in the interval. -/
def Around.covers (a : Around) (n step : Nat) : Bool :=
  if a.closed then a.low ≤ n * step && n * step ≤ a.high
  else a.low < n * step && n * step < a.high

/-- The interval and its denominator, counted in powers `10 ^ exponent`. -/
def Around.onGrid (a : Around) (exponent : Int) : Around :=
  let up := 10 ^ (-exponent).toNat
  { a with
    low := a.low * up
    value := a.value * up
    high := a.high * up
    unit := a.unit * 10 ^ exponent.toNat }

/-- The multiple of the unit next to the value that the interval covers: the nearer one if it covers
both neighbours, the greater one on a tie. -/
def Around.nearest? (a : Around) : Option Nat :=
  let below := a.value / a.unit
  let above := below + 1
  match a.covers below a.unit, a.covers above a.unit with
  | true, true => some (if 2 * (a.value % a.unit) < a.unit then below else above)
  | true, false => some below
  | false, true => some above
  | false, false => none

/-- Looks for a covered decimal on ever finer grids, from `10 ^ exponent` downwards. -/
def Around.search (a : Around) : (grids : Nat) → (exponent : Int) → Scaled
  | 0, exponent => ⟨(a.onGrid exponent).value / (a.onGrid exponent).unit, exponent⟩
  | grids + 1, exponent =>
    match (a.onGrid exponent).nearest? with
    | some digits => ⟨digits, exponent⟩
    | none => a.search grids (exponent - 1)

/-- The shortest decimal that reads back as the magnitude. Since `log₁₀ 2` is just above 1233/4096,
the first grid is coarser than the value, and since 17 digits always suffice, the search ends. -/
def shortest (m : Magnitude) : Scaled :=
  if m.significand = 0 then ⟨0, 0⟩
  else m.around.search 24 ((m.power + m.significand.log2) * 1233 / 4096 + 2)

/-- A decimal written out, without an exponent. -/
def Scaled.text (s : Scaled) : String :=
  let digits := Nat.toDigits 10 s.digits
  match s.exponent with
  | .ofNat zeros => String.ofList (digits ++ List.replicate zeros '0')
  | .negSucc n =>
    let places := n + 1
    let padded := List.replicate (places + 1 - digits.length) '0' ++ digits
    let whole := padded.length - places
    String.ofList (padded.take whole ++ '.' :: padded.drop whole)

/-- The shortest text of a double, given by its bits. -/
def ofBits (bits : UInt64) : String :=
  let negative := 2 ^ (63 : Nat) ≤ bits.toNat
  let field : Nat := bits.toNat / 2 ^ (52 : Nat) % 2 ^ (11 : Nat)
  let sign := if negative then "-" else ""
  if field = 2 ^ (11 : Nat) - 1 then
    if bits.toNat % 2 ^ (52 : Nat) = 0 then sign ++ "inf" else "NaN"
  else sign ++ (shortest (.ofBits bits)).text

/-- The shortest text of a double. -/
def text (x : Float) : String := ofBits x.toBits

end ScriptFuzz.Decimal
