import ScriptFuzz.Decimal.Nearest
import ScriptFuzz.Toml.Text
import ScriptFuzz.Toml.Value

/-!
# Numbers, truth values and dates of configuration files

These values are written in one run of letters, digits and a few marks, and a blank may stand
between a date and a time. Integers are those of 64 bits with a sign. Other numbers may be as far
below zero as they like, but not so far above that no double is near.
-/

namespace ScriptFuzz.Toml

/-- Whether a character can stand in a value of this kind. -/
def isScalarChar (c : Char) : Bool :=
  c.isAlphanum || c == '_' || c == '+' || c == '-' || c == '.' || c == ':'

/-- Digits with single low lines between them, without those lines. -/
def digits? (isDigit : Char → Bool) : List Char → Option (List Char)
  | [] => none
  | [c] => if isDigit c then some [c] else none
  | c :: '_' :: cs => if isDigit c then (c :: ·) <$> digits? isDigit cs else none
  | c :: cs => if isDigit c then (c :: ·) <$> digits? isDigit cs else none

/-- The number that digits spell, to the given base. -/
def number (base : Nat) (digits : List Char) : Nat :=
  digits.foldl (fun n c => base * n + (hexDigit? c).getD 0) 0

/-- Decimal digits that do not start with a zero, unless it is the only one. -/
def decimal? (cs : List Char) : Option (List Char) :=
  match digits? Char.isDigit cs with
  | some ('0' :: _ :: _) => none
  | digits => digits

/-- The characters behind a sign, and whether it is a minus sign. -/
def sign : List Char → Bool × List Char
  | '-' :: cs => (true, cs)
  | '+' :: cs => (false, cs)
  | cs => (false, cs)

/-- An integer of 64 bits. -/
def fitting (n : Int) : Option Int :=
  if -2 ^ (63 : Nat) ≤ n ∧ n < 2 ^ (63 : Nat) then some n else none

/-- An integer: decimal with a sign, or hexadecimal, octal or binary behind a prefix. -/
def integer? (cs : List Char) : Option Int :=
  match cs with
  | '0' :: 'x' :: cs => do
    fitting (number 16 (← digits? (fun c => (hexDigit? c).isSome) cs))
  | '0' :: 'o' :: cs => do fitting (number 8 (← digits? (fun c => '0' ≤ c && c ≤ '7') cs))
  | '0' :: 'b' :: cs => do fitting (number 2 (← digits? (fun c => c == '0' || c == '1') cs))
  | cs => do
    let (negative, cs) := sign cs
    let n : Int := number 10 (← decimal? cs)
    fitting (if negative then -n else n)

/-- A number with a fraction, an exponent or both, by its sign, the digits in front of the exponent
and the power of ten by which they are multiplied. -/
def fractional? (cs : List Char) : Option (Bool × List Char × Int) := do
  let (negative, cs) := sign cs
  let isE (c : Char) := c == 'e' || c == 'E'
  let mantissa := cs.takeWhile (!isE ·)
  let whole ← decimal? (mantissa.takeWhile (· != '.'))
  let fraction ← match mantissa.dropWhile (· != '.') with
    | [] => some []
    | _ :: cs => digits? Char.isDigit cs
  let exponent : Int ← match cs.dropWhile (!isE ·) with
    | [] => if fraction.isEmpty then none else some 0
    | _ :: cs => do
      let (negative, cs) := sign cs
      let n : Int := number 10 (← digits? Char.isDigit cs)
      some (if negative then -n else n)
  return (negative, whole ++ fraction, exponent - fraction.length)

/-- Whether the characters are a number with a fraction or an exponent, infinite or none. -/
def isFloat (cs : List Char) : Bool :=
  let word := (sign cs).2
  if word == ['i', 'n', 'f'] || word == ['n', 'a', 'n'] then true
  else
    match fractional? cs with
    | none => false
    | some (negative, digits, exponent) =>
      negative || !Decimal.overflows (digits.map fun c => c.toNat - '0'.toNat) exponent

/-- The number that a fixed count of digits spells. -/
def fixed? (cs : List Char) : Option Nat :=
  if cs.all Char.isDigit then some (number 10 cs) else none

/-- The number of days in a month. -/
def daysIn (year month : Nat) : Nat :=
  if month = 2 then
    if year % 4 = 0 ∧ (year % 100 ≠ 0 ∨ year % 400 = 0) then 29 else 28
  else if month = 4 ∨ month = 6 ∨ month = 9 ∨ month = 11 then 30
  else 31

/-- Whether the characters are a date. -/
def isDate : List Char → Bool
  | [y₁, y₂, y₃, y₄, '-', m₁, m₂, '-', d₁, d₂] =>
    match fixed? [y₁, y₂, y₃, y₄], fixed? [m₁, m₂], fixed? [d₁, d₂] with
    | some year, some month, some day =>
      1 ≤ month && month ≤ 12 && 1 ≤ day && day ≤ daysIn year month
    | _, _, _ => false
  | _ => false

/-- Whether the characters are hours and minutes. -/
def isClock : List Char → Bool
  | [h₁, h₂, ':', m₁, m₂] =>
    match fixed? [h₁, h₂], fixed? [m₁, m₂] with
    | some hour, some minute => hour < 24 && minute < 60
    | _, _ => false
  | _ => false

/-- Whether the characters are nothing or a fraction of a second. -/
def isFraction : List Char → Bool
  | [] => true
  | '.' :: cs => !cs.isEmpty && cs.all Char.isDigit
  | _ => false

/-- Whether the characters are a time. -/
def isTime (cs : List Char) : Bool :=
  isClock (cs.take 5) &&
    match cs.drop 5 with
    | ':' :: s₁ :: s₂ :: fraction =>
      (match fixed? [s₁, s₂] with
        | some second => second ≤ 60
        | none => false) && isFraction fraction
    | _ => false

/-- Whether the characters are a time with a time zone behind it. -/
def isZonedTime (cs : List Char) : Bool :=
  match cs.getLast? with
  | some 'Z' | some 'z' => isTime cs.dropLast
  | _ =>
    let zone := cs.drop (cs.length - 6)
    match zone with
    | '+' :: clock | '-' :: clock => isClock clock && isTime (cs.take (cs.length - 6))
    | _ => false

/-- Whether the characters are a date with a time behind it. -/
def isDateTime (cs : List Char) : Bool :=
  match cs.drop 10 with
  | d :: time =>
    (d == 'T' || d == 't' || d == ' ') && isDate (cs.take 10) && (isTime time || isZonedTime time)
  | [] => false

/-- The value that the characters are. -/
def scalarOf (cs : List Char) : Option Toml :=
  if cs == ['t', 'r', 'u', 'e'] then some (.boolean true)
  else if cs == ['f', 'a', 'l', 's', 'e'] then some (.boolean false)
  else if isDate cs || isTime cs || isDateTime cs then some (.moment (.ofList cs))
  else if isFloat cs then some (.float (.ofList cs))
  else (integer? cs).map .integer

/-- A number, a truth value, a date or a time. -/
def scalar (cs : List Char) : Option (Toml × List Char) :=
  let run := cs.takeWhile isScalarChar
  let behind := cs.drop run.length
  match isDate run, behind with
  | true, ' ' :: cs =>
    let time := cs.takeWhile isScalarChar
    if time.isEmpty then some (.moment (.ofList run), behind)
    else (scalarOf (run ++ ' ' :: time)).map (·, cs.drop time.length)
  | _, _ => (scalarOf run).map (·, behind)

end ScriptFuzz.Toml
