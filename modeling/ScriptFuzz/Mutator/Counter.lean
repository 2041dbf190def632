import ScriptFuzz.WireType
import ScriptFuzz.Bytes.Order

/-!
# Counters

A counter walks through all values of an unsigned width, upwards from its first value, and wraps
around. It never ends.
-/

namespace ScriptFuzz

/-- A walk through the values of an unsigned width. -/
structure Counter where
  /-- The width of the values. -/
  width : Width
  /-- The first value. -/
  initial : Nat
  /-- The least value that is meant; the walk does not heed it. -/
  lower : Nat
  /-- The greatest value that is meant; the walk does not heed it. -/
  upper : Nat
  /-- The present value. -/
  current : Nat
deriving DecidableEq, Repr

namespace Counter

/-- A counter at its first value, with all values of the width meant. What does not fit the width is
cut off. -/
def start (width : Width) (initial : Nat) : Counter :=
  let initial := initial % 2 ^ width.bits
  { width, initial, lower := 0, upper := width.max, current := initial }

/-- The same counter with other bounds. -/
def withBounds (c : Counter) (lower upper : Nat) : Counter :=
  { c with lower := lower % 2 ^ c.width.bits, upper := upper % 2 ^ c.width.bits }

/-- The name of the width. -/
def typeName (c : Counter) : String := (WireType.mk c.width false).name

/-- Moves on to the next value, behind the greatest one to zero. There always is one. -/
def mutate (c : Counter) : Bool × Counter :=
  (true, { c with current := (c.current + 1) % 2 ^ c.width.bits })

/-- The counter at the next value. -/
def next (c : Counter) : Counter := c.mutate.2

/-- Back to the first value. -/
def reset (c : Counter) : Counter := { c with current := c.initial }

/-- The present value as it is written. -/
def bytes (c : Counter) (order : ByteOrder) : Bytes :=
  order.encode c.width.bytes (.ofNat c.current)

/-- The signature of the present state. -/
def describe (c : Counter) : String := s!"{c.typeName}: current={c.current}"

end Counter

end ScriptFuzz
