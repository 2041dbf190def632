import ScriptFuzz.Bytes.Order

/-!
# Walks through array lengths

An array whose number of elements goes up from one bound to another. Its size in bytes is counted in
64-bit words, so it wraps around at `2 ^ 64`.
-/

namespace ScriptFuzz

/-- A walk through the lengths of an array. -/
structure LengthWalk where
  /-- The width of an element in bytes. -/
  width : Nat
  /-- The first number of elements. -/
  lower : Nat
  /-- The last number of elements. -/
  upper : Nat
  /-- The present number of elements. -/
  count : Nat
  /-- Whether the walk is over. -/
  done : Bool := false
deriving DecidableEq, Repr

namespace LengthWalk

/-- The byte that fills the elements. -/
def fill : UInt8 := 0x41

/-- A walk at its first length; an upper bound below the lower one counts as equal to it. -/
def start (width lower upper : Nat) : LengthWalk :=
  { width, lower, upper := max upper lower, count := lower }

/-- Moves on to the next length, and says whether there is one. At the upper bound the walk is over.
-/
def mutate (w : LengthWalk) : Bool × LengthWalk :=
  if w.done || w.upper ≤ w.count then (false, { w with done := true })
  else (true, { w with count := w.count + 1 })

/-- The walk at the next length. -/
def next (w : LengthWalk) : LengthWalk := w.mutate.2

theorem next_eq (w : LengthWalk) :
    w.next = if w.done || w.upper ≤ w.count then { w with done := true }
      else { w with count := w.count + 1 } := by
  rw [next, mutate]
  split <;> rfl

/-- The answer to a move is whether the walk is not over behind it. -/
theorem mutate_fst (w : LengthWalk) : w.mutate.1 = !w.next.done := by
  rw [next, mutate]
  split
  · rfl
  · next h =>
    simp only [Bool.or_eq_true, not_or, Bool.not_eq_true] at h
    exact (congrArg (!·) h.1).symm

/-- Back to the first length. -/
def reset (w : LengthWalk) : LengthWalk := { w with count := w.lower, done := false }

/-- The size of the array in bytes. -/
def size (w : LengthWalk) : Nat := w.count * w.width % 2 ^ (64 : Nat)

/-- The array as it is written. -/
def bytes (w : LengthWalk) : Bytes := List.replicate w.size fill

/-- The signature of the present state. -/
def describe (w : LengthWalk) : String :=
  s!"array: width={w.width}, count={w.count} of {w.lower}..={w.upper}"

end LengthWalk

end ScriptFuzz
