/-!
# Wire types

The integer types of the template language: a width of one, two, three, four or eight bytes, and
whether the value is signed. On the wire only the width matters.
-/

namespace ScriptFuzz

/-- The widths an integer may have on the wire. -/
inductive Width where
  | one
  | two
  | three
  | four
  | eight
deriving DecidableEq, Repr, Inhabited

namespace Width

/-- The number of bytes. -/
def bytes : Width → Nat
  | one => 1
  | two => 2
  | three => 3
  | four => 4
  | eight => 8

/-- The number of bits. -/
def bits (w : Width) : Nat := 8 * w.bytes

/-- The widths, narrowest first. -/
def all : List Width := [one, two, three, four, eight]

/-- The greatest unsigned number of that width. -/
def max (w : Width) : Nat := 2 ^ w.bits - 1

theorem max_lt (w : Width) : w.max < 2 ^ (64 : Nat) := by cases w <;> decide

end Width

/-- An integer type: how wide it is, and whether it is signed. -/
structure WireType where
  /-- The width on the wire. -/
  width : Width
  /-- Whether values may be negative. -/
  signed : Bool
deriving DecidableEq, Repr, Inhabited

namespace WireType

/-- The types in the order of their widths, each unsigned one before its signed partner. -/
def all : List WireType := Width.all.flatMap fun w => [⟨w, false⟩, ⟨w, true⟩]

/-- The name of the type, such as `u16` or `s24`. -/
def name (t : WireType) : String := (if t.signed then "s" else "u") ++ toString t.width.bits

/-- The least signed number of the type's width. -/
def signedMin (t : WireType) : Int := -2 ^ (t.width.bits - 1)

/-- The greatest signed number of the type's width. -/
def signedMax (t : WireType) : Int := 2 ^ (t.width.bits - 1) - 1

/-- The least value of the type. -/
def least (t : WireType) : Int := if t.signed then t.signedMin else 0

/-- The greatest value of the type. -/
def greatest (t : WireType) : Int := if t.signed then t.signedMax else t.width.max

/-- Whether a number is a value of the type. -/
def Holds (t : WireType) (n : Int) : Prop := t.least ≤ n ∧ n ≤ t.greatest

instance (t : WireType) (n : Int) : Decidable (t.Holds n) :=
  inferInstanceAs (Decidable (_ ∧ _))

end WireType

end ScriptFuzz
