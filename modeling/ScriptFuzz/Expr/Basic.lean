import ScriptFuzz.WireType

/-!
# Template expressions

The expression language in which single messages are written: integers of a wire type, vectors of
them, references to declared values, and sequences. A sequence in braces is to be fuzzed.

Every expression carries a `Tag`: a number, given out in the order in which expressions are
completed, and whether it lies inside a fuzzed sequence.
-/

namespace ScriptFuzz

/-- What distinguishes one occurrence of an expression from another. -/
structure Tag where
  /-- The number of the occurrence. -/
  id : Nat
  /-- Whether it lies inside a fuzzed sequence. -/
  fuzzy : Bool
deriving DecidableEq, Repr, Inhabited

/-- A template expression. -/
inductive Expr where
  /-- An integer whose value is left open. -/
  | type (tag : Tag) (type : WireType)
  /-- An integer of a given value. -/
  | constant (tag : Tag) (type : WireType) (value : Int)
  /-- A declared value. -/
  | reference (tag : Tag) (name : String)
  /-- A property of a declared value. -/
  | property (tag : Tag) (name property : String)
  /-- Between `lower` and `upper` integers. -/
  | vector (tag : Tag) (type : WireType) (lower upper : UInt64)
  /-- Expressions one after the other. -/
  | sequence (tag : Tag) (items : List Expr)
  /-- Expressions one after the other, to be fuzzed. -/
  | fuzz (tag : Tag) (items : List Expr)
deriving Repr, Inhabited

namespace Expr

/-- The tag of an expression. -/
def tag : Expr → Tag
  | type tag _ | constant tag _ _ | reference tag _ | property tag _ _ | vector tag _ _ _
  | sequence tag _ | fuzz tag _ => tag

/-- The two's complement pattern of a constant, cut to the width of its type only when written. -/
def constantBits (value : Int) : UInt64 := UInt64.ofInt value

end Expr

/-- A statement over template expressions. -/
inductive ExprStatement where
  /-- `$name = value;` -/
  | declaration (name : String) (value : Expr)
  /-- `<< value << value;` -/
  | output (values : List Expr)
  /-- `[layout] >> $name;` -/
  | input (layout : Expr) (name : String)
deriving Repr, Inhabited

end ScriptFuzz
