import ScriptFuzz.Value.Basic

/-!
# Arithmetic on values

Integers wrap around at 64 bits, and a sign on either side makes the result signed; a double on
either side makes it a double. Texts and bytes can be put together with `+`, and a number behind a
text is put into words first.
-/

namespace ScriptFuzz

/-- The arithmetic operations. -/
inductive Arith where
  | add
  | sub
  | mul
  | div
deriving DecidableEq, Repr

/-- The verb for an operation. -/
def Arith.verb : Arith → String
  | add => "add"
  | sub => "subtract"
  | mul => "multiply"
  | div => "divide"

/-- Why an operation has no result. -/
inductive ArithError where
  /-- The operation is not defined on these kinds. -/
  | mismatch (op : Arith) (left right : Kind)
  /-- A number is divided by zero. -/
  | divisionByZero
  /-- The kind has no size. -/
  | noSize (kind : Kind)
deriving DecidableEq, Repr

namespace Arith

/-- The operation on signed words; it wraps, and division goes toward zero. -/
def onInts (op : Arith) (a b : Int64) : Int64 :=
  match op with
  | add => a + b
  | sub => a - b
  | mul => a * b
  | div => a / b

/-- The operation on unsigned words; it wraps. -/
def onUInts (op : Arith) (a b : UInt64) : UInt64 :=
  match op with
  | add => a + b
  | sub => a - b
  | mul => a * b
  | div => a / b

/-- The operation on doubles. -/
def onFloats (op : Arith) (a b : Float) : Float :=
  match op with
  | add => a + b
  | sub => a - b
  | mul => a * b
  | div => a / b

end Arith

namespace Value

/-- The operation on values, where no number is divided by zero. -/
def combine (op : Arith) (left right : Value) : Except ArithError Value :=
  match left, right with
  | int a, int b => .ok (int (op.onInts a b))
  | int a, uint b => .ok (int (op.onInts a b.toInt64))
  | uint a, int b => .ok (int (op.onInts a.toInt64 b))
  | uint a, uint b => .ok (uint (op.onUInts a b))
  | _, _ =>
    match left.toFloat?, right.toFloat? with
    | some a, some b => .ok (float (op.onFloats a b))
    | _, _ =>
      match op, left, right with
      | .add, text a, text b => .ok (text (a ++ b))
      | .add, bytes a, bytes b => .ok (bytes (a ++ b))
      | .add, text a, b =>
        if b.isNumeric then .ok (text (a ++ b.render))
        else .error (.mismatch op left.kind right.kind)
      | _, _, _ => .error (.mismatch op left.kind right.kind)

/-- The operation on values. -/
def arith (op : Arith) (left right : Value) : Except ArithError Value :=
  if op = .div ∧ left.isNumeric ∧ right.isZero then .error .divisionByZero
  else combine op left right

/-- The number of bytes of a text or a string of bytes. -/
def size (v : Value) : Except ArithError Value :=
  match v with
  | text s => .ok (uint (.ofNat s.utf8ByteSize))
  | bytes b => .ok (uint (.ofNat b.length))
  | v => .error (.noSize v.kind)

end Value

end ScriptFuzz
