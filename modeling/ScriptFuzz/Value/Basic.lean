import ScriptFuzz.Bytes.Hex
import ScriptFuzz.Decimal.Shortest

/-!
# Values of scripts

What a script computes with: integers of 64 bits with and without a sign, doubles, texts, and
strings of bytes. `Value.undefined` is what a function without a result gives.
-/

namespace ScriptFuzz

/-- A value of the script language. -/
inductive Value where
  | undefined
  | int (value : Int64)
  | uint (value : UInt64)
  | float (value : Float)
  | text (value : String)
  | bytes (value : Bytes)
deriving Inhabited, Repr

/-- The kinds of values. -/
inductive Kind where
  | undefined
  | int
  | uint
  | float
  | text
  | bytes
deriving DecidableEq, Repr

/-- The name of a kind. -/
def Kind.name : Kind → String
  | undefined => "undefined"
  | int => "int"
  | uint => "uint"
  | float => "float"
  | text => "string"
  | bytes => "opaque"

namespace Value

/-- The kind of a value. -/
def kind : Value → Kind
  | undefined => .undefined
  | int _ => .int
  | uint _ => .uint
  | float _ => .float
  | text _ => .text
  | bytes _ => .bytes

/-- Whether a value is a number. -/
def isNumeric (v : Value) : Bool :=
  match v with
  | int _ | uint _ | float _ => true
  | _ => false

/-- Whether a value is the number zero. -/
def isZero : Value → Bool
  | int n => n == 0
  | uint n => n == 0
  | float x => x == 0.0
  | _ => false

/-- The double nearest to a number. -/
def toFloat? : Value → Option Float
  | int n => some n.toFloat
  | uint n => some n.toFloat
  | float x => some x
  | _ => none

/-- The 64 bits of an integer, which are what is written to a channel. -/
def bits? : Value → Option UInt64
  | int n => some n.toUInt64
  | uint n => some n
  | _ => none

/-- A value as text: numbers in decimal, bytes in hexadecimal. -/
def render : Value → String
  | undefined => "undefined"
  | int n => toString n.toInt
  | uint n => toString n.toNat
  | float x => Decimal.text x
  | text s => s
  | bytes b => hexText b

/-- Equality of kind and value. A float that is not a number equals nothing, and the two zeros are
equal. -/
def same : Value → Value → Bool
  | undefined, undefined => true
  | int a, int b => a == b
  | uint a, uint b => a == b
  | float a, float b => a == b
  | text a, text b => a == b
  | bytes a, bytes b => a == b
  | _, _ => false

end Value

end ScriptFuzz
