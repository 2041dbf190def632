import ScriptFuzz.Channel.Basic
import ScriptFuzz.Expr.Outline

/-!
# Layouts of messages that are read

A layout is a list of fields, each of which takes an integer or a number of bytes from a source. The
length of a field can be the value of an earlier one.

A read takes the fields in order and captures their values. When it fails, the values captured
before the failing field stay; those of an earlier read are gone.
-/

namespace ScriptFuzz

/-- A part of a message. -/
inductive Field where
  /-- An unsigned integer. -/
  | scalar (width : Width)
  /-- A fixed number of bytes. -/
  | bytes (length : Nat)
  /-- As many bytes as an earlier field says, and at most `max`. -/
  | counted (lengthField max : Nat)
deriving DecidableEq, Repr

/-- What was read for a field. -/
inductive FieldValue where
  | unsigned (value : UInt64)
  | bytes (value : Bytes)
deriving DecidableEq, Repr

/-- The fields of a message, and what the last read captured. -/
structure Layout where
  /-- The fields in order. -/
  fields : Array Field := #[]
  /-- The values of the first fields, as many as were read. -/
  captured : Array FieldValue := #[]
deriving DecidableEq, Repr, Inhabited

namespace Layout

/-- Adds a field at the end and gives its number. -/
def schedule (layout : Layout) (field : Field) : Nat × Layout :=
  (layout.fields.size, { layout with fields := layout.fields.push field })

/-- The number of fields. -/
def size (layout : Layout) : Nat := layout.fields.size

/-- Whether there are no fields. -/
def isEmpty (layout : Layout) : Bool := layout.fields.isEmpty

/-- The value captured for a field. -/
def get? (layout : Layout) (i : Nat) : Option FieldValue := layout.captured[i]?

mutual

/-- Adds the fields that an expression stands for: one for each integer and each vector. -/
def scheduleExpr (fields : Array Field) (e : Expr) : Except LayoutFault (Array Field) :=
  match e with
  | .type _ t => .ok (fields.push (.scalar t.width))
  | .constant _ t _ => .ok (fields.push (.scalar t.width))
  | .vector _ t lower upper =>
    if lower = upper then
      -- sizes are counted in 64-bit words
      .ok (fields.push (.bytes (lower.toNat * t.width.bytes % 2 ^ (64 : Nat))))
    else .error (.rangedVector t.name lower upper)
  | .sequence _ items => scheduleAll fields items
  | e => .error (.unreadable e.outline)

/-- Adds the fields that expressions stand for, one after the other. -/
def scheduleAll (fields : Array Field) (es : List Expr) : Except LayoutFault (Array Field) :=
  match es with
  | [] => .ok fields
  | e :: es =>
    match scheduleExpr fields e with
    | .ok fields => scheduleAll fields es
    | .error fault => .error fault

end

/-- The layout that an expression stands for. -/
def ofExpr (e : Expr) : Except ChannelError Layout :=
  match scheduleExpr #[] e with
  | .ok fields => .ok { fields }
  | .error fault => .error (.layout fault)

variable {σ : Type} [Source σ]

/-- Reads one field, where the fields before it have the values captured. -/
def readField (captured : Array FieldValue) : Field → EStateM ChannelError σ FieldValue
  | .scalar width => do return .unsigned (← Source.readUInt width.bytes)
  | .bytes length => do return .bytes (← Source.receive length)
  | .counted lengthField max => do
    match captured[lengthField]? with
    | some (.unsigned length) =>
      if max < length.toNat then throw (.layout (.tooLong length max))
      else return .bytes (← Source.receive length.toNat)
    | _ => throw (.layout (.badLengthField captured.size lengthField))

/-- Reads the fields that are left, and gives all values captured. -/
def readFields (captured : Array FieldValue) (source : σ) :
    List Field → Array FieldValue × EStateM.Result ChannelError σ Unit
  | [] => (captured, .ok () source)
  | field :: fields =>
    match readField captured field source with
    | .ok value source => readFields (captured.push value) source fields
    | .error e source => (captured, .error e source)

/-- Reads a message. -/
def read (layout : Layout) (source : σ) : Layout × EStateM.Result ChannelError σ Unit :=
  let (captured, result) := readFields #[] source layout.fields.toList
  ({ layout with captured }, result)

end Layout

end ScriptFuzz
