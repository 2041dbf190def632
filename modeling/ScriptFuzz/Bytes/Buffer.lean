import ScriptFuzz.Bytes.Order

/-!
# Output buffers

A `Buffer` collects the bytes of a serialization together with the byte order in force. Clients see
it through `Buffer.bytes`; each operation has one lemma that says what it appends.
-/

namespace ScriptFuzz

/-- Bytes written so far, and the order in which integers are written next. -/
structure Buffer where
  /-- The bytes written so far. -/
  data : Array UInt8 := #[]
  /-- The order of the integers that follow. -/
  order : ByteOrder := .bigEndian
deriving DecidableEq, Repr, Inhabited

namespace Buffer

/-- The empty buffer that writes integers in `order`. -/
def empty (order : ByteOrder) : Buffer := { order }

/-- What has been written, first byte first. -/
def bytes (b : Buffer) : Bytes := b.data.toList

/-- The number of bytes written. -/
def size (b : Buffer) : Nat := b.data.size

/-- Whether nothing has been written. -/
def isEmpty (b : Buffer) : Bool := b.data.isEmpty

/-- Writes one byte. -/
def push (b : Buffer) (byte : UInt8) : Buffer := { b with data := b.data.push byte }

/-- Writes bytes as they are. -/
def append (b : Buffer) (bytes : Bytes) : Buffer := { b with data := b.data ++ bytes }

/-- Writes the `width` low bytes of `value` in the order in force. -/
def putUInt (b : Buffer) (width : Nat) (value : UInt64) : Buffer :=
  b.append (b.order.encode width value)

/-- Puts the given order in force. -/
def setOrder (b : Buffer) (order : ByteOrder) : Buffer := { b with order }

/-- Runs a writer with another order in force. The order before is in force again afterwards, also
when the writer fails. -/
def inOrder {ε α : Type} (order : ByteOrder) (writer : EStateM ε Buffer α) : EStateM ε Buffer α :=
  fun b =>
    match writer (b.setOrder order) with
    | .ok a b' => .ok a (b'.setOrder b.order)
    | .error e b' => .error e (b'.setOrder b.order)

@[simp] theorem bytes_empty (order : ByteOrder) : (empty order).bytes = [] := rfl

@[simp] theorem bytes_push (b : Buffer) (byte : UInt8) :
    (b.push byte).bytes = b.bytes ++ [byte] := by
  simp [push, bytes]

@[simp] theorem bytes_append (b : Buffer) (bs : Bytes) : (b.append bs).bytes = b.bytes ++ bs := by
  simp [append, bytes]

@[simp] theorem bytes_putUInt (b : Buffer) (width : Nat) (value : UInt64) :
    (b.putUInt width value).bytes = b.bytes ++ b.order.encode width value := by
  simp [putUInt]

@[simp] theorem bytes_setOrder (b : Buffer) (order : ByteOrder) :
    (b.setOrder order).bytes = b.bytes := rfl

@[simp] theorem order_push (b : Buffer) (byte : UInt8) : (b.push byte).order = b.order := rfl

@[simp] theorem order_append (b : Buffer) (bs : Bytes) : (b.append bs).order = b.order := rfl

@[simp] theorem order_putUInt (b : Buffer) (width : Nat) (value : UInt64) :
    (b.putUInt width value).order = b.order := rfl

@[simp] theorem order_setOrder (b : Buffer) (order : ByteOrder) :
    (b.setOrder order).order = order := rfl

end Buffer

end ScriptFuzz
