/-!
# Byte order

How an unsigned integer of a given width is laid out in bytes.

- `ByteOrder.encode order width value`: the `width` low bytes of `value`, in that order.
- `ByteOrder.decode order bytes`: the integer those bytes spell, modulo `2 ^ 64`.

Both go through one picture, the digits of a number in base 256 with the least significant first
(`lowBytes`, `ofLowBytes`); big-endian is its reversal.
-/

namespace ScriptFuzz

-- in this namespace powers are the ones the runtime computes, whatever else is imported
attribute [scoped instance (1100)] instPowNat

/-- Finite byte strings: payloads, wire data, file contents. -/
abbrev Bytes := List UInt8

/-- The order in which the bytes of an integer are written. -/
inductive ByteOrder where
  /-- Most significant byte first. -/
  | bigEndian
  /-- Least significant byte first. -/
  | littleEndian
deriving DecidableEq, Repr

namespace ByteOrder

instance : Inhabited ByteOrder := ⟨bigEndian⟩

/-- The `width` low base-256 digits of `value`, least significant first. -/
def lowBytes : (width value : Nat) → Bytes
  | 0, _ => []
  | width + 1, value => UInt8.ofNat value :: lowBytes width (value / 256)

/-- The number whose base-256 digits, least significant first, are `bytes`. -/
def ofLowBytes : Bytes → Nat
  | [] => 0
  | b :: bytes => b.toNat + 256 * ofLowBytes bytes

/-- The `width` low bytes of `value`; higher ones are dropped. -/
def encode (order : ByteOrder) (width : Nat) (value : UInt64) : Bytes :=
  match order with
  | littleEndian => lowBytes width value.toNat
  | bigEndian => (lowBytes width value.toNat).reverse

/-- The integer that `bytes` spell. Of more than eight bytes only the eight least significant count.
-/
def decode (order : ByteOrder) (bytes : Bytes) : UInt64 :=
  match order with
  | littleEndian => UInt64.ofNat (ofLowBytes bytes)
  | bigEndian => UInt64.ofNat (ofLowBytes bytes.reverse)

@[simp] theorem length_lowBytes (width value : Nat) : (lowBytes width value).length = width := by
  induction width generalizing value with
  | zero => rfl
  | succ width ih => simp [lowBytes, ih]

@[simp] theorem length_encode (order : ByteOrder) (width : Nat) (value : UInt64) :
    (order.encode width value).length = width := by
  cases order <;> simp [encode]

end ByteOrder

end ScriptFuzz
