import Mathlib.Data.Set.Function
import ScriptFuzz.Bytes.Buffer
import ScriptFuzz.Proofs.Bytes.Order

/-!
# Integers and their bytes

In either order, the integers of a width and the byte strings of that length correspond one to one.

- `ByteOrder.leastFirst`, `ByteOrder.lowest`: bytes by their significance.
- `ByteOrder.encode_decode`: bytes that are read as an integer are the bytes of this integer.
- `ByteOrder.decode_lowest`: of more than eight bytes only the eight least significant ones count.
- `ByteOrder.Coding`, `ByteOrder.coding_bijective`: what is promised of an order and a width.
-/

namespace ScriptFuzz

namespace ByteOrder

variable {order : ByteOrder} {bytes : Bytes} {width : Nat}

/-! ## Significance -/

/-- The same bytes, the least significant one first. -/
def leastFirst (order : ByteOrder) (bytes : Bytes) : Bytes :=
  match order with
  | littleEndian => bytes
  | bigEndian => bytes.reverse

/-- The `count` least significant bytes, all if there are not so many. -/
def lowest (order : ByteOrder) (count : Nat) (bytes : Bytes) : Bytes :=
  match order with
  | littleEndian => bytes.take count
  | bigEndian => bytes.drop (bytes.length - count)

@[simp] theorem leastFirst_leastFirst (order : ByteOrder) (bytes : Bytes) :
    order.leastFirst (order.leastFirst bytes) = bytes := by
  cases order with
  | littleEndian => rfl
  | bigEndian => exact List.reverse_reverse bytes

@[simp] theorem length_leastFirst (order : ByteOrder) (bytes : Bytes) :
    (order.leastFirst bytes).length = bytes.length := by
  cases order with
  | littleEndian => rfl
  | bigEndian => exact List.length_reverse

theorem leastFirst_lowest (order : ByteOrder) (count : Nat) (bytes : Bytes) :
    order.leastFirst (order.lowest count bytes) = (order.leastFirst bytes).take count := by
  cases order with
  | littleEndian => rfl
  | bigEndian => exact List.take_reverse.symm

theorem encode_eq (order : ByteOrder) (width : Nat) (v : UInt64) :
    order.encode width v = order.leastFirst (lowBytes width v.toNat) := by
  cases order <;> rfl

theorem decode_eq (order : ByteOrder) (bytes : Bytes) :
    order.decode bytes = UInt64.ofNat (ofLowBytes (order.leastFirst bytes)) := by
  cases order <;> rfl

/-! ## Reading what was written, and writing what was read -/

/-- Up to eight bytes are read as the number that they spell. -/
theorem toNat_decode (order : ByteOrder) (h : bytes.length ≤ 8) :
    (order.decode bytes).toNat = ofLowBytes (order.leastFirst bytes) := by
  -- eight bytes fit, so that nothing wraps around
  have hlt : ofLowBytes (order.leastFirst bytes) < 2 ^ (64 : Nat) := calc
    ofLowBytes (order.leastFirst bytes) < 256 ^ bytes.length := by
      rw [← length_leastFirst order]
      exact ofLowBytes_lt _
    _ ≤ 256 ^ (8 : Nat) := Nat.pow_le_pow_right (by decide) h
    _ = 2 ^ (64 : Nat) := by decide
  rw [decode_eq, UInt64.toNat_ofNat_of_lt' hlt]

theorem toNat_decode_lt (order : ByteOrder) (h : bytes.length ≤ 8) :
    (order.decode bytes).toNat < 2 ^ (8 * bytes.length) := by
  rw [toNat_decode order h, two_pow_bits, ← length_leastFirst order]
  exact ofLowBytes_lt _

/-- Bytes that are read as an integer are the bytes of this integer. -/
theorem encode_decode (order : ByteOrder) (h : bytes.length ≤ 8) :
    order.encode bytes.length (order.decode bytes) = bytes := by
  rw [encode_eq, toNat_decode order h, ← length_leastFirst order, lowBytes_ofLowBytes,
    leastFirst_leastFirst]

/-- Of more than eight bytes only the eight least significant ones count. -/
theorem decode_lowest (order : ByteOrder) (bytes : Bytes) :
    order.decode (order.lowest 8 bytes) = order.decode bytes := by
  rw [decode_eq, decode_eq, leastFirst_lowest, ofLowBytes_take, ← UInt64.toNat_inj,
    UInt64.toNat_ofNat', UInt64.toNat_ofNat']
  -- what the other bytes add is a multiple of `256 ^ 8`, where integers wrap around
  exact Nat.mod_mod _ _

theorem toNat_decode_encode (order : ByteOrder) (width : Nat) (v : UInt64) :
    (order.decode (order.encode width v)).toNat = v.toNat % 2 ^ (8 * width) := by
  have hlt : v.toNat % 2 ^ (8 * width) < 2 ^ (64 : Nat) :=
    Nat.lt_of_le_of_lt (Nat.mod_le _ _) v.toNat_lt
  rw [decode_encode, UInt64.toNat_ofNat_of_lt' hlt]

/-- Writing and reading undo each other, on the integers of a width and on the byte strings of that
length. -/
theorem invOn_decode_encode (order : ByteOrder) (hwidth : width ≤ 8) :
    Set.InvOn order.decode (order.encode width) {v | v.toNat < 2 ^ (8 * width)}
      {bytes | bytes.length = width} := by
  constructor
  · intro v hv
    rw [← UInt64.toNat_inj, toNat_decode_encode]
    exact Nat.mod_eq_of_lt hv
  · rintro bytes rfl
    exact encode_decode order hwidth

/-! ## What is promised -/

/-- What holds of the integers that are written in `width` bytes. -/
structure Coding (order : ByteOrder) (width : Nat) : Prop where
  /-- As many bytes are appended to what was written before. -/
  appended : ∀ (b : Buffer) (v : UInt64), b.order = order →
    (b.putUInt width v).bytes = b.bytes ++ order.encode width v ∧
      (order.encode width v).length = width
  /-- An integer is read back, up to the bytes that were left out. -/
  decoded : ∀ v : UInt64, (order.decode (order.encode width v)).toNat = v.toNat % 2 ^ (8 * width)
  /-- Bytes are written again as they were read. -/
  encoded : ∀ bytes : Bytes, bytes.length = width →
    order.encode width (order.decode bytes) = bytes
  /-- The integers of the width and the byte strings of that length correspond one to one. -/
  bijective : Set.BijOn (order.encode width) {v | v.toNat < 2 ^ (8 * width)}
    {bytes | bytes.length = width}
  /-- The two orders are the reverse of each other. -/
  reversed : ∀ v : UInt64, littleEndian.encode width v = (bigEndian.encode width v).reverse
  /-- Least significant first, the bytes are the digits in base 256. -/
  digits : ∀ (v : UInt64) (i : Nat), i < width →
    (littleEndian.encode width v)[i]? = some (UInt8.ofNat (v.toNat / 256 ^ i))
  /-- Of more than eight bytes only the eight least significant ones are read. -/
  lowest : ∀ bytes : Bytes, order.decode bytes = order.decode (order.lowest 8 bytes)

/-- Integers of up to eight bytes are written and read without loss, in either order. -/
theorem coding_bijective (order : ByteOrder) (hwidth : width ≤ 8) : order.Coding width where
  appended := by
    rintro b v rfl
    exact ⟨b.bytes_putUInt width v, length_encode b.order width v⟩
  decoded := order.toNat_decode_encode width
  encoded := (order.invOn_decode_encode hwidth).2
  bijective := by
    refine (order.invOn_decode_encode hwidth).bijOn ?_ ?_
    · intro v _
      exact length_encode order width v
    · rintro bytes rfl
      exact toNat_decode_lt order hwidth
  reversed v := (List.reverse_reverse (lowBytes width v.toNat)).symm
  digits v i hi := getElem?_lowBytes hi v.toNat
  lowest bytes := (decode_lowest order bytes).symm

/-- Of an integer with four bytes, three are written behind another byte, and read back. -/
theorem coding_bijective_three :
    3 ≤ 8 ∧ (Buffer.putUInt ⟨#[0xFF], .bigEndian⟩ 3 0x01020304).bytes = [0xFF, 0x02, 0x03, 0x04] ∧
      (bigEndian.decode [0x02, 0x03, 0x04]).toNat = 0x020304 ∧
      bigEndian.encode 3 (bigEndian.decode [0x02, 0x03, 0x04]) = [0x02, 0x03, 0x04] := by
  have hwidth : 3 ≤ 8 := by decide
  have hcoding := coding_bijective bigEndian hwidth
  exact ⟨hwidth, (hcoding.appended ⟨#[0xFF], .bigEndian⟩ 0x01020304 rfl).1,
    hcoding.decoded 0x01020304, hcoding.encoded _ rfl⟩

end ByteOrder

end ScriptFuzz
