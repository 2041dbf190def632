import ScriptFuzz.Bytes.Order

/-!
# Integers in bytes

What the digits of a number in base 256 say about it, in either order.

- `ByteOrder.ofLowBytes_lowBytes`: digits spell the number, up to those that are left out.
- `ByteOrder.lowBytes_ofLowBytes`: no other digits spell it.
- `ByteOrder.decode_encode`: an integer that is written and read keeps its low bytes.
- `ByteOrder.encode_congr`: only the low bytes of an integer are written.
-/

namespace ScriptFuzz

namespace ByteOrder

/-- The digits of a number are those of the quotient behind the remainder. -/
theorem mod_pow_succ (width n : Nat) :
    n % 256 ^ (width + 1) = n % 256 + 256 * (n / 256 % 256 ^ width) := by
  rw [Nat.pow_succ, Nat.mul_comm, Nat.mod_mul]

theorem ofLowBytes_lowBytes (width n : Nat) :
    ofLowBytes (lowBytes width n) = n % 256 ^ width := by
  induction width generalizing n with
  | zero => rw [Nat.pow_zero, Nat.mod_one]; rfl
  | succ width ih =>
    show (UInt8.ofNat n).toNat + 256 * ofLowBytes (lowBytes width (n / 256)) = _
    rw [ih, mod_pow_succ, UInt8.toNat_ofNat']

theorem ofLowBytes_cons_mod (b : UInt8) (bytes : Bytes) :
    ofLowBytes (b :: bytes) % 256 = b.toNat := by
  have hb := b.toNat_lt
  rw [ofLowBytes]
  omega

theorem ofLowBytes_cons_div (b : UInt8) (bytes : Bytes) :
    ofLowBytes (b :: bytes) / 256 = ofLowBytes bytes := by
  have hb := b.toNat_lt
  rw [ofLowBytes]
  omega

/-- The digits of the number that some digits spell are these digits. -/
theorem lowBytes_ofLowBytes (bytes : Bytes) :
    lowBytes bytes.length (ofLowBytes bytes) = bytes := by
  induction bytes with
  | nil => rfl
  | cons b bytes ih =>
    have hfirst : UInt8.ofNat (ofLowBytes (b :: bytes)) = b := by
      rw [← UInt8.toNat_inj, UInt8.toNat_ofNat']
      exact ofLowBytes_cons_mod b bytes
    rw [List.length_cons, lowBytes, hfirst, ofLowBytes_cons_div, ih]

/-- The first digits spell what is left of the number when the others are left out. -/
theorem ofLowBytes_take (count : Nat) (bytes : Bytes) :
    ofLowBytes (bytes.take count) = ofLowBytes bytes % 256 ^ count := by
  induction count generalizing bytes with
  | zero => rw [Nat.pow_zero, Nat.mod_one]; rfl
  | succ count ih =>
    cases bytes with
    | nil => exact (Nat.zero_mod _).symm
    | cons b bytes =>
      rw [List.take_succ_cons, mod_pow_succ, ofLowBytes_cons_mod, ofLowBytes_cons_div, ← ih]
      rfl

theorem ofLowBytes_lt (bytes : Bytes) : ofLowBytes bytes < 256 ^ bytes.length := by
  have hall := ofLowBytes_take bytes.length bytes
  rw [List.take_length] at hall
  rw [hall]
  exact Nat.mod_lt _ (Nat.pow_pos (by decide))

/-- Each digit is that of a quotient. -/
theorem getElem?_lowBytes {width i : Nat} (h : i < width) (n : Nat) :
    (lowBytes width n)[i]? = some (UInt8.ofNat (n / 256 ^ i)) := by
  induction width generalizing i n with
  | zero => exact absurd h (Nat.not_lt_zero i)
  | succ width ih =>
    cases i with
    | zero => rw [Nat.pow_zero, Nat.div_one]; rfl
    | succ i =>
      rw [lowBytes, List.getElem?_cons_succ, ih (Nat.lt_of_succ_lt_succ h), Nat.div_div_eq_div_mul,
        Nat.pow_succ, Nat.mul_comm]

/-- Digits that are left out do not matter. -/
theorem lowBytes_congr {width n m : Nat} (h : n % 256 ^ width = m % 256 ^ width) :
    lowBytes width n = lowBytes width m := by
  induction width generalizing n m with
  | zero => rfl
  | succ width ih =>
    rw [mod_pow_succ, mod_pow_succ] at h
    have hlow : n % 256 = m % 256 := by omega
    have hhigh : n / 256 % 256 ^ width = m / 256 % 256 ^ width := by omega
    show UInt8.ofNat n :: _ = UInt8.ofNat m :: _
    have hfirst : UInt8.ofNat n = UInt8.ofNat m := by
      rw [← UInt8.toNat_inj, UInt8.toNat_ofNat', UInt8.toNat_ofNat']
      exact hlow
    rw [hfirst, ih hhigh]

theorem two_pow_bits (width : Nat) : 2 ^ (8 * width) = 256 ^ width := by
  rw [Nat.pow_mul]

/-- An integer that is written and read keeps its low bytes. -/
theorem decode_encode (order : ByteOrder) (width : Nat) (v : UInt64) :
    order.decode (order.encode width v) = UInt64.ofNat (v.toNat % 2 ^ (8 * width)) := by
  rw [two_pow_bits, ← ofLowBytes_lowBytes]
  cases order with
  | littleEndian => rfl
  | bigEndian =>
    show UInt64.ofNat (ofLowBytes (lowBytes width v.toNat).reverse.reverse) = _
    rw [List.reverse_reverse]

/-- Only the low bytes of an integer are written. -/
theorem encode_congr (order : ByteOrder) {width : Nat} {v w : UInt64}
    (h : v.toNat % 2 ^ (8 * width) = w.toNat % 2 ^ (8 * width)) :
    order.encode width v = order.encode width w := by
  rw [two_pow_bits] at h
  cases order with
  | littleEndian => exact lowBytes_congr h
  | bigEndian => exact congrArg List.reverse (lowBytes_congr h)

end ByteOrder

end ScriptFuzz
