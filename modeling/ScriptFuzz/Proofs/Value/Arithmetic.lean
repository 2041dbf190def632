import Mathlib
import ScriptFuzz.Machine.Error

/-!
# The rules of arithmetic

What the operations do to any two values, said in numbers.

- `Value.IsZero`: the zeros, of which doubles have two. They are those that the test for a zero
  divisor finds (`Value.isZero_iff`).
- `Arith.onNumbers`: the operations on numbers, where a quotient goes toward zero.
- `Value.IntegerRule`: the rule for two integers. A sum, a difference or a product is that of their
  64-bit patterns modulo `2 ^ 64`, whatever the signs; a quotient is that of the patterns as
  unsigned numbers or as signed ones.
- `Value.MixedRule`: the rule for two values that are not both integers.
- `Value.arith_rule`: all values follow these rules.
-/

namespace ScriptFuzz

/-! ## The rules -/

/-- The kinds of integers. -/
def Kind.IsInteger (k : Kind) : Prop := k = .int ∨ k = .uint

/-- The kinds of numbers. -/
def Kind.IsNumeric (k : Kind) : Prop := k.IsInteger ∨ k = .float

/-- The operation on numbers; a quotient goes toward zero. -/
def Arith.onNumbers (op : Arith) (a b : Int) : Int :=
  match op with
  | add => a + b
  | sub => a - b
  | mul => a * b
  | div => a.tdiv b

namespace Value

/-- The number zero. There are two doubles for it, one of each sign. -/
def IsZero (v : Value) : Prop := v = int 0 ∨ v = uint 0 ∨ v = float 0.0 ∨ v = float (-0.0)

/-- A text goes together with numbers and texts, and bytes with bytes. -/
def Joins (left right : Value) : Prop :=
  left.kind = .text ∧ (right.kind.IsNumeric ∨ right.kind = .text) ∨
    left.kind = .bytes ∧ right.kind = .bytes

/-- The operation ends with an error of the given category. -/
def Fails (op : Arith) (left right : Value) (category : ExecError.Category) : Prop :=
  ∃ error, left.arith op right = .error error ∧ (ExecError.arith error).category = category

/-- The rule for two integers with the patterns `a` and `b`. -/
structure IntegerRule (op : Arith) (left right : Value) (a b : UInt64) : Prop where
  /-- A sum, a difference or a product is that of the patterns, modulo `2 ^ 64`. -/
  wraps : op ≠ .div → ∃ v c, left.arith op right = .ok v ∧ v.bits? = some c ∧
    (c.toNat : Int) = op.onNumbers a.toNat b.toNat % 2 ^ (64 : Nat)
  /-- A quotient fails exactly if the divisor is zero. -/
  zero : op = .div → (Fails op left right .runtime ↔ right.IsZero)
  /-- The quotient of two unsigned integers is that of the patterns as unsigned numbers. -/
  unsigned : op = .div → ¬right.IsZero → left.kind = .uint ∧ right.kind = .uint →
    ∃ c, left.arith op right = .ok (uint c) ∧ (c.toNat : Int) = op.onNumbers a.toNat b.toNat
  /-- If one of the integers is signed, then the quotient is that of the patterns as signed numbers.
  The least number divided by `-1` is the least number. -/
  signed : op = .div → ¬right.IsZero → left.kind = .int ∨ right.kind = .int →
    ∃ c, left.arith op right = .ok (int c) ∧ c.toInt =
      if a.toInt64 = .minValue ∧ b.toInt64 = -1 then Int64.minValue.toInt
      else op.onNumbers a.toInt64.toInt b.toInt64.toInt
  /-- A result is unsigned exactly if both integers are. -/
  kind : ∀ v, left.arith op right = .ok v →
    (v.kind = .uint ↔ left.kind = .uint ∧ right.kind = .uint)

/-- The rule for two values that are not both integers. -/
structure MixedRule (op : Arith) (left right : Value) : Prop where
  /-- No number is divided by zero. -/
  zero : op = .div → left.kind.IsNumeric → right.IsZero → Fails op left right .runtime
  /-- Any other result of numbers, one of which is a double, is a double. -/
  float : left.kind.IsNumeric → right.kind.IsNumeric → ¬(op = .div ∧ right.IsZero) →
    ∃ x, left.arith op right = .ok (float x)
  /-- A number is put into words behind a text, and a text as it is. -/
  text : op = .add → ∀ s, left = .text s → right.kind.IsNumeric ∨ right.kind = .text →
    left.arith op right = .ok (.text (s ++ right.render))
  /-- Bytes are put behind bytes. -/
  bytes : op = .add → ∀ s t, left = .bytes s → right = .bytes t →
    left.arith op right = .ok (.bytes (s ++ t))
  /-- All other values have no result. -/
  mismatch : ¬(left.kind.IsNumeric ∧ right.kind.IsNumeric) → ¬(op = .add ∧ left.Joins right) →
    Fails op left right .type

/-! ## Zeros -/

open Float.Model (UnpackedFloat)

/-- A double is determined by its bits. -/
theorem float_eq_of_toBits {x y : Float} (h : x.toModel.toBits = y.toModel.toBits) : x = y := by
  obtain ⟨⟨bits, hx⟩⟩ := x
  obtain ⟨⟨bits', hy⟩⟩ := y
  cases (show bits = bits' from h)
  rfl

theorem unpack_eq_zero_iff {x z : Float} {s : UnpackedFloat.Sign}
    (hz : z.toModel.toBits.toBitVec = UnpackedFloat.packedZero .binary64 s) :
    x.toModel.unpack = .zero s ↔ x = z := by
  show UnpackedFloat.unpack .binary64 x.toModel.toBits.toBitVec = _ ↔ _
  rw [UnpackedFloat.unpack_eq_zero_iff_of_valid x.toModel.valid, ← hz, UInt64.toBitVec_inj]
  exact ⟨float_eq_of_toBits, congrArg fun x : Float => x.toModel.toBits⟩

/-- Both zeros are equal to zero, and no other double is. -/
theorem float_beq_zero_iff (x : Float) : (x == 0.0) = true ↔ x = 0.0 ∨ x = -0.0 := by
  have hpos (y : Float) : y.toModel.unpack = .zero .positive ↔ y = 0.0 :=
    unpack_eq_zero_iff (by decide)
  have hneg (y : Float) : y.toModel.unpack = .zero .negative ↔ y = -0.0 :=
    unpack_eq_zero_iff (by decide)
  show UnpackedFloat.beq x.toModel.unpack (0.0 : Float).toModel.unpack = true ↔ _
  rw [UnpackedFloat.beq_iff_ne_notANumber_and_eq, (hpos 0.0).2 rfl, ← hpos, ← hneg]
  constructor
  · rintro ⟨-, -, h | ⟨-, h⟩ | ⟨h, -⟩⟩
    · exact .inl h
    · cases h
    · exact .inr h
  · rintro (h | h) <;> simp [h]

theorem isZero_iff (v : Value) : v.isZero = true ↔ v.IsZero := by
  cases v <;> simp [isZero, IsZero, float_beq_zero_iff]

/-! ## Integers -/

variable {op : Arith} {left right : Value} {a b : UInt64}

theorem isNumeric_iff (v : Value) : v.isNumeric = true ↔ v.kind.IsNumeric := by
  cases v <;> simp [isNumeric, kind, Kind.IsNumeric, Kind.IsInteger]

/-- A number divided by zero. -/
theorem fails_of_zero (hop : op = .div) (hleft : left.kind.IsNumeric) (hright : right.IsZero) :
    Fails op left right .runtime := by
  refine ⟨.divisionByZero, ?_, rfl⟩
  rw [arith, if_pos ⟨hop, (isNumeric_iff left).2 hleft, (isZero_iff right).2 hright⟩]

/-- What is not divided by zero is put together. -/
theorem arith_eq_combine (h : ¬(op = .div ∧ right.IsZero)) :
    left.arith op right = combine op left right := by
  rw [arith, if_neg]
  rintro ⟨hop, -, hzero⟩
  exact h ⟨hop, (isZero_iff right).1 hzero⟩

/-- An integer is its pattern, read with or without a sign. -/
theorem eq_of_bits {v : Value} (h : v.bits? = some a) : v = int a.toInt64 ∨ v = uint a := by
  cases v <;> cases h
  · exact .inl (congrArg int (Int64.toInt64_toUInt64 _).symm)
  · exact .inr rfl

/-- Of two unsigned integers the patterns are put together. -/
theorem combine_unsigned (ha : left.bits? = some a) (hb : right.bits? = some b)
    (h : left.kind = .uint ∧ right.kind = .uint) :
    combine op left right = .ok (uint (op.onUInts a b)) := by
  rcases eq_of_bits ha with rfl | rfl
  · cases h.1
  rcases eq_of_bits hb with rfl | rfl
  · cases h.2
  rfl

/-- If one of two integers is signed, then the patterns are put together as signed ones. -/
theorem combine_signed (ha : left.bits? = some a) (hb : right.bits? = some b)
    (h : ¬(left.kind = .uint ∧ right.kind = .uint)) :
    combine op left right = .ok (int (op.onInts a.toInt64 b.toInt64)) := by
  rcases eq_of_bits ha with rfl | rfl <;> rcases eq_of_bits hb with rfl | rfl
  · rfl
  · rfl
  · rfl
  · exact absurd ⟨rfl, rfl⟩ h

theorem toNat_onUInts (h : op ≠ .div) :
    ((op.onUInts a b).toNat : Int) = op.onNumbers a.toNat b.toNat % 2 ^ (64 : Nat) := by
  cases op with
  | add => simp [Arith.onUInts, Arith.onNumbers]
  | sub =>
    have hb := b.toNat_lt
    rw [Arith.onUInts, Arith.onNumbers, UInt64.toNat_sub]
    omega
  | mul => simp [Arith.onUInts, Arith.onNumbers]
  | div => exact absurd rfl h

/-- Signs do not matter to the pattern of a sum, a difference or a product. -/
theorem toUInt64_onInts (h : op ≠ .div) :
    (op.onInts a.toInt64 b.toInt64).toUInt64 = op.onUInts a b := by
  cases op with
  | add => exact Int64.toUInt64_add _ _
  | sub => exact Int64.toUInt64_sub _ _
  | mul => exact Int64.toUInt64_mul _ _
  | div => exact absurd rfl h

theorem toInt_div (x y : Int64) :
    (x / y).toInt =
      if x = .minValue ∧ y = -1 then Int64.minValue.toInt else x.toInt.tdiv y.toInt := by
  split
  · next h => rw [h.1, h.2]; decide
  · next h =>
    by_cases hx : x = .minValue
    · exact Int64.toInt_div_of_ne_right x y fun hy => h ⟨hx, hy⟩
    · exact Int64.toInt_div_of_ne_left x y hx

theorem exists_bits {v : Value} (h : v.kind.IsInteger) : ∃ a, v.bits? = some a := by
  cases v with
  | int n => exact ⟨n.toUInt64, rfl⟩
  | uint n => exact ⟨n, rfl⟩
  | undefined | float | text | bytes => rcases h with h | h <;> cases h

theorem isNumeric_of_bits {v : Value} (h : v.bits? = some a) : v.kind.IsNumeric := by
  rcases eq_of_bits h with rfl | rfl
  · exact .inl (.inl rfl)
  · exact .inl (.inr rfl)

/-- What two integers give that are not divided by zero. -/
theorem arith_cases (op : Arith) (ha : left.bits? = some a) (hb : right.bits? = some b)
    (hzero : ¬(op = .div ∧ right.IsZero)) :
    (left.kind = .uint ∧ right.kind = .uint) ∧ left.arith op right = .ok (uint (op.onUInts a b)) ∨
      (left.kind = .int ∨ right.kind = .int) ∧
        left.arith op right = .ok (int (op.onInts a.toInt64 b.toInt64)) := by
  rw [arith_eq_combine hzero]
  by_cases h : left.kind = .uint ∧ right.kind = .uint
  · exact .inl ⟨h, combine_unsigned ha hb h⟩
  · refine .inr ⟨?_, combine_signed ha hb h⟩
    rcases eq_of_bits ha with rfl | rfl
    · exact .inl rfl
    rcases eq_of_bits hb with rfl | rfl
    · exact .inr rfl
    · exact absurd ⟨rfl, rfl⟩ h

theorem integerRule (ha : left.bits? = some a) (hb : right.bits? = some b) :
    IntegerRule op left right a b where
  wraps hop := by
    rcases arith_cases op ha hb fun h => hop h.1 with ⟨-, h⟩ | ⟨-, h⟩
    · exact ⟨_, _, h, rfl, toNat_onUInts hop⟩
    · refine ⟨_, _, h, rfl, ?_⟩
      rw [toUInt64_onInts hop, toNat_onUInts hop]
  zero hop := by
    constructor
    · rintro ⟨error, herror, -⟩
      by_contra hzero
      rcases arith_cases op ha hb fun h => hzero h.2 with ⟨-, h⟩ | ⟨-, h⟩ <;>
        cases h.symm.trans herror
    · exact fails_of_zero hop (isNumeric_of_bits ha)
  unsigned hop hzero hkinds := by
    refine ⟨a / b, ?_, ?_⟩
    · rw [arith_eq_combine fun h => hzero h.2, combine_unsigned ha hb hkinds, hop]
      rfl
    · rw [hop, UInt64.toNat_div]
      exact (Int.ofNat_tdiv _ _).symm
  signed hop hzero hkinds := by
    rcases arith_cases op ha hb fun h => hzero h.2 with ⟨⟨hl, hr⟩, -⟩ | ⟨-, h⟩
    · rw [hl, hr] at hkinds
      rcases hkinds with h | h <;> cases h
    · refine ⟨_, h, ?_⟩
      subst hop
      exact toInt_div _ _
  kind v hv := by
    have hzero : ¬(op = .div ∧ right.IsZero) := by
      rintro ⟨hop, hzero⟩
      obtain ⟨error, herror, -⟩ := fails_of_zero hop (isNumeric_of_bits ha) hzero
      cases herror.symm.trans hv
    rcases arith_cases op ha hb hzero with ⟨⟨hl, hr⟩, h⟩ | ⟨hsigned, h⟩ <;> cases h.symm.trans hv
    · exact ⟨fun _ => ⟨hl, hr⟩, fun _ => rfl⟩
    · refine ⟨fun h => Kind.noConfusion h, fun h => ?_⟩
      rw [h.1, h.2] at hsigned
      rcases hsigned with h | h <;> cases h

/-! ## Other values -/

theorem exists_toFloat_iff (v : Value) : (∃ x, v.toFloat? = some x) ↔ v.kind.IsNumeric := by
  cases v <;> simp [toFloat?, kind, Kind.IsNumeric, Kind.IsInteger]

/-- Two numbers, one of which is a double, are put together as doubles. -/
theorem combine_float (hleft : left.kind.IsNumeric) (hright : right.kind.IsNumeric)
    (h : ¬(left.kind.IsInteger ∧ right.kind.IsInteger)) :
    ∃ x, combine op left right = .ok (float x) := by
  obtain ⟨a, ha⟩ := (exists_toFloat_iff left).2 hleft
  obtain ⟨b, hb⟩ := (exists_toFloat_iff right).2 hright
  refine ⟨op.onFloats a b, ?_⟩
  unfold combine
  split
  · exact absurd ⟨.inl rfl, .inl rfl⟩ h
  · exact absurd ⟨.inl rfl, .inr rfl⟩ h
  · exact absurd ⟨.inr rfl, .inl rfl⟩ h
  · exact absurd ⟨.inr rfl, .inr rfl⟩ h
  · rw [ha, hb]

/-- A value that is no number has no result but where it joins the other. -/
theorem combine_mismatch (hnumeric : ¬(left.kind.IsNumeric ∧ right.kind.IsNumeric))
    (hjoins : ¬(op = .add ∧ left.Joins right)) :
    combine op left right = .error (.mismatch op left.kind right.kind) := by
  unfold combine
  split
  · exact absurd ⟨.inl (.inl rfl), .inl (.inl rfl)⟩ hnumeric
  · exact absurd ⟨.inl (.inl rfl), .inl (.inr rfl)⟩ hnumeric
  · exact absurd ⟨.inl (.inr rfl), .inl (.inl rfl)⟩ hnumeric
  · exact absurd ⟨.inl (.inr rfl), .inl (.inr rfl)⟩ hnumeric
  -- both are read as doubles, or one is no number
  split
  · next a b ha hb =>
    exact absurd ⟨(exists_toFloat_iff _).1 ⟨a, ha⟩, (exists_toFloat_iff _).1 ⟨b, hb⟩⟩ hnumeric
  split
  · exact absurd ⟨rfl, .inl ⟨rfl, .inr rfl⟩⟩ hjoins
  · exact absurd ⟨rfl, .inr ⟨rfl, rfl⟩⟩ hjoins
  · split
    · next hright =>
      exact absurd ⟨rfl, .inl ⟨rfl, .inl ((isNumeric_iff _).1 hright)⟩⟩ hjoins
    · rfl
  · rfl

theorem combine_text (s : String) (h : right.kind.IsNumeric ∨ right.kind = .text) :
    combine .add (.text s) right = .ok (.text (s ++ right.render)) := by
  cases right with
  | int | uint | float | text => rfl
  | undefined | bytes => rcases h with ((h | h) | h) | h <;> cases h

theorem mixedRule (h : ¬(left.kind.IsInteger ∧ right.kind.IsInteger)) :
    MixedRule op left right where
  zero hop hleft hright := fails_of_zero hop hleft hright
  float hleft hright hzero := by
    rw [arith_eq_combine hzero]
    exact combine_float hleft hright h
  text hop s hs hright := by
    subst hop hs
    rw [arith_eq_combine fun h => Arith.noConfusion h.1]
    exact combine_text s hright
  bytes hop s t hs ht := by
    subst hop hs ht
    rfl
  mismatch hnumeric hjoins := by
    refine ⟨.mismatch op left.kind right.kind, ?_, rfl⟩
    rw [arith, if_neg, combine_mismatch hnumeric hjoins]
    rintro ⟨-, hleft, hzero⟩
    have hright : right.isNumeric = true := by
      rcases (isZero_iff right).1 hzero with rfl | rfl | rfl | rfl <;> rfl
    exact hnumeric ⟨(isNumeric_iff left).1 hleft, (isNumeric_iff right).1 hright⟩

/-- Two integers have a pattern each, and follow the rule for integers; any other two values follow
the other rule. So all pairs of values have a result or fail as these rules say. -/
theorem arith_rule (op : Arith) (left right : Value) :
    (left.kind.IsInteger ∧ right.kind.IsInteger →
      ∃ a b, left.bits? = some a ∧ right.bits? = some b ∧ IntegerRule op left right a b) ∧
    (¬(left.kind.IsInteger ∧ right.kind.IsInteger) → MixedRule op left right) := by
  refine ⟨fun ⟨hleft, hright⟩ => ?_, mixedRule⟩
  obtain ⟨a, ha⟩ := exists_bits hleft
  obtain ⟨b, hb⟩ := exists_bits hright
  exact ⟨a, b, ha, hb, integerRule ha hb⟩

/-- The least number divided by the largest unsigned one, whose pattern is that of `-1`, is the
least number; and there is no division by the negative zero. -/
theorem arith_rule_limits :
    (∃ c, (int .minValue).arith .div (uint (-1)) = .ok (int c) ∧ c.toInt = -2 ^ (63 : Nat)) ∧
      Fails .div (int 1) (float (-0.0)) .runtime := by
  constructor
  · obtain ⟨a, b, ha, hb, h⟩ := (arith_rule .div (int .minValue) (uint (-1))).1
      ⟨.inl rfl, .inr rfl⟩
    have hzero : ¬(uint (-1)).IsZero := by rw [← isZero_iff]; decide
    obtain ⟨c, hc, hvalue⟩ := h.signed rfl hzero (.inl rfl)
    cases ha
    cases hb
    exact ⟨c, hc, hvalue.trans (by decide)⟩
  · have hmixed := (arith_rule .div (int 1) (float (-0.0))).2 fun h => by
      rcases h.2 with h | h <;> cases h
    exact hmixed.zero rfl (.inl (.inl rfl)) (.inr (.inr (.inr rfl)))

end Value

end ScriptFuzz
