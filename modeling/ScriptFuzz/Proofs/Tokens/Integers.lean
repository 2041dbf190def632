import Mathlib.Data.List.Forall2
import Mathlib.Data.Nat.Digits.Defs
import Mathlib.Tactic.Ring
import ScriptFuzz.Bytes.Order
import ScriptFuzz.Proofs.Tokens.Readings

/-!
# Integer literals

What an integer literal is read as, against the number that its digits spell.

- `IsDigit`, `Spells`: digits of a base and the numbers that they spell.
- `Lexer.ReadsNumber`: a literal is read rightly: as its number, or as malformed if the number does
  not fit in 64 bits.
- `integer_literals_read`: decimal literals are read rightly. A hexadecimal literal is read rightly
  unless its number fits and it has more than sixteen digits, as it does with leading zeros.
-/

namespace ScriptFuzz

/-! ## Digits -/

/-- A character is the digit `d` of a base; letters may be small or capital ones. -/
def IsDigit (base : Nat) (c : Char) (d : Nat) : Prop := d < base ∧ c.toLower = d.digitChar

/-- Digits of a base, the highest one first, spell a number. -/
def Spells (base : Nat) (digits : List Char) (n : Nat) : Prop :=
  ∃ ds, List.Forall₂ (IsDigit base) digits ds ∧ n = Nat.ofDigits base ds.reverse

namespace Scan

variable {base : Nat} {c : Char} {d : Nat} {digits cs more : List Char} {ds : List Nat}

theorem isHexDigit_iff : isHexDigit c ↔ ∃ d, IsDigit 16 c d := by
  constructor
  · intro h
    have hle : c.toNat ≤ 102 := by
      rw [isHexDigit, Bool.or_eq_true, Bool.or_eq_true, Bool.and_eq_true, Bool.and_eq_true] at h
      rcases h with (h | ⟨-, h⟩) | ⟨-, h⟩
      · have hdigit := toNat_of_isDigit h
        omega
      · exact of_decide_eq_true h
      · have hcapital : c.toNat ≤ 70 := of_decide_eq_true h
        omega
    exact of_code_lt (P := fun c => isHexDigit c → ∃ d < 16, c.toLower = d.digitChar) (b := 103)
      (by decide) (by omega) h
  · rintro ⟨d, hd, hc⟩
    exact (hexDigit_of_toLower hd hc).1

theorem isDigit_iff : c.isDigit ↔ ∃ d, IsDigit 10 c d := by
  constructor
  · intro h
    have hrange := toNat_of_isDigit h
    exact of_code_lt (P := fun c => c.isDigit → ∃ d < 10, c.toLower = d.digitChar) (b := 58)
      (by decide) (by omega) h
  · rintro ⟨d, hd, hc⟩
    have hall : ∀ d < 10, d.digitChar.isDigit ∧ d.digitChar.toUpper.isDigit := by decide
    obtain ⟨hlower, hupper⟩ := hall d hd
    rcases toLower_cases c with hlow | hlow
    · rwa [← hlow, hc]
    · rwa [← hlow, hc]

/-- Only a zero is the digit zero. -/
theorem eq_zero_of_isDigit (h : IsDigit base c 0) : c = '0' := by
  rcases toLower_cases c with hlow | hlow
  · exact hlow.symm.trans h.2
  · rw [← hlow, h.2]
    decide

theorem digitsValue_of_digits (hbase : base ≤ 16) (h : List.Forall₂ (IsDigit base) digits ds)
    (start : Nat) :
    digitsValue base start digits =
      base ^ digits.length * start + Nat.ofDigits base ds.reverse := by
  induction h generalizing start with
  | nil => simp [digitsValue]
  | @cons c d digits ds hc h ih =>
    have hvalue : digitValue c = d :=
      (hexDigit_of_toLower (Nat.lt_of_lt_of_le hc.1 hbase) hc.2).2
    calc digitsValue base start (c :: digits)
        = digitsValue base (base * start + d) digits := by rw [← hvalue]; rfl
      _ = base ^ digits.length * (base * start + d) + Nat.ofDigits base ds.reverse := ih _
      _ = base ^ (digits.length + 1) * start +
            (Nat.ofDigits base ds.reverse + base ^ ds.length * d) := by rw [h.length_eq]; ring
      _ = _ := by rw [Nat.ofDigits_reverse_cons, List.length_cons]

end Scan

namespace Spells

variable {base n : Nat} {c : Char} {digits : List Char}

theorem isDigit (h : Spells base digits n) : ∀ c ∈ digits, ∃ d, IsDigit base c d := by
  obtain ⟨ds, hds, -⟩ := h
  induction hds with
  | nil => exact fun c hc => absurd hc List.not_mem_nil
  | cons hc _ ih => exact List.forall_mem_cons.2 ⟨⟨_, hc⟩, ih⟩

/-- The value that is computed from digits is the number that they spell. -/
theorem value (h : Spells base digits n) (hbase : base ≤ 16) :
    Scan.digitsValue base 0 digits = n := by
  obtain ⟨ds, hds, rfl⟩ := h
  rw [Scan.digitsValue_of_digits hbase hds, Nat.mul_zero, Nat.zero_add]

theorem lt_pow (h : Spells base digits n) (hbase : 1 < base) : n < base ^ digits.length := by
  obtain ⟨ds, hds, rfl⟩ := h
  have hlt : ∀ d ∈ ds.reverse, d < base := by
    intro d hd
    rw [List.mem_reverse] at hd
    obtain ⟨i, hi, rfl⟩ := List.mem_iff_getElem.1 hd
    exact (hds.get (hds.length_eq ▸ hi) hi).1
  rw [hds.length_eq, ← List.length_reverse]
  exact Nat.ofDigits_lt_base_pow_length hbase hlt

/-- Digits without a leading zero spell a large number. -/
theorem pow_le (h : Spells base (c :: digits) n) (hc : c ≠ '0') : base ^ digits.length ≤ n := by
  obtain ⟨ds, hds, rfl⟩ := h
  cases hds with
  | @cons _ d _ ds hd hds =>
    have hpos : 0 < d := by
      refine Nat.pos_of_ne_zero ?_
      rintro rfl
      exact hc (Scan.eq_zero_of_isDigit hd)
    rw [Nat.ofDigits_reverse_cons, hds.length_eq]
    exact Nat.le_add_left_of_le (Nat.le_mul_of_pos_right _ hpos)

/-- Without a leading zero, more than sixteen hexadecimal digits spell a number that does not fit in
64 bits. -/
theorem short_or_large (h : Spells 16 digits n) (hne : digits ≠ [])
    (hzero : digits.head? ≠ some '0') : digits.length ≤ 16 ∨ 2 ^ (64 : Nat) ≤ n := by
  obtain ⟨d, digits, rfl⟩ := List.exists_cons_of_ne_nil hne
  rcases Nat.lt_or_ge 16 (d :: digits).length with hlength | hlength
  · rw [List.length_cons] at hlength
    refine .inr ?_
    calc 2 ^ (64 : Nat) = 16 ^ (16 : Nat) := by decide
      _ ≤ 16 ^ digits.length := Nat.pow_le_pow_right (by decide) (Nat.le_of_lt_succ hlength)
      _ ≤ n := h.pow_le (fun hd => hzero (congrArg some hd))
  · exact .inl hlength

end Spells

namespace Scan

variable {cs : List Char}

/-! ## Numbers that are too large -/

/-- Decimal digits are read up to the one that makes the number too large. -/
theorem decimal_overflow {start : Nat} (h : ∀ c ∈ cs, c.isDigit) (hstart : start < 2 ^ (64 : Nat))
    (hvalue : 2 ^ (64 : Nat) ≤ digitsValue 10 start cs) (more : List Char) :
    ∃ left, ∀ p, (decimal start p (cs ++ more)).lexeme = .malformed .decimalTooLarge ∧
      (decimal start p (cs ++ more)).rest = left := by
  induction cs generalizing start with
  | nil => exact absurd hstart (Nat.not_lt.2 hvalue)
  | cons c cs ih =>
    obtain ⟨hc, h⟩ := List.forall_mem_cons.1 h
    have hread (p : Position) : decimal start p (c :: cs ++ more) =
        if 10 * start + digitValue c < 2 ^ (64 : Nat) then
          decimal (10 * start + digitValue c) (p.after c) (cs ++ more)
        else ⟨.malformed .decimalTooLarge, p.after c, cs ++ more⟩ := by
      rw [List.cons_append, decimal, if_pos hc]
    by_cases hlt : 10 * start + digitValue c < 2 ^ (64 : Nat)
    · obtain ⟨left, hleft⟩ := ih h hlt hvalue
      refine ⟨left, fun p => ?_⟩
      rw [hread, if_pos hlt]
      exact hleft _
    · refine ⟨cs ++ more, fun p => ?_⟩
      rw [hread, if_neg hlt]
      exact ⟨rfl, rfl⟩

/-- Hexadecimal digits are read up to the seventeenth one. -/
theorem hexadecimal_overflow {count : Nat} (start : Nat) (h : ∀ c ∈ cs, isHexDigit c)
    (hcount : count ≤ 16) (hlong : 16 < count + cs.length) (more : List Char) :
    ∃ left, ∀ p, (hexadecimal count start p (cs ++ more)).lexeme = .malformed .hexTooLong ∧
      (hexadecimal count start p (cs ++ more)).rest = left := by
  induction cs generalizing count start with
  | nil => exact absurd hcount (Nat.not_le.2 hlong)
  | cons c cs ih =>
    obtain ⟨hc, h⟩ := List.forall_mem_cons.1 h
    rw [List.length_cons] at hlong
    have hread (p : Position) : hexadecimal count start p (c :: cs ++ more) =
        if count < 16 then
          hexadecimal (count + 1) (16 * start + digitValue c) (p.after c) (cs ++ more)
        else ⟨.malformed .hexTooLong, p.after c, cs ++ more⟩ := by
      rw [List.cons_append, hexadecimal, if_pos hc]
    by_cases hlt : count < 16
    · obtain ⟨left, hleft⟩ := ih (16 * start + digitValue c) h hlt (by omega)
      refine ⟨left, fun p => ?_⟩
      rw [hread, if_pos hlt]
      exact hleft _
    · refine ⟨cs ++ more, fun p => ?_⟩
      rw [hread, if_neg hlt]
      exact ⟨rfl, rfl⟩

end Scan

/-! ## Literals -/

namespace Lexer

variable {lexer : Lexer} {c : Call} {word word' more more' : List Char} {l l' : Lexeme}

/-- A call returns one token. -/
theorem Reads.lexeme_eq (h : lexer.Reads c word more l) (h' : lexer.Reads c word' more' l') :
    l = l' := by
  obtain ⟨name, hreading, -⟩ := h.reading
  obtain ⟨name', hreading', -⟩ := h'.reading
  cases hreading.symm.trans hreading'
  rfl

/-- A literal of the number `n` is read rightly: all of it as an integer with this value if the
number fits in 64 bits, and as something malformed if it does not. -/
def ReadsNumber (lexer : Lexer) (c : Call) (word more : List Char) (n : Nat) : Prop :=
  (n < 2 ^ (64 : Nat) → ∃ v : UInt64, v.toNat = n ∧ lexer.Reads c word more (.integer v)) ∧
    (2 ^ (64 : Nat) ≤ n → ∃ read left fault, lexer.Reads c read left (.malformed fault))

theorem readsNumber_of_lt {n : Nat} (hn : n < 2 ^ (64 : Nat))
    (h : lexer.Reads c word more (.integer (.ofNat n))) : lexer.ReadsNumber c word more n :=
  ⟨fun _ => ⟨.ofNat n, UInt64.toNat_ofNat_of_lt hn, h⟩, fun hle => absurd hn (Nat.not_lt.2 hle)⟩

end Lexer

open Scan

variable {lexer : Lexer} {x : Char} {digits more : List Char} {n : Nat}

/-- A decimal literal is read rightly. -/
theorem readsNumber_decimal (hne : digits ≠ []) (hn : Spells 10 digits n)
    (hmore : ∀ c ∈ more.head?, (¬∃ d, IsDigit 10 c d) ∧ c ≠ '.')
    (hplain : ∀ x rest, digits ++ more = '0' :: x :: rest → x ≠ 'x' ∧ x ≠ 'X')
    (hahead : lexer.ahead = none) (htext : lexer.rest = digits ++ more) (c : Lexer.Call) :
    lexer.ReadsNumber c digits more n := by
  have hvalue := hn.value (by decide)
  subst hvalue
  have hdigits : ∀ c ∈ digits, c.isDigit := fun c hc => isDigit_iff.2 (hn.isDigit c hc)
  have hend : ∀ c ∈ more.head?, c.isDigit = false ∧ c ≠ '.' := by
    intro c hc
    exact ⟨Bool.eq_false_iff.2 (mt isDigit_iff.1 (hmore c hc).1), (hmore c hc).2⟩
  obtain ⟨d, digits, rfl⟩ := List.exists_cons_of_ne_nil hne
  have hdigit : d.isDigit := hdigits d List.mem_cons_self
  rcases Nat.lt_or_ge (digitsValue 10 0 (d :: digits)) (2 ^ (64 : Nat)) with hlt | hge
  · have hread := decimal_append hdigits hlt hend
    refine Lexer.readsNumber_of_lt hlt (Lexer.reads_of_starts_append hahead htext ?_ c)
    refine starts_number hdigit fun p => ?_
    exact number_eq_decimal hplain p ▸ hread p
  · obtain ⟨left, hread⟩ := decimal_overflow hdigits (by decide) hge more
    have hstarts : Starts (d :: digits ++ more) (.malformed .decimalTooLarge) left := by
      refine starts_number hdigit fun p => ?_
      exact number_eq_decimal hplain p ▸ hread p
    obtain ⟨read, hreads⟩ := Lexer.reads_of_starts hahead htext hstarts c
    exact ⟨fun hlt => absurd hlt (Nat.not_lt.2 hge), fun _ => ⟨read, left, _, hreads⟩⟩

/-- A hexadecimal literal begins with a zero and an `x`, small or capital. -/
theorem number_hexadecimal (hx : x = 'x' ∨ x = 'X') (p : Position) (cs : List Char) :
    number p ('0' :: x :: cs) = hexadecimal 0 0 ((p.after '0').after x) cs := by
  rcases hx with rfl | rfl <;> rfl

/-- Up to sixteen hexadecimal digits are read as the number that they spell. -/
theorem reads_hexadecimal (hx : x = 'x' ∨ x = 'X') (hne : digits ≠ []) (hn : Spells 16 digits n)
    (hmore : ∀ c ∈ more.head?, ¬∃ d, IsDigit 16 c d) (hahead : lexer.ahead = none)
    (htext : lexer.rest = '0' :: x :: digits ++ more) (hlength : digits.length ≤ 16)
    (c : Lexer.Call) : lexer.Reads c ('0' :: x :: digits) more (.integer (.ofNat n)) := by
  have hhex : ∀ c ∈ digits, isHexDigit c := fun c hc => isHexDigit_iff.2 (hn.isDigit c hc)
  have hend : ∀ c ∈ more.head?, isHexDigit c = false := by
    intro c hc
    exact Bool.eq_false_iff.2 (mt isHexDigit_iff.1 (hmore c hc))
  have hcount : 0 + digits.length ≤ 16 := by rwa [Nat.zero_add]
  have hpos : 0 < 0 + digits.length := by
    rw [Nat.zero_add]
    exact List.length_pos_iff.2 hne
  have hread := hexadecimal_append 0 hhex hcount hpos hend
  rw [hn.value (by decide)] at hread
  refine Lexer.reads_of_starts_append hahead htext ?_ c
  refine starts_number (by decide) fun p => ?_
  rw [List.append_eq, List.cons_append, number_hexadecimal hx]
  exact hread _

/-- More than sixteen hexadecimal digits are malformed, whatever they spell. -/
theorem reads_hexadecimal_long (hx : x = 'x' ∨ x = 'X') (hn : Spells 16 digits n)
    (hahead : lexer.ahead = none) (htext : lexer.rest = '0' :: x :: digits ++ more)
    (hlength : 16 < digits.length) (c : Lexer.Call) :
    ∃ read left, lexer.Reads c read left (.malformed .hexTooLong) := by
  have hhex : ∀ c ∈ digits, isHexDigit c := fun c hc => isHexDigit_iff.2 (hn.isDigit c hc)
  have hlong : 16 < 0 + digits.length := by rwa [Nat.zero_add]
  obtain ⟨left, hread⟩ := hexadecimal_overflow 0 hhex (by decide) hlong more
  have hstarts : Starts ('0' :: x :: digits ++ more) (.malformed .hexTooLong) left := by
    refine starts_number (by decide) fun p => ?_
    rw [List.append_eq, List.cons_append, number_hexadecimal hx]
    exact hread _
  obtain ⟨read, hreads⟩ := Lexer.reads_of_starts hahead htext hstarts c
  exact ⟨read, left, hreads⟩

/-- A hexadecimal literal is read rightly exactly if it has at most sixteen digits or a number that
does not fit in 64 bits. -/
theorem readsNumber_hexadecimal (hx : x = 'x' ∨ x = 'X') (hne : digits ≠ [])
    (hn : Spells 16 digits n) (hmore : ∀ c ∈ more.head?, ¬∃ d, IsDigit 16 c d)
    (hahead : lexer.ahead = none) (htext : lexer.rest = '0' :: x :: digits ++ more)
    (c : Lexer.Call) :
    lexer.ReadsNumber c ('0' :: x :: digits) more n ↔ digits.length ≤ 16 ∨ 2 ^ (64 : Nat) ≤ n := by
  rcases Nat.lt_or_ge 16 digits.length with hlength | hlength
  · obtain ⟨read, left, hmalformed⟩ := reads_hexadecimal_long hx hn hahead htext hlength c
    constructor
    · intro hread
      refine .inr (Nat.le_of_not_lt fun hlt => ?_)
      obtain ⟨v, -, hinteger⟩ := hread.1 hlt
      cases hinteger.lexeme_eq hmalformed
    · rintro (h | hge)
      · exact absurd hlength (Nat.not_lt.2 h)
      · exact ⟨fun hlt => absurd hlt (Nat.not_lt.2 hge), fun _ => ⟨read, left, _, hmalformed⟩⟩
  · have hlt : n < 2 ^ (64 : Nat) := calc
      n < 16 ^ digits.length := hn.lt_pow (by decide)
      _ ≤ 16 ^ (16 : Nat) := Nat.pow_le_pow_right (by decide) hlength
      _ = 2 ^ (64 : Nat) := by decide
    have hread := reads_hexadecimal hx hne hn hmore hahead htext hlength c
    exact ⟨fun _ => .inl hlength, fun _ => Lexer.readsNumber_of_lt hlt hread⟩

/-- A decimal literal is read rightly, with any leading zeros: a non-empty run of decimal digits
that neither a digit nor a point follows and that does not begin like a hexadecimal literal. A
hexadecimal literal, which no hexadecimal digit follows, is read rightly exactly if it has at most
sixteen digits or a number that does not fit in 64 bits. So it is if it has no leading zero; with
more than sixteen digits it is always malformed. -/
theorem integer_literals_read (hahead : lexer.ahead = none) (c : Lexer.Call) (hne : digits ≠ [])
    (more : List Char) (n : Nat) :
    (Spells 10 digits n → (∀ c ∈ more.head?, (¬∃ d, IsDigit 10 c d) ∧ c ≠ '.') →
      (∀ x rest, digits ++ more = '0' :: x :: rest → x ≠ 'x' ∧ x ≠ 'X') →
      lexer.rest = digits ++ more → lexer.ReadsNumber c digits more n) ∧
    ∀ x : Char, x = 'x' ∨ x = 'X' → Spells 16 digits n →
      (∀ c ∈ more.head?, ¬∃ d, IsDigit 16 c d) → lexer.rest = '0' :: x :: digits ++ more →
      (lexer.ReadsNumber c ('0' :: x :: digits) more n ↔ digits.length ≤ 16 ∨ 2 ^ (64 : Nat) ≤ n) ∧
      (digits.head? ≠ some '0' → lexer.ReadsNumber c ('0' :: x :: digits) more n) ∧
      (16 < digits.length → ∃ read left, lexer.Reads c read left (.malformed .hexTooLong)) := by
  refine ⟨?_, ?_⟩
  · intro hn hmore hplain htext
    exact readsNumber_decimal hne hn hmore hplain hahead htext c
  · intro x hx hn hmore htext
    have hright := readsNumber_hexadecimal hx hne hn hmore hahead htext c
    refine ⟨hright, ?_, ?_⟩
    · intro hzero
      exact hright.2 (hn.short_or_large hne hzero)
    · intro hlength
      exact reads_hexadecimal_long hx hn hahead htext hlength c

/-- A decimal literal with leading zeros and a hexadecimal one in both cases are read rightly. -/
theorem integer_literals_read_cases :
    (Lexer.ofSource "007;").ReadsNumber .get ['0', '0', '7'] [';'] 7 ∧
      (Lexer.ofSource "0XfF)").ReadsNumber .peek ['0', 'X', 'f', 'F'] [')'] 255 := by
  constructor
  · refine (integer_literals_read rfl .get (by decide) [';'] 7).1 ?_ ?_ ?_ rfl
    · refine ⟨[0, 0, 7], ?_, rfl⟩
      simp [IsDigit]
    · simp [← isDigit_iff]
    · simp
  · refine ((integer_literals_read rfl .peek (by decide) [')'] 255).2 'X' (.inr rfl) ?_ ?_
      rfl).2.1 (by decide)
    · refine ⟨[15, 15], ?_, rfl⟩
      simp [IsDigit]
    · simp [← isHexDigit_iff, isHexDigit]

/-- With sixteen leading zeros, a one is not read, though it fits in 64 bits. -/
theorem not_readsNumber_leading_zeros :
    Spells 16 (List.replicate 16 '0' ++ ['1']) 1 ∧
      ¬(Lexer.ofSource "0x00000000000000001").ReadsNumber .get
        ('0' :: 'x' :: (List.replicate 16 '0' ++ ['1'])) [] 1 := by
  have hspells : Spells 16 (List.replicate 16 '0' ++ ['1']) 1 := by
    refine ⟨List.replicate 16 0 ++ [1], ?_, rfl⟩
    simp [IsDigit, List.replicate]
  refine ⟨hspells, ?_⟩
  intro hread
  obtain ⟨v, -, hinteger⟩ := hread.1 (by decide)
  obtain ⟨read, left, hmalformed⟩ :=
    reads_hexadecimal_long (.inl rfl) hspells rfl hinteger.text (by decide) .get
  cases hinteger.lexeme_eq hmalformed

end ScriptFuzz
