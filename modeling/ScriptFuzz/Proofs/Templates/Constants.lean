import Mathlib.Data.Nat.Digits.Defs
import ScriptFuzz.Proofs.Layouts.ReadBack
import ScriptFuzz.Proofs.Templates.Origins

/-!
# Constants on the wire

From the digits of a constant to its bytes: which integers are read for a type, and what is written
for them.

- `WireType.Allows`: the integers of a type, by the number of its bytes.
- `ByteOrder.number`, `WireType.valueOf`: the numbers that bytes spell, unsigned and in two's
  complement.
- `Expr.constantBytes`: what is written for a constant.
- `Lowering.Extends`: lowering keeps the mutators that are there.
- `ConstantRule`, `constantRule`: what a constant is read as, and what is written for it outside and
  inside of a fuzzed sequence.
-/

namespace ScriptFuzz

open Source Cursor ParseResult

/-! ## Ranges -/

/-- The integers of a type. A literal of an unsigned type has no minus sign, not even before a zero.
-/
def WireType.Allows (t : WireType) (negative : Bool) (n : Int) : Prop :=
  if t.signed then -2 ^ (8 * t.width.bytes - 1) ≤ n ∧ n ≤ 2 ^ (8 * t.width.bytes - 1) - 1
  else negative = false ∧ 0 ≤ n ∧ n ≤ 2 ^ (8 * t.width.bytes) - 1

namespace Expr

/-- The integer that digits stand for, with or without a minus sign. -/
def literalValue (negative : Bool) (v : UInt64) : Int := if negative then -v.toNat else v.toNat

/-- The lexemes of an integer. -/
def literal (negative : Bool) (v : UInt64) : List Lexeme :=
  if negative then [.mark .minus, .integer v] else [.integer v]

/-- The lexemes of a constant. -/
def constantLexemes (t : WireType) (negative : Bool) (v : UInt64) : List Lexeme :=
  .keyword (.wire t) :: .mark .openParen :: literal negative v ++ [.mark .closeParen]

/-- A constant in decimal digits. -/
def constantText (t : WireType) (negative : Bool) (v : UInt64) : String :=
  t.name ++ "(" ++ (if negative then "-" else "") ++ toString v.toNat ++ ")"

/-- No character behind a parenthesis or a minus sign changes how that is read. -/
theorem joins_of_mem {m : Mark} (hm : m ∈ [Mark.openParen, .closeParen, .minus]) (c : Char) :
    m.joins c = false := by
  simp only [List.mem_cons, List.not_mem_nil, or_false] at hm
  rcases hm with rfl | rfl | rfl <;> simp [Mark.joins, Mark.ofSpelling?, Mark.all, Mark.spelling]

theorem printed_literal (negative : Bool) (v : UInt64) {rest : List Char} {ls : List Lexeme}
    (hrest : ∀ c ∈ rest.head?, decimalJoins v c = false) (h : Printed rest ls) :
    Printed ((if negative then "-" else "").toList ++ (toString v.toNat).toList ++ rest)
      (literal negative v ++ ls) := by
  have hdigits : (toString v.toNat).toList = Nat.toDigits 10 v.toNat := by simp
  have hnumber : Printed (Nat.toDigits 10 v.toNat ++ rest) (.integer v :: ls) :=
    .cons .nil (.decimal v) hrest h
  rw [hdigits]
  cases negative with
  | false => exact hnumber
  | true =>
    have hminus := Printed.cons .nil (.mark .minus) (fun c _ => joins_of_mem (by simp) c) hnumber
    simpa [literal, Mark.spelling] using hminus

/-- The text of a constant is read as its lexemes. -/
theorem lexemes_constantText (t : WireType) (negative : Bool) (v : UInt64) :
    lexemes (constantText t negative v) = constantLexemes t negative v := by
  have hclose : Printed [')'] [.mark .closeParen] :=
    .cons .nil (.mark .closeParen) (fun c hc => by cases hc) (.nil .nil)
  have hliteral := printed_literal negative v (by rintro c ⟨⟩; simp [decimalJoins]) hclose
  have hopen := Printed.cons .nil (.mark .openParen) (fun c _ => joins_of_mem (by simp) c) hliteral
  have hname := Printed.cons .nil (.keyword (.wire t)) (by rintro c ⟨⟩; decide) hopen
  have htext : (constantText t negative v).toList = [] ++ (Keyword.wire t).spelling.toList ++
      ([] ++ Mark.openParen.spelling ++
        ((if negative then "-" else "").toList ++ (toString v.toNat).toList ++ [')'])) := by
    simp [constantText, Mark.spelling, Keyword.spelling, String.toList_append]
  refine lexemes_of_printed ?_
  rw [htext]
  exact hname

variable {t : WireType} {negative : Bool} {v : UInt64}

/-- A literal is in the range of its type if it passes the check of its magnitude. -/
theorem allows_iff : t.Allows negative (literalValue negative v) ↔
    match negative with
    | false => (v.toNat : Int) ≤ t.greatest
    | true => t.signed ∧ t.least ≤ -(v.toNat : Int) := by
  obtain ⟨w, signed⟩ := t
  cases negative <;> cases signed <;> cases w <;>
    simp [WireType.Allows, literalValue, WireType.greatest, WireType.least, WireType.signedMax,
      WireType.signedMin, Width.bits, Width.bytes, Width.max]

theorem valueWritten (h : t.Allows negative (literalValue negative v)) :
    ValueWritten t (literal negative v) (literalValue negative v) := by
  rw [allows_iff] at h
  cases negative with
  | false => exact .plain v
  | true => exact .minus h.1 v

theorem holds_of_allows {n : Int} (h : t.Allows negative n) : t.Holds n := by
  obtain ⟨w, signed⟩ := t
  cases signed with
  | false =>
    obtain ⟨-, hlow, hhigh⟩ := h
    exact ⟨hlow, by cases w <;> exact hhigh⟩
  | true => exact h

/-! ## Reading -/

variable {c : Cursor} {rs : List Lexeme}

/-- A literal out of the range of its type is refused. -/
theorem constantValue_of_not_allows (fin : Position)
    (h : ¬t.Allows negative (literalValue negative v)) (hc : c.lexemes = literal negative v ++ rs) :
    ∃ pos after, constantValue fin t c =
      .stopped (.semantic pos (.constantTooLarge negative v t)) after := by
  rw [allows_iff] at h
  cases negative with
  | false =>
    obtain ⟨tok, after, s, htake, hl, -⟩ := take_of_lexemes fin hc
    refine ⟨tok.pos, after, ?_⟩
    rw [constantValue, htake, ParseResult.bind, hl]
    exact if_neg h
  | true =>
    obtain ⟨tok, after, s, htake, hl, ha⟩ := take_of_lexemes fin hc
    obtain ⟨⟨v', pos⟩, after₂, s₂, hinteger, rfl, -⟩ := (meets_integer fin ha).exists_parsed
    refine ⟨tok.pos, after₂, ?_⟩
    rw [constantValue, htake, ParseResult.bind, hl]
    dsimp only
    rw [hinteger]
    exact if_neg h

/-- An expression without tags that is a constant has the tag of what was read last. -/
theorem eq_constant {e : Expr} {n m : Nat} {inFuzz : Bool} {value : Int}
    (hbare : e.bare = .constant default t value) (ht : e.Tagged inFuzz n m) :
    e = .constant ⟨n, inFuzz⟩ t value ∧ m = n + 1 := by
  cases ht with
  | constant =>
    cases hbare
    exact ⟨rfl, rfl⟩
  | _ => cases hbare

/-- A constant in the range of its type is read. -/
theorem parse_constant (fin : Position)
    (h : t.Allows negative (literalValue negative v))
    (hc : c.lexemes = constantLexemes t negative v ++ rs) :
    ∃ after shorter, parse fin c =
        .parsed (.constant ⟨c.nextId, c.inFuzz⟩ t (literalValue negative v)) after shorter ∧
      after.lexemes = rs := by
  obtain ⟨after, hlt, hparse, ha⟩ := parse_eq_typed fin hc
  have hrest : after.lexemes =
      .mark .openParen :: (literal negative v ++ .mark .closeParen :: rs) := by
    simpa using ha
  have hmeets : (typed fin t after hlt : ParseResult Expr c).Meets True fun e after =>
      e.bare = (Expr.constant default t (literalValue negative v)).bare ∧ after.lexemes = rs :=
    meets_typed_constant fin (valueWritten h) (holds_of_allows h) hlt hrest
  obtain ⟨e, after₂, s₂, htyped, hbare, ha₂⟩ := hmeets.exists_parsed
  rw [htyped] at hparse
  obtain ⟨rfl, -⟩ := eq_constant hbare (tagged_of_parse hparse)
  exact ⟨after₂, s₂, hparse, ha₂⟩

/-- A constant out of the range of its type is refused. -/
theorem parse_of_not_allows (fin : Position)
    (h : ¬t.Allows negative (literalValue negative v))
    (hc : c.lexemes = constantLexemes t negative v ++ rs) :
    ∃ pos after, parse fin c =
      .stopped (.semantic pos (.constantTooLarge negative v t)) after := by
  obtain ⟨after, hlt, hparse, ha⟩ := parse_eq_typed fin hc
  obtain ⟨after₂, s₂, hopen, ha₂⟩ := pass?_eq_some ha
  have hrest : after₂.lexemes = literal negative v ++ .mark .closeParen :: rs := by
    simpa using ha₂
  obtain ⟨pos, after₃, hstopped⟩ := constantValue_of_not_allows fin h hrest
  refine ⟨pos, after₃, ?_⟩
  rw [hparse, typed]
  simp only [hopen, hstopped]
  rfl

/-- A fuzzed sequence of one constant is read. -/
theorem parse_fuzzed_constant (fin : Position) (h : t.Allows negative (literalValue negative v))
    (hf : c.inFuzz = false)
    (hc : c.lexemes =
      .mark .openBrace :: (constantLexemes t negative v ++ .mark .closeBrace :: rs)) :
    ∃ after shorter, parse fin c =
        .parsed (.fuzz ⟨c.nextId + 1, false⟩
          [.constant ⟨c.nextId, true⟩ t (literalValue negative v)]) after shorter ∧
      after.lexemes = rs := by
  obtain ⟨tok, after, s, htake, hl, ha⟩ := take_of_lexemes fin hc
  have hf' : after.inFuzz = false :=
    ((takes_take fin .expression).inFuzz_of_parsed (htake .expression)).trans hf
  obtain ⟨after₂, s₂, hitem, ha₂⟩ := parse_constant (c := after.enterFuzz) fin h ha
  obtain ⟨tok₃, after₃, s₃, hclose, ha₃⟩ := (meets_expect fin ha₂).exists_parsed
  have hcomma : after₂.pass? (.mark .comma) = none := pass?_eq_none (by rw [ha₂]; simp)
  obtain ⟨tag, after₄, s₄, hparse, ha₄⟩ : ∃ tag after₄ s₄, parse fin c =
      .parsed (.fuzz tag [.constant ⟨after.nextId, true⟩ t (literalValue negative v)]) after₄ s₄ ∧
        after₄.lexemes = rs := by
    refine ⟨⟨after₃.nextId, after₃.leaveFuzz.inFuzz⟩,
      { after₃.leaveFuzz with nextId := after₃.nextId + 1 },
      Nat.lt_trans s₃ (Nat.lt_trans s₂ s), ?_, ha₃⟩
    rw [parse, htake]
    simp only [hl]
    rw [hf', if_neg Bool.false_ne_true, parseItems]
    simp only [hitem, hcomma, hclose]
    rfl
  -- the tags are those that reading gives out
  have htagged := tagged_of_parse hparse
  rw [hf] at htagged
  generalize after₄.nextId = m at htagged
  cases htagged with | fuzz hitems =>
  cases hitems with | cons hitem' hnil =>
  cases hnil
  obtain ⟨heq, rfl⟩ := eq_constant rfl hitem'
  rw [heq] at hparse
  exact ⟨after₄, s₄, hparse, ha₄⟩

end Expr

/-! ## Bytes -/

/-- The unsigned number that bytes spell. -/
def ByteOrder.number (order : ByteOrder) (bytes : Bytes) : Nat :=
  match order with
  | littleEndian => Nat.ofDigits 256 (bytes.map UInt8.toNat)
  | bigEndian => Nat.ofDigits 256 (bytes.reverse.map UInt8.toNat)

/-- The number of a type that bytes spell, in two's complement if the type is signed. -/
def WireType.valueOf (t : WireType) (order : ByteOrder) (bytes : Bytes) : Int :=
  if t.signed ∧ 2 ^ (8 * t.width.bytes - 1) ≤ order.number bytes then
    order.number bytes - 2 ^ (8 * t.width.bytes)
  else order.number bytes

/-- What is written for a constant. -/
def Expr.constantBytes (t : WireType) (order : ByteOrder) (n : Int) : Bytes :=
  order.encode t.width.bytes (constantBits n)

theorem ByteOrder.ofLowBytes_eq (bytes : Bytes) :
    ofLowBytes bytes = Nat.ofDigits 256 (bytes.map UInt8.toNat) := by
  induction bytes with
  | nil => rfl
  | cons b bytes ih => rw [ofLowBytes, ih, List.map_cons, Nat.ofDigits_cons]

theorem ByteOrder.number_encode (order : ByteOrder) (width : Nat) (v : UInt64) :
    order.number (order.encode width v) = v.toNat % 256 ^ width := by
  cases order with
  | littleEndian => rw [number, encode, ← ofLowBytes_eq, ofLowBytes_lowBytes]
  | bigEndian =>
    rw [number, encode, List.reverse_reverse, ← ofLowBytes_eq, ofLowBytes_lowBytes]

namespace Expr

variable {t : WireType} {negative : Bool} {n : Int}

theorem constantBits_emod (n : Int) : ((constantBits n).toNat : Int) = n % 2 ^ (64 : Nat) := by
  rw [constantBits, UInt64.ofInt, UInt64.toNat_ofNat']
  omega

theorem length_constantBytes (t : WireType) (order : ByteOrder) (n : Int) :
    (constantBytes t order n).length = t.width.bytes :=
  ByteOrder.length_encode _ _ _

/-- The bytes of an integer of a type spell the integer. -/
theorem valueOf_constantBytes (order : ByteOrder) (h : t.Allows negative n) :
    t.valueOf order (constantBytes t order n) = n := by
  have hbits := constantBits_emod n
  rw [WireType.valueOf, constantBytes, ByteOrder.number_encode]
  obtain ⟨w, signed⟩ := t
  cases signed with
  | false =>
    obtain ⟨-, hlow, hhigh⟩ := h
    rw [if_neg (by simp)]
    cases w <;> simp only [Width.bytes] at hhigh ⊢ <;> omega
  | true =>
    -- the first bit is set exactly if the integer is negative
    obtain ⟨hlow, hhigh⟩ := h
    cases w <;> simp only [Width.bytes, true_and] at hlow hhigh ⊢ <;> split <;> omega

/-- The first state of the counter for a constant is the constant. -/
theorem bytes_ofWidth (t : WireType) (n : Int) :
    (Mutator.ofWidth t.width (constantBits n).toNat).IsFirst ∧
      ∀ order, (Mutator.ofWidth t.width (constantBits n).toNat).bytes order =
        constantBytes t order n := by
  refine ⟨rfl, fun order => order.encode_congr ?_⟩
  rw [UInt64.toNat_ofNat']
  -- the counter has dropped the bits above its width
  show (constantBits n).toNat % 2 ^ t.width.bits % 2 ^ (64 : Nat) % 2 ^ t.width.bits =
    (constantBits n).toNat % 2 ^ t.width.bits
  obtain ⟨w, signed⟩ := t
  cases w <;> simp [Width.bits, Width.bytes]

end Expr

/-! ## Lowering -/

namespace Lowering

variable {s l : Lowering}

/-- The mutators of a pool, and those that are listed, are still there. -/
def Extends (s l : Lowering) : Prop :=
  s.origins.toList <+: l.origins.toList ∧
    s.builder.pool.states.toList <+: l.builder.pool.states.toList

theorem kept_extends : Kept Extends where
  refl s := ⟨List.prefix_rfl, List.prefix_rfl⟩
  trans h h' := ⟨h.1.trans h'.1, h.2.trans h'.2⟩
  push s item := ⟨List.prefix_rfl, List.prefix_rfl⟩
  pushMutator s id m := by simp [Extends]

/-- A mutator that was added is listed, and is in the pool in the state in which it was added. -/
theorem Extends.listed {id : Nat} {m : Mutator} (h : Extends (s.pushMutator id m) l) :
    ∃ mid, (id, mid) ∈ l.mutators ∧ l.builder.pool.state mid = m := by
  obtain ⟨horigins, rest, hrest⟩ := h
  refine ⟨s.builder.pool.states.size, ?_, ?_⟩
  · rw [mutators, List.mem_mergeSort]
    exact horigins.subset (by simp)
  · have hstates : l.builder.pool.states.toList = s.builder.pool.states.toList ++ m :: rest := by
      rw [← hrest]
      simp
    rw [Pool.state, Array.getD_eq_getD_getElem?, ← Array.getElem?_toList, hstates]
    simp

end Lowering

namespace Expr

variable {declared : Declared} {s l : Lowering}

/-- A constant that is not marked is written as it is. -/
theorem generate_constant (declared : Declared) (t : WireType) (n : Int) (id : Nat) (pool : Pool)
    (order : ByteOrder) :
    ∃ l, (Expr.constant ⟨id, false⟩ t n).lower declared { builder := { pool } } = .ok l ∧
      { l.builder.template with order }.generate l.builder.pool =
        .ok (constantBytes t order n) := by
  refine ⟨_, rfl, ?_⟩
  have hfree : ¬pool.Blocks [t.width.scalar (constantBits n)] := by
    rintro ⟨id, -, item, hitem, hreach⟩
    obtain rfl := List.mem_singleton.1 hitem
    exact not_reaches_scalar _ _ id hreach
  refine (Template.generate_eq_encoding hfree).trans (congrArg Except.ok ?_)
  show Item.encodings pool order [t.width.scalar (constantBits n)] = _
  rw [Item.encodings, Item.encodings, List.append_nil, Width.encoding_scalar, constantBytes]

/-- A marked constant is lowered to a counter that starts at it, if there is one of its width. -/
theorem mutator_of_constant {e : Expr} {tag : Tag} {t : WireType} {n : Int}
    (hx : .constant tag t n ∈ e.postorder) (hfuzzy : tag.fuzzy = true)
    (h : e.lower declared s = .ok l) :
    t.width ≠ .three ∧ ∃ mid, (tag.id, mid) ∈ l.mutators ∧
      l.builder.pool.state mid = .ofWidth t.width (constantBits n).toNat := by
  obtain ⟨s₁, s₂, hlower, hextends⟩ := Lowering.kept_extends.exists_lower_of_mem h
    (mem_leaves.2 ⟨hx, id⟩)
  rw [lower, lowerScalar, hfuzzy, if_neg (by simp)] at hlower
  split at hlower
  · cases hlower
  · next hwidth =>
    cases hlower
    exact ⟨hwidth, hextends.listed⟩

end Expr

/-! ## From the text to the wire -/

namespace Expr

/-- What becomes of a constant of the type `t` with the digits of `v`. -/
structure ConstantRule (t : WireType) (negative : Bool) (v : UInt64) : Prop where
  /-- It can be written in decimal digits. -/
  text : lexemes (constantText t negative v) = constantLexemes t negative v
  /-- It is read if it is in the range of the type, -/
  read : ∀ (source : String) (fin : Position) (id : Nat) (rest : List Lexeme),
    lexemes source = constantLexemes t negative v ++ rest →
    t.Allows negative (literalValue negative v) →
    ∃ after shorter, Expr.parse fin (Cursor.ofSource source id) =
      .parsed (.constant ⟨id, false⟩ t (literalValue negative v)) after shorter ∧
      after.lexemes = rest
  /-- and else it is reported as too large. -/
  refused : ∀ (source : String) (fin : Position) (id : Nat) (rest : List Lexeme),
    lexemes source = constantLexemes t negative v ++ rest →
    ¬t.Allows negative (literalValue negative v) →
    ∃ pos after, Expr.parse fin (Cursor.ofSource source id) =
      .stopped (.semantic pos (.constantTooLarge negative v t)) after
  /-- What is read is written in as many bytes as the type has, which spell it in either order. -/
  written : t.Allows negative (literalValue negative v) →
    ∀ (declared : Declared) (pool : Pool) (id : Nat) (order : ByteOrder), ∃ l bytes,
      (Expr.constant ⟨id, false⟩ t (literalValue negative v)).lower declared
        { builder := { pool } } = .ok l ∧
      { l.builder.template with order }.generate l.builder.pool = .ok bytes ∧
      bytes = constantBytes t order (literalValue negative v) ∧
      bytes.length = t.width.bytes ∧ t.valueOf order bytes = literalValue negative v
  /-- In braces it is read as well. It is lowered to a counter whose first state is written in the
  same bytes, unless it has three bytes. -/
  fuzzed : ∀ (source : String) (fin : Position) (id : Nat) (rest : List Lexeme),
    lexemes source =
      .mark .openBrace :: (constantLexemes t negative v ++ .mark .closeBrace :: rest) →
    t.Allows negative (literalValue negative v) →
    ∃ e after shorter, Expr.parse fin (Cursor.ofSource source id) =
        .parsed e after shorter ∧ after.lexemes = rest ∧
      e = .fuzz ⟨id + 1, false⟩ [.constant ⟨id, true⟩ t (literalValue negative v)] ∧
      ∀ (declared : Declared) (pool : Pool),
        (t.width = .three →
          e.lower declared { builder := { pool } } = .error (.unfuzzableType t)) ∧
        (t.width ≠ .three → ∃ l mid, e.lower declared { builder := { pool } } = .ok l ∧
          l.mutators = [(id, mid)] ∧ (l.builder.pool.state mid).IsFirst ∧
          ∀ order, (l.builder.pool.state mid).bytes order =
            constantBytes t order (literalValue negative v))
  /-- So it is wherever it stands inside of a fuzzed sequence. -/
  inside : ∀ (source : String) (calls : List ExprCall),
    ∀ e ∈ ((Cursor.ofSource source 0).answers (TokenStream.ofSource source).fin calls).flatMap
      ExprAnswer.trees,
    ∀ tag : Tag, .constant tag t (literalValue negative v) ∈ e.postorder →
    (Expr.constant tag t (literalValue negative v)).InsideFuzz e →
    ∀ (declared : Declared) (pool : Pool),
      (t.width = .three → ∃ error, e.lower declared { builder := { pool } } = .error error) ∧
      ∀ l, e.lower declared { builder := { pool } } = .ok l →
        ∃ mid, (tag.id, mid) ∈ l.mutators ∧ (l.builder.pool.state mid).IsFirst ∧
          ∀ order, (l.builder.pool.state mid).bytes order =
            constantBytes t order (literalValue negative v)

/-- The mutator of a constant in braces. -/
theorem lower_fuzzed_constant (declared : Declared) (pool : Pool) (id : Nat) (t : WireType)
    (n : Int) :
    (t.width = .three → (Expr.fuzz ⟨id + 1, false⟩ [.constant ⟨id, true⟩ t n]).lower declared
      { builder := { pool } } = .error (.unfuzzableType t)) ∧
    (t.width ≠ .three → ∃ l mid, (Expr.fuzz ⟨id + 1, false⟩ [.constant ⟨id, true⟩ t n]).lower
        declared { builder := { pool } } = .ok l ∧ l.mutators = [(id, mid)] ∧
      l.builder.pool.state mid = .ofWidth t.width (constantBits n).toNat) := by
  have hlower (s : Lowering) : (Expr.fuzz ⟨id + 1, false⟩ [.constant ⟨id, true⟩ t n]).lower
      declared s = lowerScalar ⟨id, true⟩ t (constantBits n) s := by
    rw [lower, lowerAll_singleton, lower]
  constructor
  · intro hthree
    rw [hlower, lowerScalar, if_neg (by simp), if_pos hthree]
  · intro hwidth
    refine ⟨Lowering.pushMutator { builder := { pool } } id
      (.ofWidth t.width (constantBits n).toNat), pool.states.size, ?_, ?_, ?_⟩
    · rw [hlower, lowerScalar, if_neg (by simp), if_neg hwidth]
    · exact List.mergeSort_singleton _
    · simp [Pool.state]

/-- Constants reach the wire: whatever the type and the digits are, this is what becomes of them. -/
theorem constantRule (t : WireType) (negative : Bool) (v : UInt64) :
    ConstantRule t negative v where
  text := lexemes_constantText t negative v
  read source fin id rest hsource h := parse_constant fin h hsource
  refused source fin id rest hsource h := parse_of_not_allows fin h hsource
  written h declared pool id order := by
    obtain ⟨l, hl, hgenerate⟩ :=
      generate_constant declared t (literalValue negative v) id pool order
    exact ⟨l, _, hl, hgenerate, rfl, length_constantBytes _ _ _, valueOf_constantBytes order h⟩
  fuzzed source fin id rest hsource h := by
    obtain ⟨after, shorter, hparse, hafter⟩ :=
      parse_fuzzed_constant (c := Cursor.ofSource source id) fin h rfl hsource
    refine ⟨_, after, shorter, hparse, hafter, rfl, ?_⟩
    intro declared pool
    obtain ⟨hthree, hother⟩ := lower_fuzzed_constant declared pool id t (literalValue negative v)
    refine ⟨hthree, fun hwidth => ?_⟩
    obtain ⟨l, mid, hl, hmutators, hstate⟩ := hother hwidth
    refine ⟨l, mid, hl, hmutators, ?_⟩
    rw [hstate]
    exact bytes_ofWidth t _
  inside source calls e he tag hx hinside declared pool := by
    have htagged :=
      (Cursor.ofSource source 0).tagged_answers rfl (TokenStream.ofSource source).fin calls
    have hfuzzy : tag.fuzzy = true := (htagged.fuzzy e he _ hx).2 hinside
    constructor
    · intro hthree
      cases hlower : e.lower declared { builder := { pool } } with
      | error error => exact ⟨error, rfl⟩
      | ok l => exact absurd hthree (mutator_of_constant hx hfuzzy hlower).1
    · intro l hl
      obtain ⟨-, mid, hmem, hstate⟩ := mutator_of_constant hx hfuzzy hl
      refine ⟨mid, hmem, ?_⟩
      rw [hstate]
      exact bytes_ofWidth t _

/-- The least integer of eight bytes is read, and written as its bit pattern. -/
theorem constantRule_least :
    ∃ l, (Expr.constant ⟨0, false⟩ ⟨.eight, true⟩ (-0x8000000000000000)).lower [] {} = .ok l ∧
      l.builder.template.generate l.builder.pool = .ok [0x80, 0, 0, 0, 0, 0, 0, 0] := by
  have hvalue : literalValue true 0x8000000000000000 = -0x8000000000000000 := rfl
  have h := constantRule ⟨.eight, true⟩ true 0x8000000000000000
  obtain ⟨l, bytes, hl, hgenerate, hbytes, -⟩ :=
    h.written (by rw [hvalue]; exact ⟨by decide, by decide⟩) [] {} 0 .bigEndian
  refine ⟨l, hl, hgenerate.trans ?_⟩
  rw [hbytes, hvalue]
  rfl

end Expr

end ScriptFuzz
