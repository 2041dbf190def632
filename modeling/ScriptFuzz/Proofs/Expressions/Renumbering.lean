import ScriptFuzz.Expr.Parser

/-!
# Reading with other numbers

What is read depends on the tokens alone. If counting starts higher by some amount, then the same is
read or reported, the numbers of what is read are higher by just that amount, and counting goes on
from a number that is higher by it as well.

- `Cursor.raise`, `Expr.raise`: the same with higher numbers.
- `ParseResult.raise`: a result of which the numbers are higher. It goes through `bind` and
  `weaken`, so that each reader is looked at once.
- `Expr.parse_raise`, `ExprStatement.parse_raise`, `ExprStatement.parseAll_raise`: reading with
  higher numbers.
-/

namespace ScriptFuzz

/-- The same tokens, where counting goes on from a number that is higher by `n`. -/
abbrev Cursor.raise (n : Nat) (c : Cursor) : Cursor := { c with nextId := c.nextId + n }

/-- The tag with a number that is higher by `n`. -/
def Tag.raise (n : Nat) (tag : Tag) : Tag := { tag with id := tag.id + n }

mutual

/-- An expression with numbers that are higher by `n`. -/
def Expr.raise (n : Nat) : Expr → Expr
  | .type tag t => .type (tag.raise n) t
  | .constant tag t value => .constant (tag.raise n) t value
  | .reference tag name => .reference (tag.raise n) name
  | .property tag name part => .property (tag.raise n) name part
  | .vector tag t lower upper => .vector (tag.raise n) t lower upper
  | .sequence tag items => .sequence (tag.raise n) (Expr.raiseAll n items)
  | .fuzz tag items => .fuzz (tag.raise n) (Expr.raiseAll n items)

/-- Expressions with numbers that are higher by `n`. -/
def Expr.raiseAll (n : Nat) : List Expr → List Expr
  | [] => []
  | e :: es => e.raise n :: Expr.raiseAll n es

end

theorem Expr.raiseAll_eq_map (n : Nat) (es : List Expr) : raiseAll n es = es.map (raise n) := by
  induction es with
  | nil => rfl
  | cons e es ih => rw [raiseAll, ih, List.map_cons]

/-- A statement with numbers that are higher by `n`. -/
def ExprStatement.raise (n : Nat) : ExprStatement → ExprStatement
  | declaration name value => declaration name (value.raise n)
  | output values => output (values.map (Expr.raise n))
  | input layout name => input (layout.raise n) name

namespace ParseResult

variable {α β : Type} {start earlier : Cursor} {n : Nat}

/-- The same result where counting started higher by `n`; `g` does that to the numbers of what was
read. -/
def raise (n : Nat) (g : α → α) : ParseResult α start → ParseResult α (start.raise n)
  | parsed value after shorter => parsed (g value) (after.raise n) shorter
  | stopped diagnostic after => stopped diagnostic (after.raise n)

theorem bind_raise {g : α → α} {k : β → β} {o : ParseResult α start}
    {o' : ParseResult α (start.raise n)}
    {f : (value : α) → (after : Cursor) → after.rest.length < start.rest.length →
      ParseResult β start}
    {f' : (value : α) → (after : Cursor) → after.rest.length < (start.raise n).rest.length →
      ParseResult β (start.raise n)}
    (h : o' = o.raise n g) (hf : ∀ v a s, f' (g v) (a.raise n) s = (f v a s).raise n k) :
    o'.bind f' = (o.bind f).raise n k := by
  subst h
  cases o with
  | parsed value after shorter => exact hf value after shorter
  | stopped d after => rfl

theorem weaken_raise {g : α → α} {o : ParseResult α start} {o' : ParseResult α (start.raise n)}
    (h : o' = o.raise n g) (hle : start.rest.length ≤ earlier.rest.length) :
    (o'.weaken hle : ParseResult α (earlier.raise n)) = (o.weaken hle).raise n g := by
  subst h
  cases o <;> rfl

theorem leaveFuzz_raise {g : α → α} {o : ParseResult α start} {o' : ParseResult α (start.raise n)}
    (h : o' = o.raise n g) : o'.leaveFuzz = o.leaveFuzz.raise n g := by
  subst h
  cases o <;> rfl

theorem behind_raise {g : α → α} {o : ParseResult α start} {o' : ParseResult α (start.raise n)}
    (h : o' = o.raise n g) (hlt : start.rest.length < earlier.rest.length) :
    (o'.behind hlt : ParseResult α (earlier.raise n)) = (o.behind hlt).raise n g :=
  weaken_raise h _

end ParseResult

open Cursor ParseResult

variable {n : Nat} {fin : Position} {c start : Cursor}

/-! ## Single tokens -/

namespace Cursor

@[simp] theorem inFuzz_raise (c : Cursor) : (c.raise n).inFuzz = c.inFuzz := rfl

theorem take_raise (wanted : Wanted) :
    (c.raise n).take fin wanted = (c.take fin wanted).raise n id := by
  obtain ⟨_ | ⟨t, rest⟩, m, depth⟩ := c <;> rfl

theorem expect_raise (wanted : Terminal) :
    (c.raise n).expect fin wanted = (c.expect fin wanted).raise n id := by
  refine bind_raise (take_raise _) ?_
  intro t after s
  rw [id_eq]
  split <;> rfl

theorem integer_raise : (c.raise n).integer fin = (c.integer fin).raise n id := by
  refine bind_raise (take_raise _) ?_
  intro t after s
  rw [id_eq]
  split <;> rfl

theorem ident_raise : (c.raise n).ident fin = (c.ident fin).raise n id := by
  refine bind_raise (take_raise _) ?_
  intro t after s
  rw [id_eq]
  split <;> rfl

theorem variableName_raise : (c.raise n).variableName fin = (c.variableName fin).raise n id := by
  refine bind_raise (expect_raise _) ?_
  intro t after s
  exact behind_raise ident_raise s

/-- Whether a terminal is in front does not depend on numbers. -/
theorem pass?_raise (wanted : Terminal) :
    (c.raise n).pass? wanted =
      (c.pass? wanted).map fun after => ⟨after.1.raise n, after.2⟩ := by
  obtain ⟨_ | ⟨t, rest⟩, m, depth⟩ := c
  · rfl
  · simp only [pass?, raise]
    split <;> rfl

theorem complete_raise {e e' : Tag → Expr} (he : ∀ tag, e' (tag.raise n) = (e tag).raise n)
    (h : c.rest.length < start.rest.length) :
    ((c.raise n).complete e' h : ParseResult Expr (start.raise n)) =
      (c.complete e h : ParseResult Expr start).raise n (Expr.raise n) := by
  have hafter : ({ c.raise n with nextId := (c.raise n).nextId + 1 } : Cursor) =
      Cursor.raise n { c with nextId := c.nextId + 1 } := by
    simp only [raise, Nat.add_right_comm]
  simp only [complete, ParseResult.raise, ← he, hafter]
  rfl

end Cursor

namespace Expr

/-! ## Expressions -/

theorem constantValue_raise (type : WireType) :
    constantValue fin type (c.raise n) = (constantValue fin type c).raise n id := by
  refine bind_raise (take_raise _) ?_
  intro t after s
  rw [id_eq]
  cases t.lexeme with
  | integer v => dsimp only; split <;> rfl
  | mark m =>
    cases m with
    | minus =>
      refine bind_raise (behind_raise integer_raise s) ?_
      intro v after₂ s₂
      dsimp only [id_eq]
      split <;> rfl
    | _ => rfl
  | _ => rfl

theorem vectorBounds_raise :
    vectorBounds fin (c.raise n) = (vectorBounds fin c).raise n id := by
  refine bind_raise integer_raise ?_
  intro v after s
  dsimp only [id_eq]
  rw [pass?_raise]
  cases after.pass? (.mark .minus) with
  | none => rfl
  | some p =>
    refine bind_raise (behind_raise (behind_raise integer_raise p.2) s) ?_
    intro w after₂ s₂
    rfl

theorem typed_raise (type : WireType) (h : c.rest.length < start.rest.length) :
    (typed fin type (c.raise n) h : ParseResult Expr (start.raise n)) =
      (typed fin type c h : ParseResult Expr start).raise n (Expr.raise n) := by
  unfold typed
  rw [pass?_raise, pass?_raise]
  cases c.pass? (.mark .openParen) with
  | some p =>
    refine bind_raise (behind_raise (behind_raise (constantValue_raise type) p.2) h) ?_
    intro value after₂ s₂
    refine bind_raise (behind_raise (expect_raise _) s₂) ?_
    intro _ after₃ s₃
    exact complete_raise (fun _ => rfl) s₃
  | none =>
    cases c.pass? (.mark .less) with
    | some p =>
      refine bind_raise (behind_raise (behind_raise vectorBounds_raise p.2) h) ?_
      intro bounds after₂ s₂
      refine bind_raise (behind_raise (expect_raise _) s₂) ?_
      intro _ after₃ s₃
      dsimp only [id_eq]
      split
      · rfl
      simp only [Cursor.raise]
      split
      · rfl
      · exact complete_raise (fun _ => rfl) s₃
    | none => exact complete_raise (fun _ => rfl) h

theorem named_raise (h : c.rest.length < start.rest.length) :
    (named fin (c.raise n) h : ParseResult Expr (start.raise n)) =
      (named fin c h : ParseResult Expr start).raise n (Expr.raise n) := by
  refine bind_raise (behind_raise ident_raise h) ?_
  intro name after s
  dsimp only [id_eq]
  rw [pass?_raise]
  cases after.pass? (.mark .dot) with
  | none => exact complete_raise (fun _ => rfl) s
  | some p =>
    refine bind_raise (behind_raise (behind_raise ident_raise p.2) s) ?_
    intro part after₂ s₂
    exact complete_raise (fun _ => rfl) s₂

mutual

/-- If counting starts higher by `n`, then the same is read with numbers that are higher by `n`, or
the same is reported. -/
theorem parse_raise (c : Cursor) :
    parse fin (c.raise n) = (parse fin c).raise n (Expr.raise n) := by
  rw [parse, parse, take_raise]
  cases c.take fin .expression with
  | stopped d after => rfl
  | parsed t after shorter =>
  dsimp only [ParseResult.raise, id_eq]
  split
  · exact typed_raise _ shorter
  · exact named_raise shorter
  · refine bind_raise (parseItems_raise .closeBracket [] after c _) ?_
    intro items after₂ s₂
    exact complete_raise (fun _ => by rw [raise, raiseAll_eq_map]) s₂
  · rw [inFuzz_raise]
    split
    · rfl
    have hitems := parseItems_raise .closeBrace [] after.enterFuzz c (Cursor.le_of_lt shorter)
    refine bind_raise (leaveFuzz_raise hitems) ?_
    intro items after₂ s₂
    exact complete_raise (fun _ => by rw [raise, raiseAll_eq_map]) s₂
  · rfl
termination_by (c.rest.length, 0)

theorem parseItems_raise (close : Mark) (read : List Expr) (c start : Cursor)
    (h : c.rest.length ≤ start.rest.length) :
    parseItems fin close (read.map (raise n)) (c.raise n) (start.raise n) h =
      (parseItems fin close read c start h).raise n (List.map (raise n)) := by
  unfold parseItems
  rw [parse_raise c]
  cases parse fin c with
  | stopped d after => rfl
  | parsed item after shorter =>
  dsimp only [ParseResult.raise]
  rw [pass?_raise]
  cases after.pass? (.mark .comma) with
  | some p => exact parseItems_raise close (item :: read) p.1 start _
  | none =>
    refine bind_raise (weaken_raise (expect_raise _) _) ?_
    intro _ after₂ s₂
    simp only [ParseResult.raise, List.map_reverse, List.map_cons]
termination_by (c.rest.length, 1)

end

end Expr

namespace ExprStatement

/-! ## Statements -/

theorem parseOutput_raise (read : List Expr) (c start : Cursor)
    (h : c.rest.length ≤ start.rest.length) :
    parseOutput fin (read.map (Expr.raise n)) (c.raise n) (start.raise n) h =
      (parseOutput fin read c start h).raise n (raise n) := by
  unfold parseOutput
  rw [pass?_raise]
  cases c.pass? (.mark .output) with
  | none =>
    refine bind_raise (weaken_raise (expect_raise _) h) ?_
    intro _ after s
    simp only [ParseResult.raise, raise, List.map_reverse]
  | some p =>
    dsimp only [Option.map_some]
    rw [Expr.parse_raise p.1]
    cases Expr.parse fin p.1 with
    | stopped d after => rfl
    | parsed value after shorter => exact parseOutput_raise (value :: read) after start _
termination_by c.rest.length

theorem parse_raise (c : Cursor) :
    parse fin (c.raise n) = (parse fin c).raise n (raise n) := by
  rw [parse, parse]
  simp only [Cursor.raise]
  split
  · rfl
  split
  · refine bind_raise variableName_raise ?_
    intro name after₁ s₁
    refine bind_raise (behind_raise (expect_raise _) s₁) ?_
    intro _ after₂ s₂
    refine bind_raise (behind_raise (Expr.parse_raise after₂) s₂) ?_
    intro value after₃ s₃
    refine bind_raise (behind_raise (expect_raise _) s₃) ?_
    intro _ after₄ s₄
    rfl
  · exact parseOutput_raise [] c c _
  · refine bind_raise (Expr.parse_raise c) ?_
    intro layout after₁ s₁
    refine bind_raise (behind_raise (expect_raise _) s₁) ?_
    intro _ after₂ s₂
    refine bind_raise (behind_raise variableName_raise s₂) ?_
    intro name after₃ s₃
    refine bind_raise (behind_raise (expect_raise _) s₃) ?_
    intro _ after₄ s₄
    rfl
  · rfl

theorem parseAll_raise (read : List ExprStatement) (c : Cursor) :
    parseAll fin (read.map (raise n)) (c.raise n) =
      ((parseAll fin read c).1.map (List.map (raise n)), (parseAll fin read c).2.raise n) := by
  unfold parseAll
  dsimp only
  split
  · simp only [Except.map, List.map_reverse]
  rw [parse_raise]
  cases parse fin c with
  | stopped d after => rfl
  | parsed statement after shorter => exact parseAll_raise (statement :: read) after
termination_by c.rest.length

end ExprStatement

end ScriptFuzz
