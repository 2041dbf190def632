import ScriptFuzz.Expr.Parser
import ScriptFuzz.Proofs.Reading.Result

/-!
# The depth of fuzzed sequences

A cursor counts the fuzzed sequences around it. Every reader gives the count back as it was, whether
it has read something or has stopped, at whatever depth it has stopped.

- `ParseResult.Takes`: nothing but tokens was taken. So it is with the readers of single tokens and
  of what stands between parentheses or angle brackets.
- `ParseResult.Keeps`: what the depth is afterwards.
- `Expr.keeps_parse`, `ExprStatement.keeps_parse`, `ExprStatement.keeps_parseAll`: reading keeps it.
-/

namespace ScriptFuzz

open Cursor ParseResult

namespace Cursor

variable {c c' : Cursor}

theorem inFuzz_congr (h : c'.fuzzDepth = c.fuzzDepth) : c'.inFuzz = c.inFuzz := by
  rw [inFuzz, inFuzz, h]

@[simp] theorem inFuzz_enterFuzz (c : Cursor) : c.enterFuzz.inFuzz = true :=
  decide_eq_true (Nat.succ_pos _)

end Cursor

namespace ParseResult

variable {α β : Type} {start earlier c : Cursor} {depth : Nat} {o : ParseResult α start}
  {f : (value : α) → (after : Cursor) → after.rest.length < start.rest.length →
    ParseResult β start}

/-- The cursor behind what was read, or at which reading has stopped. -/
def after : ParseResult α start → Cursor
  | parsed _ after _ | stopped _ after => after

/-- Whether something was read or not, of `c` nothing has changed but the tokens. -/
def Takes (c : Cursor) (o : ParseResult α start) : Prop := ∃ rest, o.after = { c with rest }

/-- Whether something was read or not, the depth is `depth`. -/
def Keeps (depth : Nat) (o : ParseResult α start) : Prop := o.after.fuzzDepth = depth

/-! ## Nothing but tokens -/

theorem Takes.bind (h : o.Takes c) (hf : ∀ v a s, (f v a s).Takes a) : (o.bind f).Takes c := by
  cases o with
  | parsed value after shorter =>
    obtain ⟨rest, rfl⟩ : ∃ rest, after = { c with rest } := h
    exact hf value _ shorter
  | stopped d after => exact h

theorem Takes.weaken (h : o.Takes c) (hle : start.rest.length ≤ earlier.rest.length) :
    (o.weaken hle).Takes c := by
  cases o <;> exact h

theorem Takes.behind (h : o.Takes c) (hlt : start.rest.length < earlier.rest.length) :
    (o.behind hlt).Takes c :=
  h.weaken _

theorem Takes.of_parsed (h : o.Takes c) {v : α} {a : Cursor}
    {s : a.rest.length < start.rest.length} (e : o = .parsed v a s) :
    ∃ rest, a = { c with rest } := by
  rw [e] at h
  exact h

theorem Takes.nextId_of_parsed (h : o.Takes c) {v : α} {a : Cursor}
    {s : a.rest.length < start.rest.length} (e : o = .parsed v a s) : a.nextId = c.nextId := by
  obtain ⟨rest, rfl⟩ := h.of_parsed e
  rfl

theorem Takes.inFuzz_of_parsed (h : o.Takes c) {v : α} {a : Cursor}
    {s : a.rest.length < start.rest.length} (e : o = .parsed v a s) : a.inFuzz = c.inFuzz := by
  obtain ⟨rest, rfl⟩ := h.of_parsed e
  rfl

/-- What is read behind tokens is read from a cursor that differs by tokens only. -/
theorem Takes.gives_bind {Q : β → Cursor → Prop} (h : o.Takes c)
    (hf : ∀ v rest s, (f v { c with rest } s).Gives Q) : (o.bind f).Gives Q := by
  cases o with
  | parsed value after shorter =>
    obtain ⟨rest, rfl⟩ : ∃ rest, after = { c with rest } := h
    exact hf value rest shorter
  | stopped d after => trivial

theorem Takes.keeps (h : o.Takes c) : o.Keeps c.fuzzDepth := by
  obtain ⟨rest, h⟩ := h
  rw [Keeps, h]

/-! ## The depth -/

theorem Keeps.bind (h : o.Keeps depth)
    (hf : ∀ v a s, a.fuzzDepth = depth → (f v a s).Keeps depth) : (o.bind f).Keeps depth := by
  cases o with
  | parsed value after shorter => exact hf value after shorter h
  | stopped d after => exact h

theorem Keeps.weaken (h : o.Keeps depth) (hle : start.rest.length ≤ earlier.rest.length) :
    (o.weaken hle).Keeps depth := by
  cases o <;> exact h

theorem Keeps.behind (h : o.Keeps depth) (hlt : start.rest.length < earlier.rest.length) :
    (o.behind hlt).Keeps depth :=
  h.weaken _

/-- Whoever has entered a fuzzed sequence leaves it, whatever has become of the items. -/
theorem Keeps.leaveFuzz (h : o.Keeps (depth + 1)) : o.leaveFuzz.Keeps depth := by
  cases o <;> exact congrArg (· - 1) h

theorem Keeps.of_parsed (h : o.Keeps depth) {v : α} {a : Cursor}
    {s : a.rest.length < start.rest.length} (e : o = .parsed v a s) : a.fuzzDepth = depth := by
  rw [e] at h
  exact h

theorem Keeps.of_stopped (h : o.Keeps depth) {d : Diagnostic} {a : Cursor}
    (e : o = .stopped d a) : a.fuzzDepth = depth := by
  rw [e] at h
  exact h

theorem Gives.and_depth {Q : α → Cursor → Prop} (h : o.Gives Q) (hkeeps : o.Keeps depth) :
    o.Gives fun v a => Q v a ∧ a.fuzzDepth = depth := by
  cases o with
  | parsed value after shorter => exact ⟨h, hkeeps⟩
  | stopped d after => trivial

theorem Meets.and_depth {ok : Prop} {Q : α → Cursor → Prop} (h : o.Meets ok Q)
    (hkeeps : o.Keeps depth) : o.Meets ok fun v a => Q v a ∧ a.fuzzDepth = depth := by
  cases o with
  | parsed value after shorter => exact ⟨h.1, h.2, hkeeps⟩
  | stopped d after => exact h

theorem Gives.leaveFuzz {Q : α → Cursor → Prop} (h : o.Gives Q) :
    o.leaveFuzz.Gives fun v a => ∃ inner, a = inner.leaveFuzz ∧ Q v inner := by
  cases o with
  | parsed value after shorter => exact ⟨after, rfl, h⟩
  | stopped d after => trivial

theorem Meets.leaveFuzz {ok : Prop} {Q : α → Cursor → Prop} (h : o.Meets ok Q) :
    o.leaveFuzz.Meets ok fun v a => ∃ inner, a = inner.leaveFuzz ∧ Q v inner := by
  cases o with
  | parsed value after shorter => exact ⟨h.1, after, rfl, h.2⟩
  | stopped d after => exact h

end ParseResult

variable {c start : Cursor}

/-! ## Single tokens -/

namespace Cursor

theorem takes_take (fin : Position) (wanted : Wanted) : (c.take fin wanted).Takes c := by
  obtain ⟨_ | ⟨t, rest⟩, n, depth⟩ := c
  · exact ⟨[], rfl⟩
  · exact ⟨rest, rfl⟩

theorem takes_expect (fin : Position) (wanted : Terminal) : (c.expect fin wanted).Takes c := by
  refine (takes_take fin _).bind ?_
  intro t after s
  split <;> exact ⟨after.rest, rfl⟩

theorem takes_integer (fin : Position) : (c.integer fin).Takes c := by
  refine (takes_take fin _).bind ?_
  intro t after s
  split <;> exact ⟨after.rest, rfl⟩

theorem takes_ident (fin : Position) : (c.ident fin).Takes c := by
  refine (takes_take fin _).bind ?_
  intro t after s
  split <;> exact ⟨after.rest, rfl⟩

theorem takes_variableName (fin : Position) : (c.variableName fin).Takes c := by
  refine (takes_expect fin _).bind ?_
  intro _ after s
  exact (takes_ident fin).behind s

theorem exists_rest_of_pass? {wanted : Terminal} {after : Cursor}
    {s : after.rest.length < c.rest.length} (h : c.pass? wanted = some ⟨after, s⟩) :
    ∃ rest, after = { c with rest } := by
  obtain ⟨_ | ⟨t, rest⟩, n, depth⟩ := c
  · cases h
  · simp only [pass?] at h
    split at h
    · cases h
      exact ⟨rest, rfl⟩
    · cases h

theorem nextId_of_pass? {wanted : Terminal} {after : Cursor}
    {s : after.rest.length < c.rest.length} (h : c.pass? wanted = some ⟨after, s⟩) :
    after.nextId = c.nextId := by
  obtain ⟨rest, rfl⟩ := exists_rest_of_pass? h
  rfl

theorem fuzzDepth_of_pass? {wanted : Terminal} {after : Cursor}
    {s : after.rest.length < c.rest.length} (h : c.pass? wanted = some ⟨after, s⟩) :
    after.fuzzDepth = c.fuzzDepth := by
  obtain ⟨rest, rfl⟩ := exists_rest_of_pass? h
  rfl

theorem inFuzz_of_pass? {wanted : Terminal} {after : Cursor}
    {s : after.rest.length < c.rest.length} (h : c.pass? wanted = some ⟨after, s⟩) :
    after.inFuzz = c.inFuzz :=
  inFuzz_congr (fuzzDepth_of_pass? h)

end Cursor

/-! ## Expressions -/

namespace Expr

theorem takes_constantValue (fin : Position) (t : WireType) : (constantValue fin t c).Takes c := by
  refine (takes_take fin _).bind ?_
  intro tok after s
  cases tok.lexeme with
  | integer v =>
    dsimp only
    split <;> exact ⟨after.rest, rfl⟩
  | mark m =>
    cases m with
    | minus =>
      refine ((takes_integer fin).behind s).bind ?_
      rintro ⟨v, pos⟩ after₂ s₂
      dsimp only
      split <;> exact ⟨after₂.rest, rfl⟩
    | _ => exact ⟨after.rest, rfl⟩
  | _ => exact ⟨after.rest, rfl⟩

theorem takes_vectorBounds (fin : Position) : (vectorBounds fin c).Takes c := by
  refine (takes_integer fin).bind ?_
  rintro ⟨n, pos⟩ after s
  dsimp only
  split
  · exact ⟨after.rest, rfl⟩
  · next after₂ s₂ hp =>
    obtain ⟨rest, rfl⟩ := exists_rest_of_pass? hp
    refine Takes.bind (c := { after with rest }) (((takes_integer fin).behind s₂).behind s) ?_
    rintro ⟨m, pos'⟩ after₃ s₃
    exact ⟨after₃.rest, rfl⟩

theorem keeps_typed (fin : Position) (t : WireType) (h : c.rest.length < start.rest.length) :
    (typed fin t c h : ParseResult Expr start).Keeps c.fuzzDepth := by
  unfold typed
  split
  · next after s hp =>
    rw [← fuzzDepth_of_pass? hp]
    refine (((takes_constantValue fin t).keeps.behind s).behind h).bind ?_
    intro value after₂ s₂ h₂
    rw [← h₂]
    refine ((takes_expect fin _).keeps.behind s₂).bind ?_
    intro _ after₃ s₃ h₃
    exact h₃
  · next after s hnone hp =>
    rw [← fuzzDepth_of_pass? hp]
    refine (((takes_vectorBounds fin).keeps.behind s).behind h).bind ?_
    rintro ⟨lower, upper, pos⟩ after₂ s₂ h₂
    rw [← h₂]
    refine ((takes_expect fin _).keeps.behind s₂).bind ?_
    intro _ after₃ s₃ h₃
    split
    · exact h₃
    split <;> exact h₃
  · rfl

theorem keeps_named (fin : Position) (h : c.rest.length < start.rest.length) :
    (named fin c h : ParseResult Expr start).Keeps c.fuzzDepth := by
  refine ((takes_ident fin).keeps.behind h).bind ?_
  rintro ⟨x, pos⟩ after s h₁
  rw [← h₁]
  dsimp only
  split
  · rfl
  · next after₂ s₂ hp =>
    rw [← fuzzDepth_of_pass? hp]
    refine (((takes_ident fin).keeps.behind s₂).behind s).bind ?_
    rintro ⟨y, pos'⟩ after₃ s₃ h₃
    exact h₃

mutual

/-- An expression is read, or reading stops, and the depth is as before. -/
theorem keeps_parse (fin : Position) (c : Cursor) : (parse fin c).Keeps c.fuzzDepth := by
  rw [parse]
  split
  · next d after ht => exact (takes_take fin .expression).keeps.of_stopped ht
  next tok after s ht =>
  rw [← (takes_take fin .expression).keeps.of_parsed ht]
  split
  · exact keeps_typed fin _ s
  · exact keeps_named fin s
  · refine (keeps_parseItems fin .closeBracket [] after c _).bind ?_
    intro items after₂ s₂ h₂
    exact h₂
  · split
    · rfl
    -- inside the braces the depth is higher by one, also where an item stops the reading
    have hitems := keeps_parseItems fin .closeBrace [] after.enterFuzz c (Cursor.le_of_lt s)
    refine hitems.leaveFuzz.bind ?_
    intro items after₂ s₂ h₂
    exact h₂
  · rfl
termination_by (c.rest.length, 0)

theorem keeps_parseItems (fin : Position) (close : Mark) (read : List Expr) (c start : Cursor)
    (h : c.rest.length ≤ start.rest.length) :
    (parseItems fin close read c start h).Keeps c.fuzzDepth := by
  rw [parseItems]
  split
  · next d after he => exact (keeps_parse fin c).of_stopped he
  next e after s he =>
  rw [← (keeps_parse fin c).of_parsed he]
  split
  · next after₂ s₂ hcomma =>
    rw [← fuzzDepth_of_pass? hcomma]
    exact keeps_parseItems fin close (e :: read) after₂ start (by omega)
  · refine ((takes_expect fin (.mark close)).keeps.weaken (by omega)).bind ?_
    intro _ after₂ s₂ h₂
    exact h₂
termination_by (c.rest.length, 1)

end

end Expr

/-! ## Statements -/

namespace ExprStatement

theorem keeps_parseOutput (fin : Position) (read : List Expr) (c start : Cursor)
    (h : c.rest.length ≤ start.rest.length) :
    (parseOutput fin read c start h).Keeps c.fuzzDepth := by
  rw [parseOutput]
  split
  · refine ((takes_expect fin _).keeps.weaken h).bind ?_
    intro _ after s h₁
    exact h₁
  next after shorter houtput =>
  rw [← fuzzDepth_of_pass? houtput]
  split
  · next d after₂ hv => exact (Expr.keeps_parse fin after).of_stopped hv
  next value after₂ shorter₂ hv =>
  rw [← (Expr.keeps_parse fin after).of_parsed hv]
  exact keeps_parseOutput fin (value :: read) after₂ start (by omega)
termination_by c.rest.length

theorem keeps_parse (fin : Position) (c : Cursor) : (parse fin c).Keeps c.fuzzDepth := by
  rw [parse]
  split
  · rfl
  split
  · refine (takes_variableName fin).keeps.bind ?_
    rintro ⟨name, _⟩ after₁ s₁ h₁
    rw [← h₁]
    refine ((takes_expect fin _).keeps.behind s₁).bind ?_
    intro _ after₂ s₂ h₂
    rw [← h₂]
    refine ((Expr.keeps_parse fin after₂).behind s₂).bind ?_
    intro value after₃ s₃ h₃
    rw [← h₃]
    refine ((takes_expect fin _).keeps.behind s₃).bind ?_
    intro _ after₄ s₄ h₄
    exact h₄
  · exact keeps_parseOutput fin [] c c _
  · refine (Expr.keeps_parse fin c).bind ?_
    intro layout after₁ s₁ h₁
    rw [← h₁]
    refine ((takes_expect fin _).keeps.behind s₁).bind ?_
    intro _ after₂ s₂ h₂
    rw [← h₂]
    refine ((takes_variableName fin).keeps.behind s₂).bind ?_
    rintro ⟨name, _⟩ after₃ s₃ h₃
    rw [← h₃]
    refine ((takes_expect fin _).keeps.behind s₃).bind ?_
    intro _ after₄ s₄ h₄
    exact h₄
  · rfl

/-- All statements are read, or reading stops at one of them, and the depth is as before. -/
theorem keeps_parseAll (fin : Position) (read : List ExprStatement) (c : Cursor) :
    (parseAll fin read c).2.fuzzDepth = c.fuzzDepth := by
  rw [parseAll]
  split
  · rfl
  split
  · next d after hs => exact (keeps_parse fin c).of_stopped hs
  next statement after shorter hs =>
  rw [keeps_parseAll fin (statement :: read) after]
  exact (keeps_parse fin c).of_parsed hs
termination_by c.rest.length

end ExprStatement

end ScriptFuzz
