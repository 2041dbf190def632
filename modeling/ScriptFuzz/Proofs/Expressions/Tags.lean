import ScriptFuzz.Proofs.Expressions.Depth

/-!
# The tags of what is read

Expressions are numbered in the order in which they are completed, without gaps, and each says
whether it was read inside a fuzzed sequence (`Expr.Tagged`). So the parts of a sequence that are
read later have higher numbers, and a sequence has a higher number than its parts.

`Expr.tagged_of_parse`: what is read is tagged like this.
-/

namespace ScriptFuzz

open Cursor ParseResult

namespace Expr

/-! ## Tags -/

mutual

/-- The parts of an expression are numbered from `first` on, and `next` is the number behind them;
`inFuzz` says whether the expression lies inside a fuzzed sequence. -/
inductive Tagged : (inFuzz : Bool) → (first next : Nat) → Expr → Prop
  | type (inFuzz : Bool) (n : Nat) (t : WireType) : Tagged inFuzz n (n + 1) (.type ⟨n, inFuzz⟩ t)
  | constant (inFuzz : Bool) (n : Nat) (t : WireType) (value : Int) :
      Tagged inFuzz n (n + 1) (.constant ⟨n, inFuzz⟩ t value)
  | reference (inFuzz : Bool) (n : Nat) (name : String) :
      Tagged inFuzz n (n + 1) (.reference ⟨n, inFuzz⟩ name)
  | property (inFuzz : Bool) (n : Nat) (name part : String) :
      Tagged inFuzz n (n + 1) (.property ⟨n, inFuzz⟩ name part)
  | vector (inFuzz : Bool) (n : Nat) (t : WireType) (lower upper : UInt64) :
      Tagged inFuzz n (n + 1) (.vector ⟨n, inFuzz⟩ t lower upper)
  | sequence {inFuzz : Bool} {n m : Nat} {items : List Expr} (h : AllTagged inFuzz n m items) :
      Tagged inFuzz n (m + 1) (.sequence ⟨m, inFuzz⟩ items)
  | fuzz {n m : Nat} {items : List Expr} (h : AllTagged true n m items) :
      Tagged false n (m + 1) (.fuzz ⟨m, false⟩ items)

/-- Expressions that are numbered one after the other. -/
inductive AllTagged : (inFuzz : Bool) → (first next : Nat) → List Expr → Prop
  | nil (inFuzz : Bool) (n : Nat) : AllTagged inFuzz n n []
  | cons {inFuzz : Bool} {n k m : Nat} {e : Expr} {es : List Expr} (he : Tagged inFuzz n k e)
      (h : AllTagged inFuzz k m es) : AllTagged inFuzz n m (e :: es)

end

variable {c start : Cursor}

theorem tagged_typed (fin : Position) (t : WireType) (h : c.rest.length < start.rest.length) :
    (typed fin t c h : ParseResult Expr start).Gives fun e after =>
      e.Tagged c.inFuzz c.nextId after.nextId := by
  unfold typed
  split
  · next after s hp =>
    obtain ⟨rest, rfl⟩ := exists_rest_of_pass? hp
    refine (((takes_constantValue fin t).behind s).behind h).gives_bind ?_
    intro value rest₂ s₂
    refine ((takes_expect fin _).behind s₂).gives_bind ?_
    intro _ rest₃ s₃
    exact .constant _ _ t value
  · next after s hnone hp =>
    obtain ⟨rest, rfl⟩ := exists_rest_of_pass? hp
    refine (((takes_vectorBounds fin).behind s).behind h).gives_bind ?_
    rintro ⟨lower, upper, pos⟩ rest₂ s₂
    refine ((takes_expect fin _).behind s₂).gives_bind ?_
    intro _ rest₃ s₃
    split
    · trivial
    split
    · trivial
    · exact .vector _ _ t lower upper
  · exact .type _ _ t

theorem tagged_named (fin : Position) (h : c.rest.length < start.rest.length) :
    (named fin c h : ParseResult Expr start).Gives fun e after =>
      e.Tagged c.inFuzz c.nextId after.nextId := by
  refine ((takes_ident fin).behind h).gives_bind ?_
  rintro ⟨x, pos⟩ rest s
  dsimp only
  split
  · exact .reference _ _ x
  · next after₂ s₂ hp =>
    obtain ⟨rest₂, rfl⟩ := exists_rest_of_pass? hp
    refine (((takes_ident fin).behind s₂).behind s).gives_bind ?_
    rintro ⟨y, pos'⟩ rest₃ s₃
    exact .property _ _ x y

mutual

theorem gives_tagged (fin : Position) (c : Cursor) :
    (parse fin c).Gives fun e after => e.Tagged c.inFuzz c.nextId after.nextId := by
  rw [parse]
  split
  · trivial
  next tok after s ht =>
  have htake := takes_take (c := c) fin .expression
  rw [← htake.nextId_of_parsed ht, ← htake.inFuzz_of_parsed ht]
  split
  · exact tagged_typed fin _ s
  · exact tagged_named fin s
  · have hkeeps := keeps_parseItems fin .closeBracket [] after c (Cursor.le_of_lt s)
    have hitems := gives_allTagged fin .closeBracket [] after c (Cursor.le_of_lt s)
    refine (hitems.and_depth hkeeps).bind ?_
    rintro _ after₂ s₂ ⟨⟨items, rfl, h⟩, hdepth⟩
    rw [complete, inFuzz_congr hdepth]
    exact .sequence h
  · split
    · trivial
    next hf =>
    have hfalse : after.inFuzz = false := by simpa using hf
    have hkeeps := keeps_parseItems fin .closeBrace [] after.enterFuzz c (Cursor.le_of_lt s)
    have hitems := gives_allTagged fin .closeBrace [] after.enterFuzz c (Cursor.le_of_lt s)
    refine (hitems.leaveFuzz.and_depth hkeeps.leaveFuzz).bind ?_
    rintro _ _ s₂ ⟨⟨inner, rfl, items, rfl, h⟩, hdepth⟩
    rw [inFuzz_enterFuzz] at h
    rw [complete, inFuzz_congr hdepth, hfalse]
    exact .fuzz h
  · trivial
termination_by (c.rest.length, 0)

theorem gives_allTagged (fin : Position) (close : Mark) (read : List Expr)
    (c start : Cursor) (h : c.rest.length ≤ start.rest.length) :
    (parseItems fin close read c start h).Gives fun es after =>
      ∃ items, es = read.reverse ++ items ∧ AllTagged c.inFuzz c.nextId after.nextId items := by
  rw [parseItems]
  split
  · trivial
  next e after s he =>
  have hfirst := (gives_tagged fin c).of_parsed he
  have hfuzz := inFuzz_congr ((keeps_parse fin c).of_parsed he)
  split
  · next after₂ s₂ hcomma =>
    refine (gives_allTagged fin close (e :: read) after₂ start (by omega)).imp ?_
    rintro _ after₃ ⟨items, rfl, hitems⟩
    rw [nextId_of_pass? hcomma, inFuzz_of_pass? hcomma, hfuzz] at hitems
    exact ⟨e :: items, by simp, .cons hfirst hitems⟩
  · refine ((takes_expect fin (.mark close)).weaken (by omega)).gives_bind ?_
    intro _ rest₂ s₂
    exact ⟨[e], by simp, .cons hfirst (.nil _ _)⟩
termination_by (c.rest.length, 1)

end

/-- What is read is numbered in the order in which it was completed, and marked if it lies inside a
fuzzed sequence. -/
theorem tagged_of_parse {fin : Position} {c after : Cursor} {e : Expr}
    {shorter : after.rest.length < c.rest.length} (h : parse fin c = .parsed e after shorter) :
    e.Tagged c.inFuzz c.nextId after.nextId :=
  (gives_tagged fin c).of_parsed h

end Expr

end ScriptFuzz
