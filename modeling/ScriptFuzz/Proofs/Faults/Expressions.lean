import ScriptFuzz.Expr.Parser
import ScriptFuzz.Proofs.Faults.Reports

/-!
# Reports about template expressions

The readers of expressions and of statements over them keep what is said of cursors, and what they
report is right (`ExprStatement.judged_parseAll` for what is left of a text).
-/

namespace ScriptFuzz

open Cursor ParseResult

variable {tokens : List Token} {fin : Position} {c start : Cursor}

theorem Cursor.faithful_complete (e : Tag → Expr)
    (h : c.rest.length < start.rest.length) (hc : c.Clean tokens) :
    (c.complete e h).Faithful tokens fin fun _ => Clean tokens :=
  hc.congr rfl

namespace Expr

theorem faithful_constantValue (type : WireType) (hc : c.Clean tokens) :
    (constantValue fin type c).Faithful tokens fin fun _ => Clean tokens := by
  refine (faithful_take hc _).bind ?_
  intro t after s htook
  cases hl : t.lexeme with
  | integer v =>
    obtain ⟨hafter, hpos⟩ := htook.of_lexeme hl
    dsimp only
    split
    · exact hafter
    · exact .semantic hpos _
  | mark m =>
    obtain ⟨hafter, hpos⟩ := htook.of_lexeme hl
    cases m with
    | minus =>
      dsimp only
      refine ((faithful_integer hafter).behind s).bind ?_
      rintro ⟨v, _⟩ after₂ s₂ ⟨h₂, -⟩
      dsimp only
      split
      · exact h₂
      · exact .semantic hpos _
    | dollar => exact .semantic hpos _
    | _ => exact htook.unexpected _
  | _ => exact htook.unexpected _

theorem faithful_vectorBounds (hc : c.Clean tokens) :
    (vectorBounds fin c).Faithful tokens fin fun r after =>
      after.Clean tokens ∧ Stands tokens r.2.2 := by
  refine (faithful_integer hc).bind ?_
  rintro ⟨lower, pos⟩ after s ⟨hafter, hpos⟩
  dsimp only
  split
  · exact ⟨hafter, hpos⟩
  next after₂ s₂ hminus =>
  refine (((faithful_integer (hafter.pass? hminus)).behind s₂).behind s).bind ?_
  rintro ⟨upper, _⟩ after₃ s₃ ⟨h₃, -⟩
  exact ⟨h₃, hpos⟩

theorem faithful_typed (type : WireType) (h : c.rest.length < start.rest.length)
    (hc : c.Clean tokens) :
    (typed fin type c h).Faithful tokens fin fun _ => Clean tokens := by
  rw [typed]
  split
  · next after s hopen =>
    refine (((faithful_constantValue type (hc.pass? hopen)).behind s).behind h).bind ?_
    intro value after₂ s₂ h₂
    refine ((faithful_mark h₂ _).behind s₂).bind ?_
    intro _ after₃ s₃ h₃
    exact faithful_complete _ s₃ h₃
  · next after s _ hless =>
    refine (((faithful_vectorBounds (hc.pass? hless)).behind s).behind h).bind ?_
    rintro ⟨lower, upper, pos⟩ after₂ s₂ ⟨h₂, hpos⟩
    refine ((faithful_mark h₂ _).behind s₂).bind ?_
    intro _ after₃ s₃ h₃
    split
    · exact .semantic hpos _
    split
    · next pos' hhead =>
      -- the parenthesis behind the vector is only looked at
      obtain ⟨_ | ⟨t, rest⟩, n, depth⟩ := after₃
      · cases hhead
      · cases hhead
        have htook := h₃.took rfl
        exact .semantic (htook.of_lexeme rfl).2 _
    · exact faithful_complete _ s₃ h₃
  · exact faithful_complete _ h hc

theorem faithful_named (h : c.rest.length < start.rest.length)
    (hc : c.Clean tokens) :
    (named fin c h).Faithful tokens fin fun _ => Clean tokens := by
  refine ((faithful_ident hc).behind h).bind ?_
  rintro ⟨name, _⟩ after s ⟨hafter, -⟩
  dsimp only
  split
  · exact faithful_complete _ s hafter
  next after₂ s₂ hdot =>
  refine (((faithful_ident (hafter.pass? hdot)).behind s₂).behind s).bind ?_
  rintro ⟨part, _⟩ after₃ s₃ ⟨h₃, -⟩
  exact faithful_complete _ s₃ h₃

mutual

theorem faithful_parse {c : Cursor} (hc : c.Clean tokens) :
    (parse fin c).Faithful tokens fin fun _ => Clean tokens := by
  rw [parse]
  split
  · next d after ht => exact (faithful_take hc _).of_stopped ht
  next t after shorter ht =>
  have htook := (faithful_take hc _).of_parsed ht
  split
  · next type hl => exact faithful_typed type shorter (htook.of_lexeme hl).1
  · next hl => exact faithful_named shorter (htook.of_lexeme hl).1
  · next hl =>
    refine (faithful_parseItems .closeBracket [] _ (htook.of_lexeme hl).1).bind ?_
    intro items after₂ s₂ h₂
    exact faithful_complete _ s₂ h₂
  · next hl =>
    obtain ⟨hafter, hpos⟩ := htook.of_lexeme hl
    split
    · exact .semantic hpos _
    have hinner : after.enterFuzz.Clean tokens := hafter.congr rfl
    have hitems :=
      faithful_parseItems (c := after.enterFuzz) .closeBrace [] (Cursor.le_of_lt shorter) hinner
    refine (Faithful.leaveFuzz hitems).bind ?_
    intro items after₂ s₂ h₂
    exact faithful_complete _ s₂ h₂
  · exact htook.unexpected _
termination_by (c.rest.length, 0)

theorem faithful_parseItems (close : Mark) (read : List Expr) {c start : Cursor}
    (h : c.rest.length ≤ start.rest.length) (hc : c.Clean tokens) :
    (parseItems fin close read c start h).Faithful tokens fin fun _ => Clean tokens := by
  rw [parseItems]
  split
  · next d after hi => exact (faithful_parse hc).of_stopped hi
  next item after shorter hi =>
  have hafter := (faithful_parse hc).of_parsed hi
  split
  · next after₂ s₂ hcomma =>
    exact faithful_parseItems close (item :: read) (by omega) (hafter.pass? hcomma)
  · refine ((faithful_mark hafter close).weaken (by omega)).bind ?_
    intro _ after₂ s₂ h₂
    exact h₂
termination_by (c.rest.length, 1)

end

end Expr

namespace ExprStatement

theorem faithful_parseOutput (read : List Expr) {c start : Cursor}
    (h : c.rest.length ≤ start.rest.length) (hc : c.Clean tokens) :
    (parseOutput fin read c start h).Faithful tokens fin fun _ => Clean tokens := by
  rw [parseOutput]
  split
  · refine ((faithful_mark hc _).weaken h).bind ?_
    intro _ after s hafter
    exact hafter
  next after shorter houtput =>
  have hafter := hc.pass? houtput
  split
  · next d after₂ hv => exact (Expr.faithful_parse hafter).of_stopped hv
  next value after₂ shorter₂ hv =>
  have hafter₂ := (Expr.faithful_parse hafter).of_parsed hv
  exact faithful_parseOutput (value :: read) (by omega) hafter₂
termination_by c.rest.length

theorem faithful_parse (hc : c.Clean tokens) :
    (parse fin c).Faithful tokens fin fun _ => Clean tokens := by
  rw [parse]
  split
  · next hhead => exact hc.unexpectedEnd (List.head?_eq_none_iff.1 hhead) _
  next t hhead =>
  split
  · refine (faithful_variableName hc).bind ?_
    rintro ⟨name, _⟩ after₁ s₁ ⟨h₁, -⟩
    refine ((faithful_mark h₁ _).behind s₁).bind ?_
    intro _ after₂ s₂ h₂
    refine ((Expr.faithful_parse h₂).behind s₂).bind ?_
    intro value after₃ s₃ h₃
    refine ((faithful_mark h₃ _).behind s₃).bind ?_
    intro _ after₄ s₄ h₄
    exact h₄
  · exact faithful_parseOutput [] _ hc
  · refine (Expr.faithful_parse hc).bind ?_
    intro layout after₁ s₁ h₁
    refine ((faithful_mark h₁ _).behind s₁).bind ?_
    intro _ after₂ s₂ h₂
    refine ((faithful_variableName h₂).behind s₂).bind ?_
    rintro ⟨name, _⟩ after₃ s₃ ⟨h₃, -⟩
    refine ((faithful_mark h₃ _).behind s₃).bind ?_
    intro _ after₄ s₄ h₄
    exact h₄
  · -- the token is reported and stays in front
    obtain ⟨_ | ⟨t', rest⟩, n, depth⟩ := c
    · cases hhead
    · cases hhead
      exact (hc.took rfl).unexpected _

/-- The statements that are left are read, or a right report is given. -/
theorem judged_parseAll (read : List ExprStatement) {c : Cursor} (hc : c.Clean tokens) :
    Judged tokens fin (parseAll fin read c).1 := by
  rw [parseAll]
  split
  · next hrest =>
    obtain ⟨taken, htokens, htaken⟩ := hc
    rw [hrest, List.append_nil] at htokens
    rwa [htokens]
  split
  · next d after hs => exact (faithful_parse hc).of_stopped hs
  · next statement after shorter hs =>
    exact judged_parseAll (statement :: read) ((faithful_parse hc).of_parsed hs)
termination_by c.rest.length

end ExprStatement

end ScriptFuzz
