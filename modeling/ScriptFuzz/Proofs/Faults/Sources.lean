import ScriptFuzz.Script.Code
import ScriptFuzz.Proofs.Expressions.RoundTrip
import ScriptFuzz.Proofs.Faults.Expressions
import ScriptFuzz.Proofs.Faults.Scripts
import ScriptFuzz.Proofs.Tokens.Lookahead

/-!
# Malformed tokens are reported

A text with a malformed token is refused, as a script and as statements over expressions. If the
reason is a malformed token, it is the first one with its own fault; any other reason is found at a
token in front of it (`FaultRule`, `malformed_reported`). The readers see tokens that carry their
faults, and a lexer keeps the fault of the last malformed token only; what is reported is what it
keeps at that read (`KeptAt`, `keptAt_of_report`).
-/

namespace ScriptFuzz

/-- What the outcome of reading a text has to do with its malformed tokens. -/
structure FaultRule {α : Type} (tokens : List Token) (outcome : Except Diagnostic α) : Prop where
  /-- The fault of the first malformed token is reported at its place, or something else is reported
  at a token in front of it. -/
  malformed : ∀ before t rest fault, tokens = before ++ t :: rest → Faultless before →
    t.lexeme = .malformed fault →
    ∃ d, outcome = .error d ∧
      (d = ⟨t.pos, .lexical fault⟩ ∨ d.cause.Late ∧ ∃ u ∈ before, d.pos = u.pos)
  /-- Without malformed tokens, the fault of a token is no reason. -/
  faultless : Faultless tokens → ∀ d, outcome = .error d → d.cause.Late

variable {tokens before front rest rest' : List Token} {t : Token} {fault : LexFault}

/-- Tokens in front that are not malformed are in front of any malformed token. -/
theorem Faultless.in_front (hfront : Faultless front) (h : tokens = front ++ rest')
    (ht : t.lexeme = .malformed fault) (htokens : tokens = before ++ t :: rest) :
    front <+: before := by
  rcases List.append_eq_append_iff.1 (h.symm.trans htokens) with
    ⟨between, hbefore, -⟩ | ⟨between, hfrontEq, hrest⟩
  · exact ⟨between, hbefore.symm⟩
  · cases between with
    | nil => exact ⟨[], by rw [hfrontEq, List.append_nil, List.append_nil]⟩
    | cons u between =>
      -- the malformed token would be one of those in front
      obtain ⟨rfl, -⟩ := List.cons.inj hrest
      have hsound := hfront t (by simp [hfrontEq])
      rw [ht] at hsound
      exact absurd rfl hsound

/-- There is only one first malformed token. -/
theorem eq_of_first {t' : Token} {fault' : LexFault} (hbefore : Faultless before)
    (htokens : tokens = before ++ t :: rest) (ht : t.lexeme = .malformed fault)
    (hfront : Faultless front) (htokens' : tokens = front ++ t' :: rest')
    (ht' : t'.lexeme = .malformed fault') : t' = t := by
  have hle := hfront.in_front htokens' ht htokens
  have hge := hbefore.in_front htokens ht' htokens'
  have heq : front = before := hle.eq_of_length_le hge.length_le
  subst heq
  rw [htokens] at htokens'
  exact (List.cons.inj (List.append_cancel_left htokens')).1.symm

theorem Judged.faultRule {α : Type} {fin : Position} {outcome : Except Diagnostic α}
    (h : Judged tokens fin outcome) : FaultRule tokens outcome where
  malformed before t rest fault htokens hbefore ht := by
    have hfaulty : ¬Faultless tokens := by
      intro hall
      have hsound := hall t (by simp [htokens])
      rw [ht] at hsound
      exact hsound rfl
    cases outcome with
    | ok value => exact absurd h hfaulty
    | error d =>
      refine ⟨d, rfl, ?_⟩
      cases h with
      | malformed htokens' hfront ht' =>
        obtain rfl := eq_of_first hbefore htokens ht hfront htokens' ht'
        rw [ht] at ht'
        cases ht'
        exact .inl rfl
      | token hstands hcause =>
        obtain ⟨front, u, rest', htokens', hfront, hpos⟩ := hstands
        have htokens'' : tokens = (front ++ [u]) ++ rest' := by
          rw [htokens', List.append_assoc, List.singleton_append]
        have hu : u ∈ before :=
          (hfront.in_front htokens'' ht htokens).subset (List.mem_append_right _ List.mem_cons_self)
        exact .inr ⟨hcause, u, hu, hpos.symm⟩
      | fin hall => exact absurd hall hfaulty
  faultless hall d hd := by
    subst hd
    cases h with
    | @malformed _ _ t fault htokens _ ht =>
      have hsound := hall t (by simp [htokens])
      rw [ht] at hsound
      exact absurd rfl hsound
    | token _ hcause => exact hcause
    | fin _ hcause => exact hcause

theorem judged_compile (source : String) :
    Judged (TokenStream.ofSource source).tokens (TokenStream.ofSource source).fin
      (compile source) := by
  have hjudged := ScriptTree.judged_parseFrom (TokenStream.ofSource source).fin {}
    (Cursor.clean_start (TokenStream.ofSource source).tokens 0)
  rw [compile, ScriptTree.parse]
  cases hparse : ScriptTree.parseFrom (TokenStream.ofSource source).fin {}
      (TokenStream.ofSource source).tokens with
  | ok tree => rwa [hparse] at hjudged
  | error d => rwa [hparse] at hjudged

/-- The fault that a lexer keeps when it returns the token at a place, whether it takes it or looks
at it. It has taken the tokens in front before, and may have looked at any of them. -/
def KeptAt (source : String) (pos : Position) (fault : LexFault) : Prop :=
  ∃ before t rest, (TokenStream.ofSource source).tokens = before ++ t :: rest ∧ t.pos = pos ∧
    ∀ (calls : List Lexer.Call) (c : Lexer.Call), calls.count .get = before.length →
      ∃ name, (((Lexer.ofSource source).after calls).call c).1 = .token t name ∧
        (((Lexer.ofSource source).after calls).call c).2.lastFault = some fault

/-- A fault that is reported of a token is the one that the lexer keeps at this very read. -/
theorem Judged.keptAt {α : Type} {source : String} {fin : Position} {d : Diagnostic}
    (h : Judged (α := α) (TokenStream.ofSource source).tokens fin (.error d))
    (hd : d.cause = .lexical fault) : KeptAt source d.pos fault := by
  cases h with
  | @malformed before rest t fault' htokens _ ht =>
    cases hd
    exact ⟨before, t, rest, htokens, rfl, fun _ c hcalls =>
      Lexer.lastFault_of_tokens htokens ht hcalls c⟩
  | token _ hcause => exact absurd hd (hcause fault)
  | fin _ hcause => exact absurd hd (hcause fault)

/-- Both readers of whole texts report what the lexer keeps. -/
theorem keptAt_of_report {source : String} {n : Nat} {d : Diagnostic}
    (h : compile source = .error d ∨ (ExprStatement.parseAll (TokenStream.ofSource source).fin []
      (Cursor.ofSource source n)).1 = .error d) (hd : d.cause = .lexical fault) :
    KeptAt source d.pos fault := by
  obtain h | h := h
  · have hjudged := judged_compile source
    rw [h] at hjudged
    exact hjudged.keptAt hd
  · have hjudged : Judged _ (TokenStream.ofSource source).fin
        (ExprStatement.parseAll _ [] (Cursor.ofSource source n)).1 :=
      ExprStatement.judged_parseAll [] (Cursor.clean_start _ n)
    rw [h] at hjudged
    exact hjudged.keptAt hd

/-- A script and statements over expressions are refused if a token is malformed. The report is
about the first malformed token and gives its fault, which is the one that a lexer keeps whenever it
returns that token; or it has another reason and stands at a token in front. If no token is
malformed, no report gives the fault of a token. -/
theorem malformed_reported (source : String) :
    FaultRule (TokenStream.ofSource source).tokens (compile source) ∧
    (∀ n : Nat, FaultRule (TokenStream.ofSource source).tokens
      (ExprStatement.parseAll (TokenStream.ofSource source).fin []
        (Cursor.ofSource source n)).1) ∧
    ∀ (calls : List Lexer.Call) (c : Lexer.Call) (t : Token) (name : Option Nat)
      (fault : LexFault), (((Lexer.ofSource source).after calls).call c).1 = .token t name →
      t.lexeme = .malformed fault →
      (((Lexer.ofSource source).after calls).call c).2.lastFault = some fault := by
  refine ⟨?_, ?_, ?_⟩
  · exact (judged_compile source).faultRule
  · intro n
    exact (ExprStatement.judged_parseAll [] (Cursor.clean_start _ n)).faultRule
  · intro calls c t name fault ht hfault
    exact Lexer.lastFault_of_call ht hfault

end ScriptFuzz
