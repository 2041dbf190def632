import ScriptFuzz.Proofs.Reading.Result

/-!
# What reports are about

A reader stops at the first malformed token at the latest, and then reports just that token. What it
reports before is no lexical fault and stands at a token in front of it.

- `Reported`: the reports that are right about a list of tokens.
- `Judged`: a whole text is read only if no token is malformed, and else there is a right report.
- `Cursor.Clean`: nothing malformed was taken so far. This is what the readers keep.
- `ParseResult.Faithful`: reading ends with a right report, or keeps what is said of cursors. It
  goes through `bind`, and holds of the readers of single tokens.
-/

namespace ScriptFuzz

/-- No token is malformed. -/
def Faultless (tokens : List Token) : Prop :=
  ∀ t ∈ tokens, t.lexeme.terminal ≠ .malformed

namespace Cause

/-- The fault of a token is no reason. -/
def Late (cause : Cause) : Prop := ∀ fault, cause ≠ .lexical fault

theorem late_grammatical (wanted : Wanted) (found : Terminal) :
    (grammatical wanted found).Late := by
  intro fault h
  cases h

theorem late_semantic (fault : SemanticFault) : (semantic fault).Late := by
  intro fault' h
  cases h

end Cause

variable {tokens : List Token} {fin : Position}

/-- A place at which a token stands that is in front of all malformed ones. -/
def Stands (tokens : List Token) (pos : Position) : Prop :=
  ∃ before t rest, tokens = before ++ t :: rest ∧ Faultless (before ++ [t]) ∧ t.pos = pos

/-- The reports that are right about tokens behind which the text ends at `fin`. -/
inductive Reported (tokens : List Token) (fin : Position) : Diagnostic → Prop
  /-- The fault of the first malformed token is reported at its place. -/
  | malformed {before rest : List Token} {t : Token} {fault : LexFault}
      (h : tokens = before ++ t :: rest) (hbefore : Faultless before)
      (ht : t.lexeme = .malformed fault) : Reported tokens fin ⟨t.pos, .lexical fault⟩
  /-- Anything else is reported at a token in front of that. -/
  | token {pos : Position} {cause : Cause} (h : Stands tokens pos) (hcause : cause.Late) :
      Reported tokens fin ⟨pos, cause⟩
  /-- The end of the text is reported if no token is malformed. -/
  | fin {cause : Cause} (h : Faultless tokens) (hcause : cause.Late) :
      Reported tokens fin ⟨fin, cause⟩

theorem Reported.semantic {pos : Position} (h : Stands tokens pos) (fault : SemanticFault) :
    Reported tokens fin (.semantic pos fault) :=
  .token h (Cause.late_semantic fault)

/-- What is reported of a list of tokens stands at one of them or at the end. -/
theorem Reported.pos_cases {d : Diagnostic} (h : Reported tokens fin d) :
    (∃ t ∈ tokens, d.pos = t.pos) ∨ d.pos = fin := by
  cases h with
  | @malformed before rest t fault htokens _ _ =>
    exact .inl ⟨t, by simp [htokens], rfl⟩
  | token hstands _ =>
    obtain ⟨before, t, rest, htokens, -, hpos⟩ := hstands
    exact .inl ⟨t, by simp [htokens], hpos.symm⟩
  | fin _ _ => exact .inr rfl

/-- A text as a whole is read only if no token is malformed, and else a right report is given. -/
def Judged {α : Type} (tokens : List Token) (fin : Position) : Except Diagnostic α → Prop
  | .ok _ => Faultless tokens
  | .error d => Reported tokens fin d

/-! ## Cursors -/

namespace Cursor

/-- What was taken of the tokens holds no malformed one. -/
def Clean (tokens : List Token) (c : Cursor) : Prop :=
  ∃ taken, tokens = taken ++ c.rest ∧ Faultless taken

/-- The token `t` was taken last, and nothing malformed before it. -/
def Took (tokens : List Token) (t : Token) (c : Cursor) : Prop :=
  ∃ before, tokens = before ++ t :: c.rest ∧ Faultless before

theorem clean_start (tokens : List Token) (n : Nat) :
    Clean tokens { rest := tokens, nextId := n } :=
  ⟨[], rfl, fun _ h => absurd h List.not_mem_nil⟩

theorem Clean.congr {c c' : Cursor} (h : c.Clean tokens) (hrest : c'.rest = c.rest) :
    c'.Clean tokens := by
  rwa [Clean, hrest]

namespace Took

variable {t : Token} {c : Cursor}

/-- A token that is not malformed is part of what was taken. -/
theorem clean (h : Took tokens t c) (ht : t.lexeme.terminal ≠ .malformed) :
    c.Clean tokens ∧ Stands tokens t.pos := by
  obtain ⟨before, htokens, hbefore⟩ := h
  have hclean : Faultless (before ++ [t]) := by
    intro u hu
    rcases List.mem_append.1 hu with hu | hu
    · exact hbefore u hu
    · rwa [List.mem_singleton.1 hu]
  exact ⟨⟨before ++ [t], by rw [htokens, List.append_assoc]; rfl, hclean⟩,
    before, t, c.rest, htokens, hclean, rfl⟩

/-- The lexeme that was taken last says whether it is malformed. -/
theorem of_lexeme {l : Lexeme} (h : Took tokens t c) (hl : t.lexeme = l)
    (hterminal : l.terminal ≠ .malformed := by intro h; cases h) :
    c.Clean tokens ∧ Stands tokens t.pos :=
  h.clean (by rwa [hl])

/-- Whatever the token taken last is, it may be reported. -/
theorem unexpected (h : Took tokens t c) (wanted : Wanted) :
    Reported tokens fin (.unexpected wanted t) := by
  by_cases ht : t.lexeme.terminal = .malformed
  · obtain ⟨before, htokens, hbefore⟩ := h
    rw [Diagnostic.unexpected]
    cases hl : t.lexeme with
    | malformed fault => exact .malformed htokens hbefore hl
    | _ => rw [hl] at ht; cases ht
  · have hreport : Diagnostic.unexpected wanted t =
        ⟨t.pos, .grammatical wanted t.lexeme.terminal⟩ := by
      rw [Diagnostic.unexpected]
      split
      · next hl => exact absurd (congrArg Lexeme.terminal hl) ht
      · rfl
    rw [hreport]
    exact .token (h.clean ht).2 (Cause.late_grammatical _ _)

end Took

theorem Clean.took {c : Cursor} {t : Token} {rest : List Token} (h : c.Clean tokens)
    (hrest : c.rest = t :: rest) : Took tokens t { c with rest } := by
  obtain ⟨taken, htokens, htaken⟩ := h
  exact ⟨taken, by rw [htokens, hrest], htaken⟩

/-- At the end of the tokens the end of the text may be reported. -/
theorem Clean.unexpectedEnd {c : Cursor} (h : c.Clean tokens) (hrest : c.rest = [])
    (wanted : Wanted) : Reported tokens fin (.unexpectedEnd wanted fin) := by
  obtain ⟨taken, htokens, htaken⟩ := h
  rw [hrest, List.append_nil] at htokens
  subst htokens
  exact .fin htaken (Cause.late_grammatical _ _)

end Cursor

open Cursor

/-! ## Readers -/

namespace ParseResult

variable {α β : Type} {start earlier : Cursor} {Q : α → Cursor → Prop}

/-- If something was read, then `Q` holds of it and of what is left; if not, the report is right. -/
def Faithful (tokens : List Token) (fin : Position) (Q : α → Cursor → Prop) :
    ParseResult α start → Prop
  | parsed value after _ => Q value after
  | stopped d _ => Reported tokens fin d

namespace Faithful

variable {o : ParseResult α start}

theorem of_parsed (h : o.Faithful tokens fin Q) {v : α} {a : Cursor}
    {s : a.rest.length < start.rest.length} (e : o = .parsed v a s) : Q v a := by
  rw [e] at h
  exact h

theorem of_stopped (h : o.Faithful tokens fin Q) {d : Diagnostic} {a : Cursor}
    (e : o = .stopped d a) : Reported tokens fin d := by
  rw [e] at h
  exact h

theorem bind {R : β → Cursor → Prop}
    {f : (value : α) → (after : Cursor) → after.rest.length < start.rest.length →
      ParseResult β start}
    (h : o.Faithful tokens fin Q) (hf : ∀ v a s, Q v a → (f v a s).Faithful tokens fin R) :
    (o.bind f).Faithful tokens fin R := by
  cases o with
  | parsed value after shorter => exact hf value after shorter h
  | stopped d after => exact h

theorem weaken (h : o.Faithful tokens fin Q)
    (hle : start.rest.length ≤ earlier.rest.length) : (o.weaken hle).Faithful tokens fin Q := by
  cases o with
  | parsed value after shorter => exact h
  | stopped d after => exact h

/-- Where the items of a fuzzed sequence are left, only the depth changes. -/
theorem leaveFuzz (h : o.Faithful tokens fin fun _ => Clean tokens) :
    o.leaveFuzz.Faithful tokens fin fun _ => Clean tokens := by
  cases o with
  | parsed value after shorter => exact Clean.congr h rfl
  | stopped d after => exact h

theorem behind (h : o.Faithful tokens fin Q)
    (hlt : start.rest.length < earlier.rest.length) : (o.behind hlt).Faithful tokens fin Q :=
  h.weaken _

end Faithful

theorem faithful_ofCheck {pos : Position} {c : Cursor} {h : c.rest.length < start.rest.length}
    {check : Except SemanticFault α} (hc : c.Clean tokens) (hpos : Stands tokens pos) :
    (ofCheck pos c h check).Faithful tokens fin fun _ => Clean tokens := by
  cases check with
  | ok value => exact hc
  | error fault => exact .semantic hpos fault

end ParseResult

/-! ## Single tokens -/

namespace Cursor

variable {c : Cursor}

theorem faithful_take (h : c.Clean tokens) (wanted : Wanted) :
    (c.take fin wanted).Faithful tokens fin (Took tokens) := by
  obtain ⟨_ | ⟨t, rest⟩, n, depth⟩ := c
  · exact h.unexpectedEnd rfl wanted
  · exact h.took rfl

theorem faithful_expect (h : c.Clean tokens) {wanted : Terminal} (hwanted : wanted ≠ .malformed) :
    (c.expect fin wanted).Faithful tokens fin fun _ => Clean tokens := by
  refine (faithful_take h _).bind ?_
  intro t after s ht
  split
  · next heq => exact (ht.clean (heq ▸ hwanted)).1
  · exact ht.unexpected _

theorem faithful_mark (h : c.Clean tokens) (m : Mark) :
    (c.expect fin (.mark m)).Faithful tokens fin fun _ => Clean tokens := by
  refine faithful_expect h ?_
  intro hm
  cases hm

theorem faithful_integer (h : c.Clean tokens) :
    (c.integer fin).Faithful tokens fin fun r after => after.Clean tokens ∧ Stands tokens r.2 := by
  refine (faithful_take h _).bind ?_
  intro t after s ht
  split
  · next value hl => exact ht.of_lexeme hl
  · exact ht.unexpected _

theorem faithful_ident (h : c.Clean tokens) :
    (c.ident fin).Faithful tokens fin fun r after => after.Clean tokens ∧ Stands tokens r.2 := by
  refine (faithful_take h _).bind ?_
  intro t after s ht
  split
  · next name hl => exact ht.of_lexeme hl
  · exact ht.unexpected _

theorem faithful_variableName (h : c.Clean tokens) :
    (c.variableName fin).Faithful tokens fin fun r after =>
      after.Clean tokens ∧ Stands tokens r.2 := by
  refine (faithful_mark h _).bind ?_
  intro _ after s h
  exact (faithful_ident h).behind s

theorem Clean.pass? {m : Mark} {after : Cursor} {s : after.rest.length < c.rest.length}
    (h : c.Clean tokens) (hp : c.pass? (.mark m) = some ⟨after, s⟩) : after.Clean tokens := by
  obtain ⟨_ | ⟨t, rest⟩, n, depth⟩ := c
  · cases hp
  · simp only [Cursor.pass?] at hp
    split at hp
    · next ht =>
      cases hp
      have hsound : t.lexeme.terminal ≠ .malformed := by
        rw [ht]
        intro hm
        cases hm
      exact ((h.took rfl).clean hsound).1
    · cases hp

end Cursor

end ScriptFuzz
