import ScriptFuzz.Proofs.Reading.Expressions

/-!
# Reading functions

A function that is spelled in front of a cursor is read exactly if it keeps the rules, and what is
read has its method (`Function.meets_parse`). Its statements are read one after the other: each is
read exactly if it keeps the rules where it stands and its pools and slots have room for it, and
leaves a scope that knows the names behind it.
-/

namespace ScriptFuzz

open Source Cursor ParseResult

variable {k : Known} {names : Naming} {scope : Scope} {c : Cursor} {ts us rs : List Lexeme}

/-! ## Statements -/

namespace Scope

/-- The scope behind a statement. -/
def behind (scope : Scope) (names : Naming) (s : Statement) : Scope :=
  let scope := scope.spend s.term.ints (s.term.texts names)
  match s with
  | .declare x _ => scope.declare x
  | _ => scope

/-- Whether a statement keeps the rules, and there is room for what it uses and declares. -/
def FitsStatement (scope : Scope) (names : Naming) (s : Statement) : Prop :=
  s.Valid names ∧ scope.Room s.term.ints (s.term.texts names) ∧
    (names.behind s).locals.length ≤ limit

/-- Whether a body keeps the rules, and there is room for what it uses and declares. -/
def FitsBody (scope : Scope) (names : Naming) (body : List Statement) : Prop :=
  Statement.AllValid names body ∧
    scope.Room (Statement.allInts body) (Statement.allTexts names body) ∧
    Statement.slots names body ≤ limit

theorem room_behind {s : Statement} {ints texts : Nat} :
    (scope.behind names s).Room ints texts ↔
      (scope.spend s.term.ints (s.term.texts names)).Room ints texts := by
  cases s <;> rfl

theorem fitsBody_cons {s : Statement} {body : List Statement} :
    scope.FitsBody names (s :: body) ↔
      scope.FitsStatement names s ∧
        (scope.behind names s).FitsBody (names.behind s) body := by
  have hroom : scope.Room (Statement.allInts (s :: body)) (Statement.allTexts names (s :: body)) ↔
      scope.Room s.term.ints (s.term.texts names) ∧
        (scope.behind names s).Room (Statement.allInts body)
          (Statement.allTexts (names.behind s) body) := by
    rw [room_behind, ← room_add]
    rfl
  have hle := Statement.length_le_slots (names.behind s) body
  rw [FitsBody, FitsStatement, FitsBody, hroom, Statement.AllValid, Statement.slots]
  constructor
  · rintro ⟨⟨hs, hb⟩, ⟨hr, hrs⟩, hv⟩
    exact ⟨⟨hs, hr, Nat.le_trans hle hv⟩, hb, hrs, hv⟩
  · rintro ⟨⟨hs, hr, -⟩, hb, hrs, hv⟩
    exact ⟨⟨hs, hb⟩, ⟨hr, hrs⟩, hv⟩

theorem Sees.behind {tree : ScriptTree} {s : Statement} (h : scope.Sees tree names)
    (hs : scope.FitsStatement names s) : (scope.behind names s).Sees tree (names.behind s) := by
  have hspent := h.spend hs.2.1
  cases s with
  | declare x e => exact hspent.declare x (by rw [hspent.slots]; exact hs.2.2)
  | assign | result | evaluate => exact hspent

/-- A statement that declares nothing needs no room for variables. -/
theorem Sees.fitsStatement_iff {tree : ScriptTree} {s : Statement} (h : scope.Sees tree names)
    (hs : names.behind s = names) :
    scope.FitsStatement names s ↔
      s.Valid names ∧ scope.Room s.term.ints (s.term.texts names) := by
  have hle : (names.behind s).locals.length ≤ limit := by
    rw [hs, ← h.slots]
    exact h.bounded
  rw [FitsStatement, and_iff_left hle]

end Scope

namespace ScriptStatement

/-- What was read has the code of a statement and leaves the scope behind it. -/
def ReadAs (names : Naming) (scope : Scope) (s : Statement) (rs : List Lexeme)
    (r : ScriptStatement × Scope) (after : Cursor) : Prop :=
  (∀ b, r.1.emit b = s.emit names b) ∧ r.2 = scope.behind names s ∧ after.lexemes = rs

/-- The value of a statement and the semicolon behind it. -/
theorem meets_parseValue {start : Cursor} {e : Term} (h : c.rest.length ≤ start.rest.length)
    (he : e.Written .sum ts) (hs : scope.Sees k.tree names)
    (hc : c.lexemes = ts ++ .mark .semicolon :: rs) :
    (parseValue k scope c h : ParseResult _ start).Meets (scope.Fits names e)
      (ScriptFuzz.ReadAs Sum.emit names scope e rs) := by
  have hp := Sum.meets_parse (Level.reads_of_written k names he) hs (.of_mark (by decide)) hc
  refine (hp.weaken h).bind_then ?_
  rintro - v after s ⟨hemit, hscope, hafter⟩
  refine ((meets_expect k.fin hafter).behind _).bind_true ?_
  rintro - after₂ s₂ hafter₂
  exact ⟨trivial, hemit, hscope, hafter₂⟩

/-- An expression that is a statement is read as expressions are. -/
theorem parseNamed_of_ne_assign {x : String} {pos : Position} {start : Cursor}
    (h : c.rest.length < start.rest.length) (hc : c.lexemes.head? ≠ some (.mark .assign))
    (hf : Factor.parse k scope start = Factor.parseNamed k scope x pos c start h) :
    parseNamed k scope x pos c h =
      (parseValue k scope start (Nat.le_refl _)).bind fun (value, scope) after shorter =>
        .parsed (.evaluate value, scope) after shorter := by
  rw [parseNamed, pass?_eq_none hc, parseValue, Sum.parse, Product.parse, hf]
  cases Factor.parseNamed k scope x pos c start h with
  | stopped d after => rfl
  | parsed factor after s =>
  dsimp only [ParseResult.bind]
  cases Product.parseMore k factor.2 factor.1 [] after start s with
  | stopped d after => rfl
  | parsed product after s =>
  dsimp only
  cases Sum.parseMore k product.2 product.1 [] after start s with
  | stopped d after => rfl
  | parsed value after s =>
  dsimp only [ParseResult.weaken, ParseResult.behind]
  cases after.expect k.fin (.mark .semicolon) <;> rfl

/-- A statement that begins with a name. -/
theorem parse_of_named (k : Known) (scope : Scope) {x : String} (hx : Named ts x)
    (hc : c.lexemes = ts ++ rs) :
    ∃ pos after h, parse k scope c = parseNamed k scope x pos after h ∧
      Factor.parse k scope c = Factor.parseNamed k scope x pos after c h ∧
      after.lexemes = rs := by
  cases hx with
  | plain =>
    obtain ⟨t, after, s, ht, hl, ha⟩ := take_of_lexemes k.fin hc
    refine ⟨t.pos, after, s, ?_, ?_, ha⟩
    · rw [parse, ht, ParseResult.bind, hl]
    · rw [Factor.parse, ht]
      simp only [hl]
  | dollar =>
    obtain ⟨t, after, s, ht, hl, ha⟩ := take_of_lexemes k.fin hc
    obtain ⟨⟨y, pos⟩, after₂, s₂, hi, rfl, ha₂⟩ := (meets_ident k.fin ha).exists_parsed
    refine ⟨pos, after₂, by omega, ?_, ?_, ha₂⟩
    · rw [parse, ht, ParseResult.bind, hl]
      dsimp only
      rw [hi]
      rfl
    · rw [Factor.parse, ht]
      simp only [hl, hi]

/-- A declaration is read behind its keyword and the dollar sign that may stand there. -/
theorem parse_of_var (k : Known) (scope : Scope) {x : String} (hx : Named ts x)
    (hc : c.lexemes = .keyword .var :: ts ++ rs) :
    ∃ pos after h, parse k scope c = parseDeclare k scope pos after h ∧
      after.lexemes = .ident x :: rs := by
  obtain ⟨t, after, s, ht, hl, ha⟩ := take_of_lexemes k.fin hc
  rw [parse, ht, ParseResult.bind, hl]
  cases hx with
  | plain =>
    rw [pass?_eq_none (c := after) (by rw [ha]; simp)]
    exact ⟨t.pos, after, s, rfl, ha⟩
  | dollar =>
    obtain ⟨after₂, s₂, hp, ha₂⟩ := pass?_eq_some ha
    simp only [hp]
    exact ⟨t.pos, after₂, by omega, rfl, ha₂⟩

theorem meets_parse_declare {x : String} {e : Term} (hx : Named ts x) (he : e.Written .sum us)
    (hs : scope.Sees k.tree names)
    (hc : c.lexemes = .keyword .var :: ts ++ (.mark .assign :: us ++ .mark .semicolon :: rs)) :
    (parse k scope c).Meets (scope.FitsStatement names (.declare x e))
      (ReadAs names scope (.declare x e) rs) := by
  obtain ⟨pos, after, h, hparse, ha⟩ := parse_of_var k scope hx hc
  rw [hparse]
  refine ((meets_ident k.fin ha).behind _).bind_true ?_
  rintro ⟨y, _⟩ after₂ s₂ ⟨rfl, ha₂⟩
  refine ((meets_expect k.fin ha₂).behind _).bind_true ?_
  intro _ after₃ s₃ ha₃
  -- the variable is counted behind its value
  have hfits : scope.Fits names e ∧ scope.slots < Scope.limit ↔
      scope.FitsStatement names (.declare y e) := by
    rw [hs.slots, Scope.FitsStatement, Scope.Fits, Statement.valid_declare, and_assoc]
    rfl
  refine Meets.congr ((meets_parseValue _ he hs ha₃).bind ?_) hfits
  rintro - ⟨value, scope'⟩ after₄ s₄ ⟨hemit, rfl, ha₄⟩
  dsimp only at hemit ⊢
  split
  · next hlt =>
    refine ⟨hlt, ?_, rfl, ha₄⟩
    intro b
    rw [emit, hemit, Statement.emit, Statement.closing, ← hs.slots]
    rfl
  · next hlt => exact hlt

theorem meets_parse_assign {x : String} {e : Term} (hx : Named ts x) (he : e.Written .sum us)
    (hs : scope.Sees k.tree names)
    (hc : c.lexemes = ts ++ (.mark .assign :: us ++ .mark .semicolon :: rs)) :
    (parse k scope c).Meets (scope.FitsStatement names (.assign x e))
      (ReadAs names scope (.assign x e) rs) := by
  obtain ⟨pos, after, h, hparse, -, ha⟩ := parse_of_named k scope hx hc
  obtain ⟨after₂, s₂, hp, ha₂⟩ := pass?_eq_some ha
  -- the variable has to be there before its value is read
  have hfits : scope.Fits names e ∧ (scope.locals.lookup x).isSome ↔
      scope.FitsStatement names (.assign x e) := by
    rw [hs.fitsStatement_iff rfl, Statement.valid_assign, hs.locals, Naming.slot?_isSome_iff,
      Scope.Fits, and_right_comm]
    rfl
  rw [hparse, parseNamed]
  simp only [hp]
  refine Meets.congr ?_ hfits
  split
  · next hx =>
    intro h
    simp [hx] at h
  · next slot hx =>
    refine (meets_parseValue _ he hs ha₂).bind ?_
    rintro - ⟨value, scope'⟩ after₃ s₃ ⟨hemit, rfl, ha₃⟩
    refine ⟨by rw [hx]; rfl, ?_, rfl, ha₃⟩
    intro b
    dsimp only at hemit ⊢
    rw [emit, hemit, Statement.emit, Statement.closing, ← hs.locals, hx]
    rfl

theorem meets_parse_result {e : Term} (he : e.Written .sum ts) (hs : scope.Sees k.tree names)
    (hc : c.lexemes = .keyword .returns :: (ts ++ .mark .semicolon :: rs)) :
    (parse k scope c).Meets (scope.FitsStatement names (.result e))
      (ReadAs names scope (.result e) rs) := by
  obtain ⟨t, after, s, ht, hl, ha⟩ := take_of_lexemes k.fin hc
  rw [parse, ht, ParseResult.bind, hl, hs.fitsStatement_iff rfl, Statement.valid_result]
  refine (meets_parseValue _ he hs ha).bind_then ?_
  rintro - ⟨value, scope'⟩ after₂ s₂ ⟨hemit, rfl, ha₂⟩
  refine ⟨trivial, ?_, rfl, ha₂⟩
  intro b
  dsimp only at hemit ⊢
  rw [emit, hemit, Statement.emit, Statement.closing]
  rfl

theorem meets_parse_evaluate {x : String} {e : Term} (hx : Named ts x)
    (he : e.Written .sum (ts ++ us)) (hs : scope.Sees k.tree names)
    (hc : c.lexemes = ts ++ (us ++ .mark .semicolon :: rs)) :
    (parse k scope c).Meets (scope.FitsStatement names (.evaluate e))
      (ReadAs names scope (.evaluate e) rs) := by
  obtain ⟨pos, after, h, hparse, hfactor, ha⟩ := parse_of_named k scope hx hc
  -- no expression goes on with `=`, so this is not an assignment
  have hnot : Lexeme.mark .assign ∉ us :=
    fun hus => he.assign_not_mem (List.mem_append_right ts hus)
  have hne : after.lexemes.head? ≠ some (.mark .assign) := by
    rw [ha]
    cases us with
    | nil =>
      intro h
      cases h
    | cons u us =>
      rintro ⟨⟩
      exact hnot List.mem_cons_self
  rw [hparse, parseNamed_of_ne_assign h hne hfactor, hs.fitsStatement_iff rfl,
    Statement.valid_evaluate]
  refine (meets_parseValue _ he hs (by rw [hc, List.append_assoc])).bind_then ?_
  rintro - ⟨value, scope'⟩ after₂ s₂ ⟨hemit, rfl, ha₂⟩
  refine ⟨trivial, ?_, rfl, ha₂⟩
  intro b
  dsimp only at hemit ⊢
  rw [emit, hemit, Statement.emit, Statement.closing]
  rfl

/-- A statement that is spelled is read, if it keeps the rules and there is room. -/
theorem meets_parse {s : Statement} (hw : s.Written ts) (hs : scope.Sees k.tree names)
    (hc : c.lexemes = ts ++ rs) :
    (parse k scope c).Meets (scope.FitsStatement names s) (ReadAs names scope s rs) := by
  cases hw with
  | declare hx he => exact meets_parse_declare hx he hs (by simpa using hc)
  | assign hx he => exact meets_parse_assign hx he hs (by simpa using hc)
  | result he => exact meets_parse_result he hs (by simpa using hc)
  | evaluate hx he => exact meets_parse_evaluate hx he hs (by simpa using hc)

/-- The statements of a body are read one after the other. -/
theorem meets_parseBody {body : List (List Lexeme × Statement)} (hw : ∀ s ∈ body, s.2.Written s.1)
    (read : List ScriptStatement) {start : Cursor} (h : c.rest.length ≤ start.rest.length)
    (hs : scope.Sees k.tree names)
    (hc : c.lexemes = (body.map (·.1)).flatten ++ .mark .closeBrace :: rs) :
    (parseBody k scope read c start h).Meets (scope.FitsBody names (body.map (·.2)))
      fun r after => ∃ more, r.1 = read.reverse ++ more ∧
        (∀ b, more.foldl emit b = Statement.emitAll names (body.map (·.2)) b) ∧
        r.2.slots = Statement.slots names (body.map (·.2)) ∧ after.lexemes = rs := by
  induction body generalizing names scope read c with
  | nil =>
    obtain ⟨after, s, hp, ha⟩ := pass?_eq_some hc
    rw [parseBody]
    simp only [hp]
    refine ⟨⟨trivial, ⟨hs.ints, hs.texts⟩, ?_⟩, [], by simp, fun _ => rfl, hs.slots, ha⟩
    rw [List.map_nil, Statement.slots, ← hs.slots]
    exact hs.bounded
  | cons first body ih =>
    obtain ⟨ts, s⟩ := first
    obtain ⟨hfirst, hrest⟩ := List.forall_mem_cons.1 hw
    obtain ⟨l, ls, rfl, hl⟩ := hfirst.begins
    rw [List.map_cons, List.flatten_cons, List.append_assoc] at hc
    have hp := meets_parse hfirst hs hc
    rw [parseBody, pass?_eq_none (by rw [hc]; simpa using hl), List.map_cons, Scope.fitsBody_cons]
    dsimp only
    split
    · next hq =>
      intro h
      exact hp.of_stopped hq h.1
    next statement scope' after s' hq =>
    obtain ⟨hfit, hemit, rfl, ha⟩ := hp.of_parsed hq
    refine (ih hrest (statement :: read) (by omega) (hs.behind hfit) ha).imp
      ⟨fun h => ⟨hfit, h⟩, And.right⟩ ?_
    rintro - r after₂ ⟨more, hr, hmore, hslots, ha₂⟩
    refine ⟨statement :: more, by simp [hr], ?_, hslots, ha₂⟩
    intro b
    rw [List.foldl_cons, hmore, hemit]
    rfl

end ScriptStatement

/-! ## Functions -/

namespace Function

/-- Parameters are read one after the other; no name comes twice. -/
theorem meets_parseParams {params : List String} (hne : params ≠ []) (read : List String)
    {start : Cursor} (h : c.rest.length ≤ start.rest.length)
    (hc : c.lexemes = commas (params.map fun x => [.ident x]) ++ .mark .closeParen :: rs) :
    (parseParams k read c start h).Meets (params.Nodup ∧ ∀ x ∈ params, x ∉ read)
      fun r after => r = read.reverse ++ params ∧ after.lexemes = rs := by
  induction params generalizing read c with
  | nil => exact absurd rfl hne
  | cons x params ih =>
    rw [parseParams]
    have hfirst : ∃ ls, c.lexemes = .ident x :: ls := by
      cases params <;> exact ⟨_, hc⟩
    obtain ⟨ls, hls⟩ := hfirst
    obtain ⟨⟨y, pos⟩, after, s, hi, rfl, ha⟩ := (meets_ident k.fin hls).exists_parsed
    simp only [hi]
    by_cases hmem : y ∈ read
    · rw [if_pos (by simpa using hmem)]
      intro h
      exact h.2 y (by simp) hmem
    rw [if_neg (by simpa using hmem)]
    cases params with
    | nil =>
      obtain rfl : ls = .mark .closeParen :: rs := by simpa [hls] using hc
      rw [pass?_eq_none (by rw [ha]; simp)]
      have hok : True ↔ [y].Nodup ∧ ∀ x ∈ [y], x ∉ read := by simp [hmem]
      refine (((meets_expect k.fin ha).weaken _).bind_true ?_).congr hok
      intro _ after₂ s₂ ha₂
      exact ⟨trivial, by simp, ha₂⟩
    | cons z params =>
      obtain rfl : ls = .mark .comma :: (commas ((z :: params).map fun x => [.ident x]) ++
          .mark .closeParen :: rs) := by simpa [hls] using hc
      obtain ⟨after₂, s₂, hp, ha₂⟩ := pass?_eq_some ha
      simp only [hp]
      refine (ih (by simp) (y :: read) (by omega) ha₂).imp ?_ ?_
      · simp only [List.nodup_cons, List.mem_cons, not_or]
        grind
      · rintro - r after₃ ⟨rfl, ha₃⟩
        exact ⟨by simp, ha₃⟩

theorem declared_iff (hd : k.tree.Declares names) (x : String) :
    k.tree.functions.any (·.name == x) = true ↔ x ∈ names.functions.map (·.1) := by
  rw [hd.functions, Array.any_eq_true']
  simp

/-- The rules on a function, in the order in which they are checked. -/
theorem valid_iff {f : Source.Function} :
    (f.name ∉ names.functions.map (·.1) ∧ f.params.Nodup ∧
      Scope.FitsBody { params := f.params } (names.enter f.params) f.body) ↔ f.Valid names := by
  simp only [Scope.FitsBody, Scope.Room, Nat.zero_add]
  constructor
  · rintro ⟨hf, hp, hb, ⟨hi, ht⟩, hv⟩
    exact ⟨hf, hp, hb, hv, hi, ht⟩
  · intro h
    exact ⟨h.fresh, h.params, h.body, ⟨h.ints, h.texts⟩, h.slots⟩

/-- A function that is spelled is read, if it keeps the rules. -/
theorem meets_parse {f : Source.Function} (hw : f.Written ts) (hd : k.tree.Declares names)
    (hc : .keyword .function :: c.lexemes = ts ++ rs) :
    (parse k c).Meets (f.Valid names)
      fun g after => (∀ i, g.method i = f.method names i) ∧
        (g.name, g.params) = (f.name, f.params) ∧ after.lexemes = rs := by
  obtain ⟨name, params, hb⟩ := hw
  rename_i body
  simp only [List.cons_append, List.append_assoc, List.cons.injEq, true_and] at hc
  refine Meets.congr ?_ valid_iff
  dsimp only
  refine (meets_ident k.fin hc).bind_true ?_
  rintro ⟨x, pos⟩ after s ⟨rfl, ha⟩
  dsimp only
  split
  · next hany =>
    intro h
    exact h.1 ((declared_iff hd _).1 hany)
  next hany =>
  rw [and_iff_right (mt (declared_iff hd _).2 hany)]
  refine ((meets_expect k.fin ha).behind _).bind_true ?_
  intro _ after₂ s₂ ha₂
  refine Meets.bind (Q := fun r after => r = params ∧
    after.lexemes = .mark .openBrace ::
      ((body.map (·.1)).flatten ++ .mark .closeBrace :: rs)) ?_ ?_
  -- without a parameter the closing parenthesis is next
  · cases params with
    | nil =>
      obtain ⟨after₃, s₃, hp, ha₃⟩ := pass?_eq_some ha₂
      simp only [hp]
      exact ⟨List.nodup_nil, rfl, ha₃⟩
    | cons y params =>
      rw [pass?_eq_none (by rw [ha₂]; cases params <;> simp)]
      refine (meets_parseParams (by simp) [] _ ha₂).imp ?_ ?_
      · simp
      · rintro - r after₃ ⟨rfl, ha₃⟩
        exact ⟨rfl, ha₃⟩
  rintro - _ after₃ s₃ ⟨rfl, ha₃⟩
  refine ((meets_expect k.fin ha₃).behind _).bind_true ?_
  intro _ after₄ s₄ ha₄
  refine (ScriptStatement.meets_parseBody hb [] (by omega) (Scope.Sees.enter hd _) ha₄).bind_then ?_
  rintro - ⟨statements, scope⟩ after₅ s₅ ⟨more, hr, hemit, hslots, ha₅⟩
  obtain rfl : statements = more := hr
  refine ⟨trivial, ?_, rfl, ha₅⟩
  intro i
  rw [method, Source.Function.method, hemit]
  dsimp only at hslots ⊢
  rw [hslots]

end Function

end ScriptFuzz
