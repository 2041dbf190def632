import Mathlib.Data.List.Intervals
import ScriptFuzz.Proofs.Expressions.Renumbering
import ScriptFuzz.Proofs.Expressions.RoundTrip
import ScriptFuzz.Proofs.Expressions.Tags

/-!
# One source, many calls

A source is read by calls, each of which goes on where the one before has stopped, whether that gave
something or not. The expressions that all of them give have different numbers: in the order in
which they are completed, the numbers increase.

- `Expr.postorder`: an expression and all its parts, in the order in which they are completed.
- `Expr.InsideFuzz`: whether a part lies inside a fuzzed sequence.
- `ExprCall`, `ExprAnswer`: the calls, and what they give.
- `ExprAnswer.Tagged`: what the tags in the answers are.
- `Cursor.fuzzDepth_call`: a call leaves the fuzzed sequences that it has entered.
- `answers_tagged`: the tags in the answers to any calls. A call is answered like a first one on the
  tokens that are left, up to numbers, so no call has an influence on the tags of a later one.
-/

namespace ScriptFuzz

open Cursor ParseResult

/-! ## The parts of an expression -/

namespace Expr

mutual

/-- The parts of an expression in the order in which they are completed, without itself. -/
def nested : Expr → List Expr
  | .type _ _ | .constant _ _ _ | .reference _ _ | .property _ _ _ | .vector _ _ _ _ => []
  | .sequence _ items | .fuzz _ items => postorderAll items

/-- Expressions with their parts, in the order in which they are completed. -/
def postorderAll : List Expr → List Expr
  | [] => []
  | e :: es => e.nested ++ [e] ++ postorderAll es

end

/-- An expression behind its parts. -/
def postorder (e : Expr) : List Expr := e.nested ++ [e]

/-- The expression `x` is a part of a fuzzed sequence that is `e` or a part of it. -/
def InsideFuzz (x e : Expr) : Prop :=
  ∃ tag items, .fuzz tag items ∈ e.postorder ∧ x ∈ (Expr.fuzz tag items).nested

theorem postorderAll_eq (es : List Expr) : postorderAll es = es.flatMap postorder := by
  induction es with
  | nil => rfl
  | cons e es ih => rw [postorderAll, ih, List.flatMap_cons, postorder]

theorem mem_postorderAll {x : Expr} {es : List Expr} :
    x ∈ postorderAll es ↔ ∃ e ∈ es, x ∈ e.postorder := by
  rw [postorderAll_eq, List.mem_flatMap]

theorem mem_postorder {x e : Expr} : x ∈ e.postorder ↔ x ∈ e.nested ∨ x = e := by
  rw [postorder, List.mem_append, List.mem_singleton]

theorem mem_postorder_self (e : Expr) : e ∈ e.postorder := mem_postorder.2 (.inr rfl)

mutual

/-- The numbers of an expression and its parts leave no gap. -/
theorem Tagged.ids : ∀ {e : Expr} {inFuzz : Bool} {n m : Nat}, e.Tagged inFuzz n m →
    n < m ∧ e.postorder.map (·.tag.id) = List.Ico n m
  | .type _ _, _, n, _, .type _ _ _ | .constant _ _ _, _, n, _, .constant _ _ _ _
  | .reference _ _, _, n, _, .reference _ _ _ | .property _ _ _, _, n, _, .property _ _ _ _
  | .vector _ _ _ _, _, n, _, .vector _ _ _ _ _ =>
    ⟨Nat.lt_succ_self n, List.Ico.succ_singleton.symm⟩
  | .sequence _ items, _, n, _, .sequence h | .fuzz _ items, _, n, _, .fuzz h => by
    obtain ⟨hle, hids⟩ := AllTagged.ids h
    refine ⟨Nat.lt_succ_of_le hle, ?_⟩
    rw [List.Ico.succ_top hle, ← hids, postorder, nested, List.map_append]
    rfl

theorem AllTagged.ids : ∀ {es : List Expr} {inFuzz : Bool} {n m : Nat}, AllTagged inFuzz n m es →
    n ≤ m ∧ (postorderAll es).map (·.tag.id) = List.Ico n m
  | [], _, n, _, .nil _ _ => ⟨Nat.le_refl n, List.Ico.self_empty.symm⟩
  | e :: es, _, n, m, .cons he h => by
    obtain ⟨hlt, hids⟩ := Tagged.ids he
    obtain ⟨hle, hids'⟩ := AllTagged.ids h
    refine ⟨Nat.le_of_lt (Nat.lt_of_lt_of_le hlt hle), ?_⟩
    rw [← List.Ico.append_consecutive (Nat.le_of_lt hlt) hle, ← hids, ← hids', ← List.map_append]
    rfl

end

variable {inFuzz : Bool} {n m k : Nat} {e x : Expr} {es fs : List Expr}

theorem AllTagged.append (h : AllTagged inFuzz n k es) (h' : AllTagged inFuzz k m fs) :
    AllTagged inFuzz n m (es ++ fs) := by
  induction es generalizing n with
  | nil =>
    cases h
    exact h'
  | cons e es ih =>
    cases h with | cons he h =>
    exact .cons he (ih h)

/-- Each of the expressions is tagged. -/
theorem AllTagged.of_mem (h : AllTagged inFuzz n m es) (he : e ∈ es) :
    ∃ n' m', e.Tagged inFuzz n' m' := by
  induction es generalizing n with
  | nil => cases he
  | cons e' es ih =>
    cases h with | cons he' h =>
    rcases List.mem_cons.1 he with rfl | he
    · exact ⟨_, _, he'⟩
    · exact ih h he

theorem Tagged.fuzzy (h : e.Tagged inFuzz n m) : e.tag.fuzzy = inFuzz := by
  cases h <;> rfl

/-- A part of a tagged expression is tagged, and lies inside a fuzzed sequence if that does. -/
theorem Tagged.of_mem : ∀ {e : Expr} {inFuzz : Bool} {n m : Nat}, e.Tagged inFuzz n m →
    x ∈ e.postorder → ∃ inner n' m', x.Tagged inner n' m' ∧ (inFuzz = true → inner = true) := by
  intro e inFuzz n m h hx
  rcases mem_postorder.1 hx with hx | rfl
  case inr => exact ⟨inFuzz, n, m, h, id⟩
  -- a part of a sequence is a part of one of its items, which is tagged as well
  cases h with
  | @sequence _ _ k items h =>
    obtain ⟨item, hitem, hx⟩ := mem_postorderAll.1 hx
    obtain ⟨_, _, hitem'⟩ := h.of_mem hitem
    exact hitem'.of_mem hx
  | @fuzz _ k items h =>
    obtain ⟨item, hitem, hx⟩ := mem_postorderAll.1 hx
    obtain ⟨_, _, hitem'⟩ := h.of_mem hitem
    obtain ⟨inner, n', m', hinner, -⟩ := hitem'.of_mem hx
    exact ⟨inner, n', m', hinner, Bool.noConfusion⟩
  | _ => cases hx
termination_by e => sizeOf e

/-- What lies inside a fuzzed sequence is marked. -/
theorem Tagged.fuzzy_of_inside (h : e.Tagged inFuzz n m) (hx : x.InsideFuzz e) :
    x.tag.fuzzy = true := by
  obtain ⟨tag, items, hfuzz, hx⟩ := hx
  obtain ⟨_, _, _, hfuzz, -⟩ := h.of_mem hfuzz
  cases hfuzz with | fuzz hitems =>
  obtain ⟨item, hitem, hx⟩ := mem_postorderAll.1 hx
  obtain ⟨_, _, hitem⟩ := hitems.of_mem hitem
  obtain ⟨inner, _, _, hx, hinner⟩ := hitem.of_mem hx
  rw [hx.fuzzy, hinner rfl]

/-- What is marked lies inside a fuzzed sequence, if the whole does not. -/
theorem Tagged.inside_of_fuzzy : ∀ {e : Expr} {n m : Nat}, e.Tagged false n m → x ∈ e.postorder →
    x.tag.fuzzy = true → x.InsideFuzz e := by
  intro e n m h hx hfuzzy
  rcases mem_postorder.1 hx with hx | rfl
  case inr =>
    rw [h.fuzzy] at hfuzzy
    cases hfuzzy
  cases h with
  | @sequence _ _ k items h =>
    obtain ⟨item, hitem, hx⟩ := mem_postorderAll.1 hx
    obtain ⟨_, _, hitem'⟩ := h.of_mem hitem
    obtain ⟨tag, parts, hfuzz, hx⟩ := hitem'.inside_of_fuzzy hx hfuzzy
    exact ⟨tag, parts, mem_postorder.2 (.inl (mem_postorderAll.2 ⟨item, hitem, hfuzz⟩)), hx⟩
  | fuzz => exact ⟨_, _, mem_postorder_self _, hx⟩
  | _ => cases hx
termination_by e => sizeOf e

end Expr

/-! ## Statements -/

namespace ExprStatement

/-- The expressions of a statement, in the order in which they are read. -/
def trees : ExprStatement → List Expr
  | declaration _ value => [value]
  | output values => values
  | input layout _ => [layout]

variable {fin : Position} {c start : Cursor}

theorem gives_tagged_output (read : List Expr) (c start : Cursor)
    (h : c.rest.length ≤ start.rest.length) :
    (parseOutput fin read c start h).Gives fun s after =>
      ∃ values, s = .output (read.reverse ++ values) ∧
        Expr.AllTagged c.inFuzz c.nextId after.nextId values := by
  rw [parseOutput]
  split
  · refine ((takes_expect fin _).weaken h).gives_bind ?_
    intro _ rest s
    exact ⟨[], by simp, .nil _ _⟩
  next after shorter houtput =>
  split
  · trivial
  next value after₂ shorter₂ hvalue =>
  refine (gives_tagged_output (value :: read) after₂ start (by omega)).imp ?_
  rintro _ after₃ ⟨values, rfl, hvalues⟩
  have hfirst := Expr.tagged_of_parse hvalue
  rw [inFuzz_congr ((Expr.keeps_parse fin after).of_parsed hvalue)] at hvalues
  rw [nextId_of_pass? houtput] at hfirst
  rw [inFuzz_of_pass? houtput] at hfirst hvalues
  exact ⟨value :: values, by simp, .cons hfirst hvalues⟩
termination_by c.rest.length

theorem gives_tagged (c : Cursor) :
    (parse fin c).Gives fun s after =>
      Expr.AllTagged c.inFuzz c.nextId after.nextId s.trees := by
  rw [parse]
  split
  · trivial
  next t hhead =>
  split
  · refine (takes_variableName fin).gives_bind ?_
    rintro ⟨name, _⟩ rest₁ s₁
    refine ((takes_expect fin _).behind s₁).gives_bind ?_
    intro _ rest₂ s₂
    refine ((Expr.gives_tagged fin { c with rest := rest₂ }).behind s₂).bind ?_
    intro value after₃ s₃ h₃
    refine ((takes_expect fin _).behind s₃).gives_bind ?_
    intro _ rest₄ s₄
    exact .cons h₃ (.nil _ _)
  · refine (gives_tagged_output [] c c _).imp ?_
    rintro _ after ⟨values, rfl, hvalues⟩
    exact hvalues
  · refine (Expr.gives_tagged fin c).bind ?_
    intro layout after₁ s₁ h₁
    refine ((takes_expect fin _).behind s₁).gives_bind ?_
    intro _ rest₂ s₂
    refine ((takes_variableName fin).behind s₂).gives_bind ?_
    rintro ⟨name, _⟩ rest₃ s₃
    refine ((takes_expect fin _).behind s₃).gives_bind ?_
    intro _ rest₄ s₄
    exact .cons h₁ (.nil _ _)
  · trivial

/-- The expressions of all statements are numbered one after the other. -/
theorem tagged_of_parseAll (read : List ExprStatement) (c : Cursor) {ss : List ExprStatement}
    {after : Cursor} (h : parseAll fin read c = (.ok ss, after)) :
    ∃ statements, ss = read.reverse ++ statements ∧
      Expr.AllTagged c.inFuzz c.nextId after.nextId (statements.flatMap trees) := by
  rw [parseAll] at h
  split at h
  · cases h
    exact ⟨[], by simp, .nil _ _⟩
  split at h
  · cases h
  next statement after₁ shorter hs =>
  obtain ⟨statements, rfl, hall⟩ := tagged_of_parseAll (statement :: read) after₁ h
  refine ⟨statement :: statements, by simp, ?_⟩
  rw [inFuzz_congr ((keeps_parse fin c).of_parsed hs)] at hall
  rw [List.flatMap_cons]
  exact ((gives_tagged c).of_parsed hs).append hall
termination_by c.rest.length

end ExprStatement

/-! ## Calls -/

/-- What can be asked for: an expression, a statement, or all statements that are left. -/
inductive ExprCall where
  | expression
  | statement
  | statements
deriving DecidableEq, Repr

/-- What a call gives. -/
inductive ExprAnswer where
  | expression (e : Expr)
  | statement (s : ExprStatement)
  | statements (ss : List ExprStatement)
  | refused (d : Diagnostic)

namespace ExprAnswer

/-- The expressions in an answer, in the order in which they were read. -/
def trees : ExprAnswer → List Expr
  | expression e => [e]
  | statement s => s.trees
  | statements ss => ss.flatMap ExprStatement.trees
  | refused _ => []

/-- An answer with numbers that are higher by `n`. -/
def raise (n : Nat) : ExprAnswer → ExprAnswer
  | expression e => expression (e.raise n)
  | statement s => statement (s.raise n)
  | statements ss => statements (ss.map (ExprStatement.raise n))
  | refused d => refused d

end ExprAnswer

namespace ParseResult

variable {α : Type} {start : Cursor} {n : Nat}

/-- The answer that a result is, and where the next call goes on. -/
def answer (f : α → ExprAnswer) : ParseResult α start → ExprAnswer × Cursor
  | parsed value after _ => (f value, after)
  | stopped d after => (.refused d, after)

theorem answer_snd (f : α → ExprAnswer) (o : ParseResult α start) : (o.answer f).2 = o.after := by
  cases o <;> rfl

theorem answer_raise (f : α → ExprAnswer) (g : α → α) (h : ∀ v, f (g v) = (f v).raise n)
    (o : ParseResult α start) :
    (o.raise n g).answer f = ((o.answer f).1.raise n, (o.answer f).2.raise n) := by
  cases o with
  | parsed value after shorter => exact Prod.ext (h value) rfl
  | stopped d after => rfl

/-- If what is read is tagged from `c` on, then so is the answer. -/
theorem exists_tagged_answer {f : α → ExprAnswer} {o : ParseResult α start} {c : Cursor}
    (h : o.Gives fun v after => Expr.AllTagged c.inFuzz c.nextId after.nextId (f v).trees)
    (hle : c.nextId ≤ (o.answer f).2.nextId) :
    ∃ m ≤ (o.answer f).2.nextId, Expr.AllTagged c.inFuzz c.nextId m (o.answer f).1.trees := by
  cases o with
  | parsed value after shorter => exact ⟨after.nextId, Nat.le_refl _, h⟩
  | stopped d after => exact ⟨c.nextId, hle, .nil _ _⟩

end ParseResult

namespace Cursor

/-- The answer to a call, and where the next call goes on. -/
def call (fin : Position) (c : Cursor) : ExprCall → ExprAnswer × Cursor
  | .expression => (Expr.parse fin c).answer .expression
  | .statement => (ExprStatement.parse fin c).answer .statement
  | .statements =>
    match ExprStatement.parseAll fin [] c with
    | (.ok ss, after) => (.statements ss, after)
    | (.error d, after) => (.refused d, after)

/-- The answers to calls, one after the other. -/
def answers (fin : Position) (c : Cursor) : List ExprCall → List ExprAnswer
  | [] => []
  | call :: calls => (c.call fin call).1 :: (c.call fin call).2.answers fin calls

/-- Where calls have led. -/
def afterCalls (fin : Position) (c : Cursor) (calls : List ExprCall) : Cursor :=
  calls.foldl (fun c call => (c.call fin call).2) c

variable {fin : Position} {n : Nat}

/-- If counting starts higher by `n`, then a call is answered with numbers that are higher by `n`.
-/
theorem call_raise (c : Cursor) (call : ExprCall) :
    (c.raise n).call fin call =
      ((c.call fin call).1.raise n, (c.call fin call).2.raise n) := by
  cases call with
  | expression =>
    rw [Cursor.call, Expr.parse_raise]
    exact answer_raise ExprAnswer.expression (Expr.raise n) (fun _ => rfl) _
  | statement =>
    rw [Cursor.call, ExprStatement.parse_raise]
    exact answer_raise ExprAnswer.statement (ExprStatement.raise n) (fun _ => rfl) _
  | statements =>
    have h : ExprStatement.parseAll fin [] (c.raise n) = _ := ExprStatement.parseAll_raise [] c
    rw [Cursor.call, Cursor.call, h]
    obtain ⟨ss | d, after⟩ := ExprStatement.parseAll fin [] c <;> rfl

theorem answers_raise (c : Cursor) (calls : List ExprCall) :
    (c.raise n).answers fin calls = (c.answers fin calls).map (ExprAnswer.raise n) := by
  induction calls generalizing c with
  | nil => rfl
  | cons call calls ih => rw [answers, answers, call_raise, List.map_cons, ih]

theorem answers_append (c : Cursor) (calls later : List ExprCall) :
    c.answers fin (calls ++ later) =
      c.answers fin calls ++ (c.afterCalls fin calls).answers fin later := by
  induction calls generalizing c with
  | nil => rfl
  | cons call calls ih =>
    rw [List.cons_append, answers, answers, ih, List.cons_append]
    rfl

/-- Any cursor is one from which counting starts at zero, raised. -/
theorem eq_raise (c : Cursor) : c = Cursor.raise c.nextId { c with nextId := 0 } := by
  rw [raise, Nat.zero_add]

/-- Counting never goes back, whatever the answer is: it goes on from a number that is higher by
what it has started with. -/
theorem nextId_le_call (fin : Position) (c : Cursor) (call : ExprCall) :
    c.nextId ≤ (c.call fin call).2.nextId := by
  have h : (Cursor.raise c.nextId { c with nextId := 0 }).call fin call = _ := call_raise _ call
  rw [← eq_raise] at h
  rw [h]
  exact Nat.le_add_left _ _

/-- Every call gives the depth back, whatever the answer is and wherever reading has stopped. -/
theorem fuzzDepth_call (fin : Position) (c : Cursor) (call : ExprCall) :
    (c.call fin call).2.fuzzDepth = c.fuzzDepth := by
  cases call with
  | expression => rw [Cursor.call, answer_snd, Expr.keeps_parse]
  | statement => rw [Cursor.call, answer_snd, ExprStatement.keeps_parse]
  | statements =>
    rw [Cursor.call, ← ExprStatement.keeps_parseAll fin [] c]
    split
    · next hss => rw [hss]
    · next hd => rw [hd]

theorem fuzzDepth_afterCalls (fin : Position) (c : Cursor) (calls : List ExprCall) :
    (c.afterCalls fin calls).fuzzDepth = c.fuzzDepth := by
  induction calls generalizing c with
  | nil => rfl
  | cons call calls ih => exact (ih _).trans (fuzzDepth_call fin c call)

/-- The expressions in an answer are numbered one after the other, from the number on from which
the call counts. -/
theorem exists_tagged (fin : Position) (c : Cursor) (call : ExprCall) :
    ∃ m ≤ (c.call fin call).2.nextId,
      Expr.AllTagged c.inFuzz c.nextId m (c.call fin call).1.trees := by
  have hle := c.nextId_le_call fin call
  cases call with
  | expression =>
    refine exists_tagged_answer ?_ hle
    exact (Expr.gives_tagged fin c).imp fun e after h => .cons h (.nil _ _)
  | statement => exact exists_tagged_answer (ExprStatement.gives_tagged c) hle
  | statements =>
    rw [Cursor.call] at hle ⊢
    split
    · next ss after hss =>
      obtain ⟨statements, rfl, h⟩ := ExprStatement.tagged_of_parseAll [] c hss
      exact ⟨after.nextId, Nat.le_refl _, h⟩
    · next d after hd =>
      rw [hd] at hle
      exact ⟨c.nextId, hle, .nil _ _⟩

end Cursor

/-! ## The tags in the answers -/

/-- What the tags in answers are. -/
structure ExprAnswer.Tagged (answers : List ExprAnswer) : Prop where
  /-- No two expressions have the same number. -/
  distinct : (((answers.flatMap trees).flatMap Expr.postorder).map (·.tag.id)).Nodup
  /-- In an expression the numbers increase from part to part, and to the whole. -/
  postorder : ∀ e ∈ answers.flatMap trees, e.postorder.Pairwise fun x y => x.tag.id < y.tag.id
  /-- The numbers in a later answer are higher. -/
  later : answers.Pairwise fun earlier later => ∀ e ∈ earlier.trees, ∀ e' ∈ later.trees,
    ∀ x ∈ e.postorder, ∀ y ∈ e'.postorder, x.tag.id < y.tag.id
  /-- What is marked lies inside a fuzzed sequence of its own expression, and conversely. -/
  fuzzy : ∀ e ∈ answers.flatMap trees, ∀ x ∈ e.postorder, x.tag.fuzzy = true ↔ x.InsideFuzz e

namespace Cursor

variable {fin : Position}

/-- The numbers in the answers increase, and start at the number from which the calls count. -/
theorem pairwise_answers (fin : Position) (c : Cursor) (calls : List ExprCall) :
    (((c.answers fin calls).flatMap ExprAnswer.trees).flatMap Expr.postorder).Pairwise
        (fun x y => x.tag.id < y.tag.id) ∧
      ∀ x ∈ ((c.answers fin calls).flatMap ExprAnswer.trees).flatMap Expr.postorder,
        c.nextId ≤ x.tag.id := by
  induction calls generalizing c with
  | nil => exact ⟨.nil, fun x hx => absurd hx List.not_mem_nil⟩
  | cons call calls ih =>
    obtain ⟨hrest, hle⟩ := ih (c.call fin call).2
    obtain ⟨m, hm, htagged⟩ := c.exists_tagged fin call
    obtain ⟨-, hids⟩ := htagged.ids
    rw [Expr.postorderAll_eq] at hids
    have hfirst : ((c.call fin call).1.trees.flatMap Expr.postorder).Pairwise
        fun x y => x.tag.id < y.tag.id := by
      rw [← List.pairwise_map, hids]
      exact List.Ico.pairwise_lt _ _
    have hbounds : ∀ x ∈ (c.call fin call).1.trees.flatMap Expr.postorder,
        c.nextId ≤ x.tag.id ∧ x.tag.id < m := by
      intro x hx
      rw [← List.Ico.mem, ← hids]
      exact List.mem_map_of_mem hx
    -- the first answer has the numbers below `m`, and the others those from `m` on
    rw [answers, List.flatMap_cons, List.flatMap_append]
    refine ⟨List.pairwise_append.2 ⟨hfirst, hrest, ?_⟩, ?_⟩
    · intro x hx y hy
      exact Nat.lt_of_lt_of_le (hbounds x hx).2 (Nat.le_trans hm (hle y hy))
    · intro x hx
      rcases List.mem_append.1 hx with hx | hx
      · exact (hbounds x hx).1
      · exact Nat.le_trans (c.nextId_le_call fin call) (hle x hx)

/-- The expressions in the answers are tagged, and lie inside of no fuzzed sequence themselves if
the first call does not. -/
theorem tagged_of_mem_answers {c : Cursor} {calls : List ExprCall} {e : Expr}
    (he : e ∈ (c.answers fin calls).flatMap ExprAnswer.trees) : ∃ n m, e.Tagged c.inFuzz n m := by
  induction calls generalizing c with
  | nil => cases he
  | cons call calls ih =>
    rw [answers, List.flatMap_cons] at he
    rcases List.mem_append.1 he with he | he
    · obtain ⟨m, -, htagged⟩ := c.exists_tagged fin call
      exact htagged.of_mem he
    · rw [← inFuzz_congr (fuzzDepth_call fin c call)]
      exact ih he

theorem tagged_answers (c : Cursor) (hc : c.fuzzDepth = 0) (fin : Position)
    (calls : List ExprCall) : ExprAnswer.Tagged (c.answers fin calls) := by
  obtain ⟨hpairwise, -⟩ := c.pairwise_answers fin calls
  have hboth := List.pairwise_flatMap.1 hpairwise
  refine { distinct := ?distinct, postorder := hboth.1, later := ?later, fuzzy := ?fuzzy }
  case distinct =>
    rw [List.Nodup, List.pairwise_map]
    exact hpairwise.imp Nat.ne_of_lt
  case later => exact (List.pairwise_flatMap.1 hboth.2).2
  case fuzzy =>
    intro e he x hx
    obtain ⟨n, m, h⟩ := tagged_of_mem_answers he
    rw [inFuzz, hc] at h
    exact ⟨h.inside_of_fuzzy hx, h.fuzzy_of_inside⟩

end Cursor

/-- The tags in the answers to any calls that read a source: the expressions have different numbers,
which increase to the wholes and to later answers, and exactly those are marked that lie inside a
fuzzed sequence of their own expression. Whatever the calls were and wherever they have stopped, the
depth is zero again behind them, and later ones are answered like first ones on the tokens that are
left, except that the numbers are higher. -/
theorem answers_tagged (source : String) (calls later : List ExprCall) :
    let fin := (TokenStream.ofSource source).fin
    let start := Cursor.ofSource source 0
    let left := start.afterCalls fin calls
    ExprAnswer.Tagged (start.answers fin calls) ∧
      left.fuzzDepth = 0 ∧
      start.answers fin (calls ++ later) =
        start.answers fin calls ++
          (({ rest := left.rest } : Cursor).answers fin later).map
            (ExprAnswer.raise left.nextId) := by
  intro fin start left
  have hdepth : left.fuzzDepth = 0 := fuzzDepth_afterCalls fin start calls
  have hleft : left = Cursor.raise left.nextId { rest := left.rest } := by
    have h := eq_raise left
    rwa [hdepth] at h
  refine ⟨start.tagged_answers rfl fin calls, hdepth, ?_⟩
  rw [answers_append, ← answers_raise, ← hleft]

/-- A call that stops inside of braces has given out a number, and has no other influence. -/
example :
    (Cursor.ofSource "\x7bu8, \x7b \x7bu16\x7d" 0).answers
        (TokenStream.ofSource "\x7bu8, \x7b \x7bu16\x7d").fin [.expression, .expression] =
      [.refused (.semantic ⟨1, 6⟩ .nestedFuzzSequence),
        .expression (.fuzz ⟨2, false⟩ [.type ⟨1, true⟩ ⟨.two, false⟩])] := by
  cbv

end ScriptFuzz
