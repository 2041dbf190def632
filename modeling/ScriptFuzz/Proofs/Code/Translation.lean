import ScriptFuzz.Proofs.Language.Code
import ScriptFuzz.Proofs.Language.Rules

/-!
# Which code is that of an expression

`Term.Code names m e code` says that `code`, somewhere in the method `m`, is the code of the
expression `e`: the shape of the code, and that its operands are the numbers under which the pools
of `m` hold what the expression speaks of. It does not say how the code came about, which is all
that the modules about running it need to know.

- `Term.emits_emit`: what `Term.emit` adds is the code of the expression, in every method whose
  pools begin with those of the builder.
- `Function.code_method`: the code of a method is the code of the body of its function.
-/

namespace ScriptFuzz

namespace CodeBuilder

/-- What the pools of a builder hold is held by other pools under the same numbers. -/
structure Within (b : CodeBuilder) (ints : Array Int64) (texts : Array String) : Prop where
  ints : ∀ (i : Nat) (n : Int64), b.ints[i]? = some n → ints[i]? = some n
  texts : ∀ (i : Nat) (s : String), b.texts[i]? = some s → texts[i]? = some s

theorem Within.refl (b : CodeBuilder) : b.Within b.ints b.texts :=
  ⟨fun _ _ h => h, fun _ _ h => h⟩

theorem Within.trans {b b' : CodeBuilder} {ints : Array Int64} {texts : Array String}
    (h : b.Within b'.ints b'.texts) (h' : b'.Within ints texts) : b.Within ints texts :=
  ⟨fun i n hi => h'.ints i n (h.ints i n hi), fun i s hi => h'.texts i s (h.texts i s hi)⟩

theorem within_push (b : CodeBuilder) (i : Instruction) :
    b.Within (b.push i).ints (b.push i).texts :=
  ⟨fun _ _ h => h, fun _ _ h => h⟩

theorem within_pushInt (b : CodeBuilder) (n : Int64) :
    b.Within (b.pushInt n).ints (b.pushInt n).texts := by
  refine ⟨?_, fun _ _ hi => hi⟩
  intro i k hi
  obtain ⟨hlt, rfl⟩ := Array.getElem?_eq_some_iff.1 hi
  exact Array.getElem?_push_lt hlt

theorem within_pushText (b : CodeBuilder) (s : String) (i : Nat → Instruction) :
    b.Within (b.pushText s i).ints (b.pushText s i).texts := by
  refine ⟨fun _ _ hi => hi, ?_⟩
  intro i k hi
  obtain ⟨hlt, rfl⟩ := Array.getElem?_eq_some_iff.1 hi
  exact Array.getElem?_push_lt hlt

theorem Within.int {b : CodeBuilder} {n : Int64} {ints : Array Int64} {texts : Array String}
    (h : (b.pushInt n).Within ints texts) : ints[b.ints.size]? = some n :=
  h.ints _ _ (by rw [pushInt, Array.getElem?_push_size])

theorem Within.text {b : CodeBuilder} {s : String} {i : Nat → Instruction} {ints : Array Int64}
    {texts : Array String} (h : (b.pushText s i).Within ints texts) :
    texts[b.texts.size]? = some s :=
  h.texts _ _ (by rw [pushText, Array.getElem?_push_size])

end CodeBuilder

namespace Source

/-- The code of an expression in a method. -/
inductive Term.Code (names : Naming) (m : Method) : Term → List Instruction → Prop
  | int {n : Int} {i : Nat} (hi : m.ints[i]? = some (.ofInt n)) : Code names m (.int n) [.pushInt i]
  | text {s : String} {i : Nat} (hi : m.texts[i]? = some s) : Code names m (.text s) [.pushText i]
  | slot {x : String} {i : Nat} (hx : names.resolve? x = some (.slot i)) :
      Code names m (.name x) [.getLocal i]
  | argument {x : String} {i : Nat} (hx : names.resolve? x = some (.argument i)) :
      Code names m (.name x) [.getArg i]
  | template {x : String} {i : Nat} (hx : names.resolve? x = some .template)
      (hi : m.texts[i]? = some x) : Code names m (.name x) [.getTemplate i]
  | sizeof {f : String} {arguments : List (Term × List Instruction)}
      (hf : names.callee f = .sizeof) (ha : ∀ a ∈ arguments, Code names m a.1 a.2) :
      Code names m (.call f (arguments.map (·.1))) ((arguments.map (·.2)).flatten ++ [.sizeOf])
  | function {f : String} {i : Nat} {arguments : List (Term × List Instruction)}
      (hf : names.callee f = .function i) (ha : ∀ a ∈ arguments, Code names m a.1 a.2) :
      Code names m (.call f (arguments.map (·.1))) ((arguments.map (·.2)).flatten ++ [.call i])
  | host {f : String} {i : Nat} {arguments : List (Term × List Instruction)}
      (hf : names.callee f = .host) (hi : m.texts[i]? = some f)
      (ha : ∀ a ∈ arguments, Code names m a.1 a.2) :
      Code names m (.call f (arguments.map (·.1)))
        ((arguments.map (·.2)).flatten ++ [.callHost i arguments.length])
  | arith {op : Arith} {l r : Term} {cl cr : List Instruction} (hl : Code names m l cl)
      (hr : Code names m r cr) : Code names m (.arith op l r) (cl ++ cr ++ [.arith op])

namespace Term

/-- From one builder to another one, the code of an expression was added. -/
structure Emits (names : Naming) (e : Term) (b b' : CodeBuilder) (code : List Instruction) :
    Prop where
  code_eq : b'.code.toList = b.code.toList ++ code
  within : b.Within b'.ints b'.texts
  code : ∀ m : Method, b'.Within m.ints m.texts → Code names m e code

/-- From one builder to another one, the code of expressions was added. -/
structure EmitsAll (names : Naming) (arguments : List (Term × List Instruction))
    (b b' : CodeBuilder) : Prop where
  code_eq : b'.code.toList = b.code.toList ++ (arguments.map (·.2)).flatten
  within : b.Within b'.ints b'.texts
  code : ∀ m : Method, b'.Within m.ints m.texts → ∀ a ∈ arguments, Code names m a.1 a.2

variable {names : Naming}

theorem emitsAll_emitAll {es : List Term}
    (h : ∀ e ∈ es, ∀ b, ∃ code, Emits names e b (e.emit names b) code) (b : CodeBuilder) :
    ∃ arguments : List (Term × List Instruction), arguments.map (·.1) = es ∧
      EmitsAll names arguments b (emitAll names es b) := by
  induction es generalizing b with
  | nil => exact ⟨[], rfl, by simp [emitAll], .refl b, by simp⟩
  | cons e es ih =>
    obtain ⟨he, hes⟩ := List.forall_mem_cons.1 h
    obtain ⟨code, hcode⟩ := he b
    obtain ⟨arguments, rfl, harguments⟩ := ih hes (e.emit names b)
    refine ⟨(e, code) :: arguments, rfl, ?_, ?_, ?_⟩
    · rw [emitAll, harguments.code_eq, hcode.code_eq]
      simp
    · exact hcode.within.trans harguments.within
    · intro m hm
      rw [emitAll] at hm
      exact List.forall_mem_cons.2
        ⟨hcode.code m (harguments.within.trans hm), harguments.code m hm⟩

/-- What is added for an expression is its code. -/
theorem emits_emit (e : Term) (hv : e.Valid names) (b : CodeBuilder) :
    ∃ code, Emits names e b (e.emit names b) code := by
  induction e generalizing b with
  | int n =>
    rw [emit]
    exact ⟨[.pushInt b.ints.size], by simp [CodeBuilder.pushInt], b.within_pushInt _,
      fun m hm => .int hm.int⟩
  | text s =>
    rw [emit]
    exact ⟨[.pushText b.texts.size], by simp [CodeBuilder.pushText], b.within_pushText _ _,
      fun m hm => .text hm.text⟩
  | name x =>
    rw [Valid, Naming.Offers] at hv
    rw [emit]
    cases hx : names.resolve? x with
    | none =>
      rw [hx] at hv
      exact hv.elim
    | some named =>
      cases named with
      | slot i =>
        exact ⟨[.getLocal i], by simp [CodeBuilder.push], .refl b, fun m _ => .slot hx⟩
      | argument i =>
        exact ⟨[.getArg i], by simp [CodeBuilder.push], .refl b, fun m _ => .argument hx⟩
      | template =>
        exact ⟨[.getTemplate b.texts.size], by simp [CodeBuilder.pushText],
          b.within_pushText _ _, fun m hm => .template hx hm.text⟩
  | call f es ih =>
    rw [Valid] at hv
    obtain ⟨arguments, rfl, ha⟩ := emitsAll_emitAll (fun e he => ih e he (hv.1 e he)) b
    rw [emit, List.length_map]
    cases hf : names.callee f with
    | sizeof =>
      exact ⟨_, by simp [CodeBuilder.push, ha.code_eq], ha.within,
        fun m hm => .sizeof hf (ha.code m ((CodeBuilder.within_push _ _).trans hm))⟩
    | function i =>
      exact ⟨_, by simp [CodeBuilder.push, ha.code_eq], ha.within,
        fun m hm => .function hf (ha.code m ((CodeBuilder.within_push _ _).trans hm))⟩
    | host =>
      refine ⟨_, ?_, ha.within.trans (CodeBuilder.within_pushText _ _ _),
        fun m hm => .host hf hm.text (ha.code m ((CodeBuilder.within_pushText _ _ _).trans hm))⟩
      simp [CodeBuilder.pushText, ha.code_eq]
  | arith op l r ihl ihr =>
    rw [Valid] at hv
    obtain ⟨cl, hl⟩ := ihl hv.1 b
    obtain ⟨cr, hr⟩ := ihr hv.2 (l.emit names b)
    rw [emit]
    refine ⟨cl ++ cr ++ [.arith op], ?_, hl.within.trans hr.within, ?_⟩
    · simp [CodeBuilder.push, hl.code_eq, hr.code_eq]
    · intro m hm
      -- the pools of the whole expression begin with those of the operands
      replace hm := (CodeBuilder.within_push _ _).trans hm
      exact .arith (hl.code m (hr.within.trans hm)) (hr.code m hm)

end Term

/-! ## Functions -/

/-- The code of a body in a method: that of each statement, and the instruction that closes it. -/
inductive Statement.CodeAll (m : Method) : Naming → List Statement → List Instruction → Prop
  | nil (names : Naming) : CodeAll m names [] []
  | cons {names : Naming} {s : Statement} {body : List Statement} {code more : List Instruction}
      (hs : s.term.Code names m code) (hb : CodeAll m (names.behind s) body more) :
      CodeAll m names (s :: body) (code ++ s.closing names :: more)

theorem Statement.codeAll_emitAll (names : Naming) (body : List Statement)
    (hv : Statement.AllValid names body) (b : CodeBuilder) :
    ∃ code, (emitAll names body b).code.toList = b.code.toList ++ code ∧
      b.Within (emitAll names body b).ints (emitAll names body b).texts ∧
      ∀ m : Method, (emitAll names body b).Within m.ints m.texts → CodeAll m names body code := by
  induction body generalizing names b with
  | nil => exact ⟨[], by simp [emitAll], .refl b, fun m _ => .nil names⟩
  | cons s body ih =>
    obtain ⟨hs, hb⟩ := hv
    obtain ⟨code, hcode⟩ := s.term.emits_emit hs.1 b
    obtain ⟨more, hmore, hwithin, hall⟩ := ih _ hb (s.emit names b)
    have hs : (s.term.emit names b).Within (s.emit names b).ints (s.emit names b).texts :=
      CodeBuilder.within_push _ _
    rw [emitAll]
    refine ⟨code ++ s.closing names :: more, ?_, (hcode.within.trans hs).trans hwithin, ?_⟩
    · rw [hmore]
      simp [emit, CodeBuilder.push, hcode.code_eq]
    · intro m hm
      exact .cons (hcode.code m (hs.trans (hwithin.trans hm))) (hall m hm)

/-- The code of a method is that of the body of its function. -/
theorem Function.code_method {names : Naming} {f : Function} (hv : f.Valid names) (index : Nat) :
    Statement.CodeAll (f.method names index) (names.enter f.params) f.body
      (f.method names index).code.toList := by
  obtain ⟨code, hcode, -, hall⟩ :=
    Statement.codeAll_emitAll (names.enter f.params) f.body hv.body {}
  have := hall (f.method names index) (.refl _)
  rw [method]
  dsimp only
  rw [hcode]
  exact this

end Source

end ScriptFuzz
