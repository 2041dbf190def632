import Mathlib
import ScriptFuzz.Proofs.Code.Safety
import ScriptFuzz.Proofs.Code.Scripts
import ScriptFuzz.Proofs.Reading.Scripts

/-!
# Compiled functions

- `execute_eq_call`: compilation preserves meaning. A call of a compiled function does what the
  function means as it is written: it has the same result or fails in the same way, and it calls the
  host in the same order with the same values.
- `compile_safe`: compiled code does not go wrong. Its operands are in range, its stack is as high
  as it should be, and its calls end.
-/

namespace ScriptFuzz

open Source

/-! ## Calls of the host -/

variable {σ : Type}

/-- A function of the host that writes down when it is called, and with which values. -/
def Handler.recording (name : String) : Handler σ → Handler (σ × List (String × List Value))
  | .busy => .busy
  | .ready call => .ready fun values (s, calls) =>
    match call values s with
    | .ok v s => .ok v (s, calls ++ [(name, values)])
    | .error e s => .error e (s, calls ++ [(name, values)])

/-- A machine whose host writes down the calls of its functions, one after the other. -/
def Machine.recording (machine : Machine σ) : Machine (σ × List (String × List Value)) where
  script := machine.script
  pool := machine.pool
  handlers name := (machine.handlers name).map (Handler.recording name)
  altered := fun (s, _) => machine.altered s

/-! ## Compiled functions -/

/-- A compiled function does what the function means, and calls the host in the same way. -/
theorem execute_eq_call {source : String} {script : Script} (hc : compile source = .ok script) :
    (∃ p, Program.Written (lexemes source) p) ∧
      ∀ (before : Program) (f : Source.Function) (after : Program),
        Program.Written (lexemes source) (before ++ .function f :: after) →
        ∃ m, script.method? f.name = some m ∧ m.arity = f.params.length ∧
          ∀ (σ : Type) (machine : Machine σ) (values : List Value),
            machine.script = script → values.length = m.arity →
            (∀ s, machine.execute m values s =
              f.call (before.context machine.mutators machine.handlers) values s) ∧
            ∀ s, machine.recording.execute m values (s, []) =
              f.call (before.context machine.recording.mutators machine.recording.handlers)
                values (s, []) := by
  refine ⟨exists_written_of_compile hc, ?_⟩
  intro before f after hw
  obtain ⟨hvalid, rfl⟩ := valid_of_compile hw hc
  refine ⟨_, Program.method?_script hvalid, rfl, ?_⟩
  intro σ machine values hscript hlen
  -- the calls of a function with a number below `2 ^ 16` nest less deep than the machine allows
  have hdepth : min (Program.declared before).methods.size Scope.limit < Machine.maxDepth :=
    Nat.lt_of_le_of_lt (Nat.min_le_right _ _) (by decide)
  constructor
  · exact congrFun (Program.run_script hvalid hscript hdepth hlen)
  · intro s
    have hrecording : machine.recording.script = _ := hscript
    exact congrFun (Program.run_script hvalid hrecording hdepth hlen) (s, [])

/-- Subtraction groups to the left, in the code as in the meaning. -/
theorem execute_minus :
    ∃ script m, compile "function f(a) { return a - 1 - 2; }" = .ok script ∧
      script.method? "f" = some m ∧
      ∀ s : Nat, Machine.execute { script, pool := {}, handlers := fun _ => none } m [.int 5] s =
        .ok (.int 2) s := by
  let f : Source.Function :=
    ⟨"f", ["a"], [.result (.arith .sub (.arith .sub (.name "a") (.int 1)) (.int 2))]⟩
  have hlexemes : lexemes "function f(a) { return a - 1 - 2; }" =
      [.keyword .function, .ident "f", .mark .openParen, .ident "a", .mark .closeParen,
        .mark .openBrace, .keyword .returns, .ident "a", .mark .minus, .integer 1, .mark .minus,
        .integer 2, .mark .semicolon, .mark .closeBrace] := by
    cbv
  have hterm : Term.Written .sum
      [.ident "a", .mark .minus, .integer 1, .mark .minus, .integer 2]
      (.arith .sub (.arith .sub (.name "a") (.int 1)) (.int 2)) :=
    .sumOp .sub (.sumOp .sub (.product (.factor (.name (.plain "a")))) (.factor (.int 1)))
      (.factor (.int 2))
  have hw : Program.Written (lexemes "function f(a) { return a - 1 - 2; }")
      ([] ++ [.function f]) := by
    have hs : Statement.Written _ (.result _) := .result hterm
    have hf : f.Written _ :=
      @Function.Written.mk "f" ["a"] [(_, .result _)] (List.forall_mem_singleton.2 hs)
    rw [hlexemes]
    exact .cons (.function hf) .nil
  have hc : compile "function f(a) { return a - 1 - 2; }" =
      .ok (Program.script [.function f]) := by
    cbv
  obtain ⟨-, h⟩ := execute_eq_call hc
  obtain ⟨m, hm, harity, hexec⟩ := h [] f [] hw
  refine ⟨_, m, hc, hm, ?_⟩
  intro s
  rw [(hexec Nat _ [.int 5] rfl (by rw [harity]; rfl)).1 s]
  cbv

/-! ## Compiled code does not go wrong -/

/-- A function of the host fails so. -/
def Machine.HostFails (machine : Machine σ) (e : ExecError) (t : σ) : Prop :=
  ∃ name call values s, machine.handlers name = some (.ready call) ∧ call values s = .error e t

/-- Calls of compiled methods may nest as deep as the number of the method says. That they may nest
deeper makes no difference. -/
theorem run_eq_execute {source : String} {script : Script} (hc : compile source = .ok script)
    {m : Method} (hm : m ∈ script.methods) {machine : Machine σ} (hscript : machine.script = script)
    {values : List Value} (hlen : values.length = m.arity) {depth : Nat}
    (hdepth : min m.index Scope.limit < depth) :
    machine.run depth m values = machine.execute m values := by
  obtain ⟨p, hw⟩ := exists_written_of_compile hc
  obtain ⟨hvalid, rfl⟩ := valid_of_compile hw hc
  obtain ⟨i, hi⟩ := Array.getElem?_of_mem hm
  obtain ⟨before, f, after, rfl, rfl⟩ := Program.exists_function hi
  have hmax : min (Program.declared before).methods.size Scope.limit < Machine.maxDepth :=
    Nat.lt_of_le_of_lt (Nat.min_le_right _ _) (by decide)
  rw [Machine.execute, Program.run_script hvalid hscript hdepth hlen,
    Program.run_script hvalid hscript hmax hlen]

/-- The methods of a compiled script are in order, and so are all places that their calls come to. A
call fails with a fault only if a function of the host does, and its calls nest no deeper than the
number of its method. -/
theorem compile_safe {source : String} {script : Script} (hc : compile source = .ok script) :
    script.InOrder ∧
      ∀ m ∈ script.methods, ∀ (σ : Type) (machine : Machine σ) (values : List Value),
        machine.script = script → values.length = m.arity →
        (∀ invoke s done rest frame t, machine.Reaches invoke m values s done rest frame t →
          frame.InOrder script m done rest) ∧
        (∀ s e t, machine.execute m values s = .error e t → e.isFault → machine.HostFails e t) ∧
        ∀ depth, min m.index Scope.limit < depth →
          machine.run depth m values = machine.execute m values := by
  have hs : script.InOrder := by
    obtain ⟨p, hw⟩ := exists_written_of_compile hc
    obtain ⟨hvalid, rfl⟩ := valid_of_compile hw hc
    exact Program.inOrder_script hvalid
  refine ⟨hs, ?_⟩
  intro m hm σ machine values hscript hlen
  subst hscript
  refine ⟨?_, ?_, ?_⟩
  · intro invoke s done rest frame t hreach
    exact hreach.inOrder hs hm hlen
  · intro s e t he hfault
    have hhost : ∀ name call values, machine.handlers name = some (.ready call) →
        Safe machine.HostFails (fun _ => True) (call values) := by
      intro name call values h
      constructor
      · intro _ _ _ _
        trivial
      · intro s e t he _
        exact ⟨name, call, values, s, h, he⟩
    have hdepth : min m.index Scope.limit < Machine.maxDepth :=
      Nat.lt_of_le_of_lt (Nat.min_le_right _ _) (by decide)
    have hrun : Safe machine.HostFails (fun _ => True) (machine.execute m values) :=
      Machine.safe_run hs hhost hm hdepth hlen
    exact hrun.fault s e t he hfault
  · intro depth hdepth
    exact run_eq_execute hc hm rfl hlen hdepth

/-- A function that calls another one, on a host without functions. -/
theorem execute_without_fault :
    ∃ script m,
      compile "function f(a) { return a; } function g(b) { var x = f(b); x = x - 1; x; }" =
        .ok script ∧ m ∈ script.methods ∧ m.name = "g" ∧
      ∀ (v : Value) (s : Nat) (e : ExecError) (t : Nat),
        Machine.execute { script, pool := {}, handlers := fun _ => none } m [v] s = .error e t →
        e.isFault = false := by
  let f : Source.Function := ⟨"f", ["a"], [.result (.name "a")]⟩
  let g : Source.Function := ⟨"g", ["b"],
    [.declare "x" (.call "f" [.name "b"]), .assign "x" (.arith .sub (.name "x") (.int 1)),
      .evaluate (.name "x")]⟩
  have hc : compile "function f(a) { return a; } function g(b) { var x = f(b); x = x - 1; x; }" =
      .ok (Program.script [.function f, .function g]) := by
    cbv
  have hm : Program.method [.function f] g ∈ (Program.script [.function f, .function g]).methods :=
    Array.mem_of_getElem? (i := 1) (by cbv)
  obtain ⟨-, hsafe⟩ := compile_safe hc
  refine ⟨_, _, hc, hm, rfl, ?_⟩
  intro v s e t he
  obtain ⟨-, hfault, -⟩ :=
    hsafe _ hm Nat { script := _, pool := {}, handlers := fun _ => none } [v] rfl rfl
  refine Bool.eq_false_iff.2 ?_
  intro h
  -- there is nobody who could have failed
  obtain ⟨name, call, values, s', hnone, -⟩ := hfault s e t he h
  cases hnone

end ScriptFuzz
