import ScriptFuzz.Proofs.Code.Simulation

/-!
# What calls keep

A script changes the state of its host only by calling the host's functions. So a property of the
state that each of these functions keeps is kept by every call of every script, however the call
ends (`Machine.keeps_run`). Nothing is asked of the script: its code may be out of order.

- `finalState`: the state in which a computation ends.
- `Keeps`: a property of the state holds afterwards if it held before.
-/

namespace ScriptFuzz

variable {ε σ α β : Type}

/-- The state in which a computation ends, whether it fails or not. -/
def finalState (x : EStateM ε σ α) (s : σ) : σ :=
  match x s with
  | .ok _ s => s
  | .error _ s => s

/-- The computation keeps a property of the state, whether it fails or not. -/
def Keeps (I : σ → Prop) (x : EStateM ε σ α) : Prop := ∀ s, I s → I (finalState x s)

namespace Keeps

variable {I : σ → Prop}

theorem pure (a : α) : Keeps I (pure a : EStateM ε σ α) := fun _ h => h

theorem throw (e : ε) : Keeps I (throw e : EStateM ε σ α) := fun _ h => h

theorem get : Keeps I (get : EStateM ε σ σ) := fun _ h => h

theorem bind {x : EStateM ε σ α} {f : α → EStateM ε σ β} (hx : Keeps I x)
    (hf : ∀ a, Keeps I (f a)) : Keeps I (x >>= f) := by
  intro s hs
  have h := hx s hs
  show I (match EStateM.bind x f s with | .ok _ s => s | .error _ s => s)
  rw [EStateM.bind]
  rw [finalState] at h
  cases hxs : x s with
  | ok a t =>
    rw [hxs] at h
    exact hf a t h
  | error e t =>
    rw [hxs] at h
    exact h

theorem ofExcept {I : σ → Prop} (x : Except ExecError α) : Keeps I (Machine.ofExcept x) := by
  cases x with
  | ok a => exact pure a
  | error e => exact throw e

theorem operand {I : σ → Prop} (sort : OperandSort) (i : Instruction) (o : Option α) :
    Keeps I (Machine.operand sort i o) := by
  cases o with
  | some a => exact pure a
  | none => exact throw _

end Keeps

/-! ## Calls -/

namespace Machine

variable {I : σ → Prop} {machine : Machine σ}
  {invoke : Method → List Value → EStateM ExecError σ Value}

/-- The functions of the host keep a property of its state. -/
def HandlersKeep (I : σ → Prop) (machine : Machine σ) : Prop :=
  ∀ (name : String) (call : List Value → EStateM ExecError σ Value) (values : List Value),
    machine.handlers name = some (.ready call) → Keeps I (call values)

theorem keeps_callHost (hhost : machine.HandlersKeep I) (m : Method) (arguments : Array Value)
    (j count : Nat) (frame : Frame) :
    Keeps I (machine.step invoke m arguments (.callHost j count) frame) := by
  refine (Keeps.operand _ _ _).bind ?_
  intro name
  cases hname : machine.handlers name with
  | none => exact .throw _
  | some handler =>
    refine (Keeps.ofExcept _).bind ?_
    rintro ⟨given, below⟩
    cases handler with
    | busy => exact .throw _
    | ready call =>
      refine (hhost name call given hname).bind ?_
      intro v
      exact .pure _

theorem keeps_getTemplate (m : Method) (arguments : Array Value) (j : Nat) (frame : Frame) :
    Keeps I (machine.step invoke m arguments (.getTemplate j) frame) := by
  refine (Keeps.operand _ _ _).bind ?_
  intro name
  cases ht : machine.script.template? name with
  | none => exact .throw _
  | some t =>
    refine Keeps.get.bind ?_
    intro s
    refine (Keeps.ofExcept _).bind ?_
    intro bytes
    exact .pure _

/-- Besides the functions of the host only the methods that are called act on the state. -/
theorem keeps_step (hhost : machine.HandlersKeep I)
    (hinvoke : ∀ callee values, Keeps I (invoke callee values)) (m : Method)
    (arguments : Array Value) (i : Instruction) (frame : Frame) :
    Keeps I (machine.step invoke m arguments i frame) := by
  cases i with
  | callHost j count => exact keeps_callHost hhost m arguments j count frame
  | getTemplate j => exact keeps_getTemplate m arguments j frame
  | call j =>
    refine (Keeps.operand _ _ _).bind ?_
    intro callee
    refine (Keeps.ofExcept _).bind ?_
    rintro ⟨given, below⟩
    refine (hinvoke callee given).bind ?_
    intro v
    exact .pure _
  | callVoid j =>
    refine (Keeps.operand _ _ _).bind ?_
    intro callee
    refine (Keeps.ofExcept _).bind ?_
    rintro ⟨given, below⟩
    refine (hinvoke callee given).bind ?_
    intro v
    exact .pure _
  | arith op =>
    refine (Keeps.ofExcept _).bind ?_
    rintro ⟨right, frame₁⟩
    refine (Keeps.ofExcept _).bind ?_
    rintro ⟨left, frame₂⟩
    refine (Keeps.ofExcept _).bind ?_
    intro v
    exact .pure _
  | sizeOf =>
    refine (Keeps.ofExcept _).bind ?_
    rintro ⟨v, below⟩
    refine (Keeps.ofExcept _).bind ?_
    intro size
    exact .pure _
  | setLocal slot =>
    refine (Keeps.ofExcept _).bind ?_
    rintro ⟨v, below⟩
    show Keeps I (if slot < below.locals.size then _ else _)
    split
    · exact .pure _
    · exact .throw _
  | getLocal slot => exact (Keeps.operand _ _ _).bind fun _ => .pure _
  | getArg j => exact (Keeps.operand _ _ _).bind fun _ => .pure _
  | pushInt j => exact (Keeps.operand _ _ _).bind fun _ => .pure _
  | pushText j => exact (Keeps.operand _ _ _).bind fun _ => .pure _
  | pop => exact (Keeps.ofExcept _).bind fun _ => .pure _
  | lookup j => exact .throw _
  | leave => exact .pure _

theorem keeps_runFrom (hhost : machine.HandlersKeep I)
    (hinvoke : ∀ callee values, Keeps I (invoke callee values)) (m : Method)
    (arguments : Array Value) (code : List Instruction) (frame : Frame) :
    Keeps I (machine.runFrom invoke m arguments code frame) := by
  induction code generalizing frame with
  | nil => exact .pure _
  | cons i code ih =>
    by_cases hleave : i = .leave
    · subst hleave
      exact .ofExcept _
    · rw [runFrom_cons hleave]
      exact (keeps_step hhost hinvoke m arguments i frame).bind ih

theorem keeps_run (hhost : machine.HandlersKeep I) (depth : Nat) (m : Method)
    (values : List Value) : Keeps I (machine.run depth m values) := by
  induction depth generalizing m values with
  | zero => exact .throw _
  | succ depth ih => exact keeps_runFrom hhost ih m values.toArray m.code.toList _

/-- What the functions of the host keep is kept by a whole script. -/
theorem keeps_runMain (hhost : machine.HandlersKeep I) : Keeps I machine.runMain := by
  rw [runMain]
  cases machine.script.method? "main" with
  | none => exact .throw _
  | some m => exact keeps_run hhost maxDepth m []

end Machine

end ScriptFuzz
