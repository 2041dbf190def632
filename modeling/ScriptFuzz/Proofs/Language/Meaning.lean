import ScriptFuzz.Machine.Basic
import ScriptFuzz.Proofs.Language.Code

/-!
# What functions mean

An evaluator for functions as they are written. It knows nothing of slots, pools or instructions:
variables are kept under their names, the latest first, and a call of an earlier function runs the
meaning of that function.

- `Term.eval`: operands and arguments are evaluated from left to right, then the operation or the
  call.
- `Statement.runAll`: a body, up to the first `return`.
- `Function.call`: a function with its arguments, and `Program.context`: what the functions and
  templates declared before it mean.

Like the machine, the evaluator works on the state `σ` of the host, which only the functions of the
host change. So it also says in which order the host is called, and with which values, and a
template is serialized with the mutators as the host has left them.
-/

namespace ScriptFuzz.Source

/-- What a function can use. -/
structure Context (σ : Type) where
  /-- The present states of the mutators. -/
  mutators : σ → Pool
  /-- What the host offers. -/
  handlers : String → Option (Handler σ)
  /-- The functions declared before, with what a call of them does. -/
  functions : List (String × (List Value → EStateM ExecError σ Value)) := []
  /-- The templates declared before. -/
  templates : Templates := {}

/-- The variables and arguments by their names: what comes first hides what comes later. -/
abbrev Env := List (String × Value)

/-- Gives another value to the variable that is in sight under a name. -/
def Env.assign : Env → String → Value → Env
  | [], _, _ => []
  | (y, w) :: env, x, v => if x = y then (y, v) :: env else (y, w) :: Env.assign env x v

variable {σ : Type}

namespace Context

/-- The present serialization of a template. -/
def serialize (ctx : Context σ) (x : String) : EStateM ExecError σ Value :=
  match ctx.templates.named.lookup x with
  | some t => do
    let pool := ctx.mutators (← get)
    return .bytes (← Machine.ofExcept ((t.generate pool).mapError (.template x)))
  | none => throw (.unknownTemplate x)

/-- The value of a name: that of a variable or an argument, else a template. -/
def read (ctx : Context σ) (env : Env) (x : String) : EStateM ExecError σ Value :=
  match env.lookup x with
  | some v => pure v
  | none => ctx.serialize x

/-- Calls what a name stands for: `sizeof`, else the function declared before, else the host. -/
def call (ctx : Context σ) (f : String) (values : List Value) : EStateM ExecError σ Value :=
  if f = "sizeof" then
    match values with
    | [v] => Machine.ofExcept (v.size.mapError .arith)
    -- the rules of scripts do not allow this
    | _ => throw (.hostArity f 1 values.length)
  else
    match ctx.functions.lookup f with
    | some function => function values
    | none =>
      match ctx.handlers f with
      | none => throw (.unknownFunction f)
      | some .busy => throw (.functionBusy f)
      | some (.ready function) => function values

end Context

mutual

/-- The value of an expression. -/
def Term.eval (ctx : Context σ) (env : Env) (e : Term) : EStateM ExecError σ Value :=
  match e with
  | .int n => pure (.int (.ofInt n))
  | .text s => pure (.text s)
  | .name x => ctx.read env x
  | .call f arguments => do ctx.call f (← Term.evalAll ctx env arguments)
  | .arith op l r => do
    let left ← l.eval ctx env
    let right ← r.eval ctx env
    Machine.ofExcept ((left.arith op right).mapError .arith)

/-- The values of expressions, one after the other. -/
def Term.evalAll (ctx : Context σ) (env : Env) (es : List Term) :
    EStateM ExecError σ (List Value) :=
  match es with
  | [] => pure []
  | e :: es => do
    let v ← e.eval ctx env
    let vs ← Term.evalAll ctx env es
    return v :: vs

end

/-- Runs the statements of a body. Nothing behind a `return` runs, and a body without one gives
`Value.undefined`. -/
def Statement.runAll (ctx : Context σ) (env : Env) : List Statement → EStateM ExecError σ Value
  | [] => pure .undefined
  | .declare x e :: body => do
    let v ← e.eval ctx env
    runAll ctx ((x, v) :: env) body
  | .assign x e :: body => do
    let v ← e.eval ctx env
    runAll ctx (env.assign x v) body
  | .result e :: _ => e.eval ctx env
  | .evaluate e :: body => do
    let _ ← e.eval ctx env
    runAll ctx env body

/-- Calls a function: it begins with its arguments and no variables. -/
def Function.call (ctx : Context σ) (f : Function) (arguments : List Value) :
    EStateM ExecError σ Value :=
  Statement.runAll ctx (f.params.zip arguments) f.body

/-- What can be used behind a declaration. -/
def Context.add (ctx : Context σ) (d : Declaration) : Context σ :=
  { ctx with
    functions :=
      match d with
      | .template _ _ => ctx.functions
      | .function f => ctx.functions ++ [(f.name, f.call ctx)]
    templates := ctx.templates.add d }

/-- What can be used behind the declarations of a script. -/
def Program.context (p : Program) (mutators : σ → Pool)
    (handlers : String → Option (Handler σ)) : Context σ :=
  p.foldl Context.add { mutators, handlers }

end ScriptFuzz.Source
