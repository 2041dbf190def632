import ScriptFuzz.Machine.Error

/-!
# The stack machine

A method runs its instructions one after the other, from the first to the last or to the one that
ends it. Each call has a stack and variables of its own; what calls share is the state `σ` of the
host.

- `Machine.step`: what one instruction does to the frame of its call.
- `Machine.runFrom`: the rest of a call.
- `Machine.execute`: a whole call. `Machine.runMain`: the call of `main`.

Code has no jumps, so a call ends when its instructions do. A compiled method calls only methods
with smaller numbers below `2 ^ 16`, so its calls nest less deep than `Machine.maxDepth`.
-/

namespace ScriptFuzz

/-- What a name that scripts can call stands for. -/
inductive Handler (σ : Type) where
  /-- A function that can be called. -/
  | ready (call : List Value → EStateM ExecError σ Value)
  /-- A function that is being called already. -/
  | busy

/-- What a running script has access to. -/
structure Machine (σ : Type) where
  /-- The script. -/
  script : Script
  /-- The states of the mutators in its templates when it begins. -/
  pool : Pool
  /-- What the host offers. -/
  handlers : String → Option (Handler σ)
  /-- What the host has made of the mutators meanwhile. -/
  altered : σ → Pool → Pool := fun _ pool => pool

/-- The operands and the variables of one call. -/
structure Frame where
  /-- The operands, the topmost first. -/
  stack : List Value := []
  /-- The variables by their slots. -/
  locals : Array Value
deriving Inhabited

namespace Frame

/-- Puts a value on the stack. -/
def push (frame : Frame) (v : Value) : Frame := { frame with stack := v :: frame.stack }

/-- Takes the topmost value. -/
def pop (frame : Frame) : Except ExecError (Value × Frame) :=
  match frame.stack with
  | [] => .error .emptyStack
  | v :: stack => .ok (v, { frame with stack })

/-- Takes the topmost `count` values and gives them in the order in which they were put there. -/
def popArguments (frame : Frame) (count : Nat) : Except ExecError (List Value × Frame) :=
  let available := frame.stack.length
  if available < count then .error (.stackUnderflow count available)
  else .ok ((frame.stack.take count).reverse, { frame with stack := frame.stack.drop count })

end Frame

namespace Machine

variable {σ : Type}

/-- The present states of the mutators. -/
def mutators (machine : Machine σ) (s : σ) : Pool := machine.altered s machine.pool

/-- What is in range, or the report that it is not. -/
def operand {α : Type} (sort : OperandSort) (i : Instruction) :
    Option α → EStateM ExecError σ α
  | some a => pure a
  | none => throw (.badOperand sort i)

/-- A result that is known already. -/
def ofExcept {α : Type} : Except ExecError α → EStateM ExecError σ α
  | .ok a => pure a
  | .error e => throw e

/-- What one instruction does to the frame of its call, where `invoke` calls methods. -/
def step (machine : Machine σ) (invoke : Method → List Value → EStateM ExecError σ Value)
    (m : Method) (arguments : Array Value) (i : Instruction) (frame : Frame) :
    EStateM ExecError σ Frame :=
  match i with
  | .arith op => do
    let (right, frame) ← ofExcept frame.pop
    let (left, frame) ← ofExcept frame.pop
    let result ← ofExcept ((left.arith op right).mapError .arith)
    return frame.push result
  | .sizeOf => do
    let (v, frame) ← ofExcept frame.pop
    let size ← ofExcept (v.size.mapError .arith)
    return frame.push size
  | .setLocal slot => do
    let (v, frame) ← ofExcept frame.pop
    if slot < frame.locals.size then
      return { frame with locals := frame.locals.setIfInBounds slot v }
    else throw (.badOperand .slot i)
  | .getLocal slot => do return frame.push (← operand .slot i frame.locals[slot]?)
  | .getArg index => do return frame.push (← operand .argument i arguments[index]?)
  | .pop => do return (← ofExcept frame.pop).2
  | .pushInt index => do return frame.push (.int (← operand .int i m.ints[index]?))
  | .pushText index => do return frame.push (.text (← operand .text i m.texts[index]?))
  | .call index => do
    let callee ← operand .method i machine.script.methods[index]?
    let (arguments, frame) ← ofExcept (frame.popArguments callee.arity)
    return frame.push (← invoke callee arguments)
  | .callVoid index => do
    let callee ← operand .method i machine.script.methods[index]?
    let (arguments, frame) ← ofExcept (frame.popArguments callee.arity)
    let _ ← invoke callee arguments
    return frame
  | .callHost index count => do
    let name ← operand .text i m.texts[index]?
    match machine.handlers name with
    | none => throw (.unknownFunction name)
    | some handler =>
      let (arguments, frame) ← ofExcept (frame.popArguments count)
      match handler with
      | .busy => throw (.functionBusy name)
      | .ready call => return frame.push (← call arguments)
  | .getTemplate index => do
    let name ← operand .text i m.texts[index]?
    match machine.script.template? name with
    | none => throw (.unknownTemplate name)
    | some t =>
      let pool := machine.mutators (← get)
      let bytes ← ofExcept ((t.generate pool).mapError (.template name))
      return frame.push (.bytes bytes)
  | .lookup _ => throw .lookup
  -- ends the call, and is seen to where calls are run
  | .leave => return frame

/-- Runs the instructions of a call that are left. Without a result of its own the call gives
`Value.undefined`. -/
def runFrom (machine : Machine σ) (invoke : Method → List Value → EStateM ExecError σ Value)
    (m : Method) (arguments : Array Value) : List Instruction → Frame → EStateM ExecError σ Value
  | [], _ => pure .undefined
  | .leave :: _, frame => ofExcept (frame.pop.map (·.1))
  | i :: code, frame => do
    let frame ← machine.step invoke m arguments i frame
    machine.runFrom invoke m arguments code frame

section

variable {machine : Machine σ} {invoke : Method → List Value → EStateM ExecError σ Value}
  {m : Method} {arguments : Array Value} {code : List Instruction} {stack : List Value}
  {locals : Array Value}

/-- Every instruction but the one that ends the call is one step of it. -/
theorem runFrom_cons {i : Instruction} (hi : i ≠ .leave) (frame : Frame) :
    machine.runFrom invoke m arguments (i :: code) frame =
      machine.step invoke m arguments i frame >>= machine.runFrom invoke m arguments code := by
  cases i <;> first | rfl | exact absurd rfl hi

theorem runFrom_pop (v : Value) :
    machine.runFrom invoke m arguments (.pop :: code) ⟨v :: stack, locals⟩ =
      machine.runFrom invoke m arguments code ⟨stack, locals⟩ := by
  simp only [runFrom, step, Frame.pop, ofExcept, pure_bind]

theorem runFrom_leave (v : Value) :
    machine.runFrom invoke m arguments (.leave :: code) ⟨v :: stack, locals⟩ = pure v := by
  simp only [runFrom, Frame.pop, Except.map, ofExcept]

end

/-- Runs a call, where further calls may nest `depth` deep. -/
def run (machine : Machine σ) : (depth : Nat) → Method → List Value → EStateM ExecError σ Value
  | 0, _, _ => throw .callsTooDeep
  | depth + 1, m, arguments =>
    machine.runFrom (machine.run depth) m arguments.toArray m.code.toList
      { locals := .replicate m.locals .undefined }

/-- How deep calls may nest: far deeper than there can be methods that are called. -/
def maxDepth : Nat := 2 ^ (20 : Nat)

/-- Calls a method. -/
def execute (machine : Machine σ) (m : Method) (arguments : List Value) :
    EStateM ExecError σ Value :=
  machine.run maxDepth m arguments

/-- Calls `main`, without arguments. -/
def runMain (machine : Machine σ) : EStateM ExecError σ Value :=
  match machine.script.method? "main" with
  | some m => machine.execute m []
  | none => throw .noMain

end Machine

end ScriptFuzz
