import ScriptFuzz.Channel.Error
import ScriptFuzz.Host.Function
import ScriptFuzz.Machine.Instruction

/-!
# Why a script stops

Every failure of a running script is of one of three categories: an operation on values of the wrong
kinds, a fault of the run, or a failure of the channel.
-/

namespace ScriptFuzz

/-- What the operand of an instruction counts. -/
inductive OperandSort where
  | slot
  | argument
  | int
  | text
  | method
deriving DecidableEq, Repr

/-- The wording of what is counted. -/
def OperandSort.describe : OperandSort → String
  | slot => "local"
  | argument => "argument"
  | int => "integer constant"
  | text => "string constant"
  | method => "method"

/-- The categories of failures. -/
inductive ExecError.Category where
  | type
  | runtime
  | io
deriving DecidableEq, Repr

/-- Why a script stops before its end. -/
inductive ExecError where
  /-- An operation on values has no result. -/
  | arith (error : ArithError)
  /-- A host function cannot take a value of the kind. -/
  | badArgument (function : HostFunction) (kind : Kind)
  /-- An instruction takes a value and there is none. -/
  | emptyStack
  /-- A call takes more values than there are. -/
  | stackUnderflow (wanted available : Nat)
  /-- An operand is out of range. -/
  | badOperand (sort : OperandSort) (i : Instruction)
  /-- No function of that name is registered. -/
  | unknownFunction (name : String)
  /-- A call of the function is under way already. -/
  | functionBusy (name : String)
  /-- No template of that name is declared. -/
  | unknownTemplate (name : String)
  /-- The template has no serialization. -/
  | template (name : String) (error : TemplateError)
  /-- The reserved instruction has no meaning. -/
  | lookup
  /-- The calls are nested deeper than the calls of a compiled script can be. -/
  | callsTooDeep
  /-- There is no `main`. -/
  | noMain
  /-- The host has no function of that name. -/
  | notHostFunction (name : String)
  /-- The number of arguments is wrong. -/
  | hostArity (name : String) (arity given : Nat)
  /-- The channel has failed. -/
  | channel (error : ChannelError)
  /-- A function that the host offers besides its own has failed, and says why in its own words. -/
  | reported (category : ExecError.Category) (reason : String)
deriving DecidableEq, Repr

namespace ExecError

/-- The category of a failure. -/
def category : ExecError → Category
  | arith .divisionByZero => .runtime
  | arith _ | badArgument .. => .type
  | channel _ => .io
  | reported category _ => category
  | _ => .runtime

/-- What is wrong with an argument of the kind. -/
def badArgumentMessage (function : HostFunction) (kind : Kind) : String :=
  match function with
  | .out => s!"out() cannot write a value of type {kind.name}"
  | .writeLine => s!"writeln() expects a string, got {kind.name}"
  | function => s!"{function.name}() expects an integer, got {kind.name}"

/-- The wording of a failure, without its category. -/
def reason : ExecError → String
  | arith (.mismatch op left right) => s!"cannot {op.verb} {left.name} and {right.name}"
  | arith .divisionByZero => "division by zero"
  | arith (.noSize kind) => s!"sizeof is not defined for {kind.name}"
  | badArgument function kind => badArgumentMessage function kind
  | emptyStack => "cannot pop value from empty stack"
  | stackUnderflow wanted available =>
    s!"stack underflow: call needs {wanted} argument(s), {available} available"
  | badOperand sort i => s!"invalid {sort.describe} index in {i.text}"
  | unknownFunction name => s!"unknown runtime function {name}"
  | functionBusy name => s!"runtime function {name} is already running"
  | unknownTemplate name => s!"unknown template {name}"
  | template name error => s!"template {name}: {error.message}"
  | lookup => "LOOKUP is not supported"
  | callsTooDeep => "calls are nested too deeply"
  | noMain => "script cannot be executed, it has no 'main' function"
  | notHostFunction name => s!"{name} is not a host function"
  | hostArity name arity given => s!"{name}() takes {arity} argument(s), {given} given"
  | channel error => error.message
  | reported _ reason => reason

/-- The word for a category in messages. -/
def Category.describe : Category → String
  | type => "type error"
  | runtime => "runtime error"
  | io => "i/o error"

/-- The wording of a failure. -/
def message (e : ExecError) : String := s!"{e.category.describe}: {e.reason}"

end ExecError

end ScriptFuzz
