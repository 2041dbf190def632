import ScriptFuzz.Host.Basic

/-!
# Hosts with further functions

Scripts can call functions that a host does not have if they are registered beside its own. The
functions registered here are stubs: each gives the same value whenever it is called, and the calls
are noted, so that a script can be tried without what it is made for. A stub hides the host's own
function of its name.
-/

namespace ScriptFuzz

/-- A host with stubs beside it. -/
structure StubbedHost (χ : Type) where
  /-- The host. -/
  host : Host χ := {}
  /-- The names of the stubs and the values they give, the latest first. -/
  stubs : List (String × Value) := []
  /-- The calls of stubs so far: the names and the arguments. -/
  calls : Array (String × List Value) := #[]
deriving Inhabited

namespace StubbedHost

variable {χ : Type}

/-- Registers a stub, in the place of an earlier function of that name. -/
def register (s : StubbedHost χ) (name : String) (value : Value) : StubbedHost χ :=
  { s with stubs := (name, value) :: s.stubs }

/-- Whether scripts can call a function of that name. -/
def isRegistered (s : StubbedHost χ) (name : String) : Bool :=
  (s.stubs.lookup name).isSome || (HostFunction.ofName? name).isSome

/-- Acts on the host itself. -/
def onHost {α : Type} (act : EStateM ExecError (Host χ) α) :
    EStateM ExecError (StubbedHost χ) α := fun s =>
  match act s.host with
  | .ok a host => .ok a { s with host }
  | .error e host => .error e { s with host }

/-- Calls a stub, which gives the value. -/
def callStub (name : String) (value : Value) (arguments : List Value) :
    EStateM ExecError (StubbedHost χ) Value := do
  modify fun s => { s with calls := s.calls.push (name, arguments) }
  return value

variable [Channel χ]

/-- What can be called: the stubs, and the functions of the host unless it is busy. -/
def handlers (s : StubbedHost χ) (busy : Bool) (name : String) :
    Option (Handler (StubbedHost χ)) :=
  match s.stubs.lookup name with
  | some value => some (.ready (callStub name value))
  | none => (HostFunction.ofName? name).map fun _ =>
    if busy then .busy else .ready fun arguments => onHost (Host.call name arguments)

end StubbedHost

end ScriptFuzz
