import ScriptFuzz.Script.Syntax
import ScriptFuzz.Diagnostic

/-!
# What names stand for

Inside a function a name stands for the latest variable of that name declared above, else for a
parameter, else for a template declared before the function. A called name stands for `sizeof`, else
for a function declared before, else for a function of the host.

Slots, constants and functions are numbered with 16 bits, and the arguments of a host call with 8; a
`Scope` counts what the function has used so far.
-/

namespace ScriptFuzz

/-- The names that a function has declared so far, and what it has used. -/
structure Scope where
  /-- The parameters. -/
  params : List String
  /-- The variables in scope with their slots. -/
  locals : List (String × Nat) := []
  /-- The number of slots used. -/
  slots : Nat := 0
  /-- The number of integer constants used. -/
  ints : Nat := 0
  /-- The number of texts used. -/
  texts : Nat := 0

namespace Scope

/-- How many slots, constants of one pool, or functions can be numbered. -/
def limit : Nat := 2 ^ (16 : Nat)

/-- The greatest number of arguments in a call of the host. -/
def maxHostArguments : Nat := 2 ^ (8 : Nat) - 1

/-- A variable that takes the next slot and hides any earlier one of its name. -/
def declare (scope : Scope) (name : String) : Scope :=
  { scope with
    locals := (name, scope.slots) :: scope.locals.filter (·.1 != name)
    slots := scope.slots + 1 }

/-- What a name stands for where its value is used. -/
def resolve? (tree : ScriptTree) (scope : Scope) (name : String) : Option Binding :=
  match scope.locals.lookup name with
  | some slot => some (.slot slot)
  | none =>
    match scope.params.idxOf? name with
    | some i => some (.argument i)
    | none => (tree.templates.lookup name).map fun _ => .template

/-- An integer constant. -/
def int (scope : Scope) (value : Int64) : Except SemanticFault (Factor × Scope) :=
  if scope.ints < limit then .ok (.int value, { scope with ints := scope.ints + 1 })
  else .error .constantPoolOverflow

/-- A string constant. -/
def text (scope : Scope) (value : String) : Except SemanticFault (Factor × Scope) :=
  if scope.texts < limit then .ok (.text value, { scope with texts := scope.texts + 1 })
  else .error .constantPoolOverflow

/-- The use of a name as a value. -/
def use (tree : ScriptTree) (scope : Scope) (name : String) :
    Except SemanticFault (Factor × Scope) :=
  match scope.resolve? tree name with
  | some (.slot i) => .ok (.name name (.slot i), scope)
  | some (.argument i) =>
    if i < limit then .ok (.name name (.argument i), scope) else .error .tooManyVariables
  | some .template =>
    if scope.texts < limit then
      .ok (.name name .template, { scope with texts := scope.texts + 1 })
    else .error .constantPoolOverflow
  | none => .error (.unknownName name)

/-- The call of a name. -/
def call (tree : ScriptTree) (scope : Scope) (name : String) (arguments : List Sum) :
    Except SemanticFault (Factor × Scope) :=
  let given := arguments.length
  if name = "sizeof" then
    if given = 1 then .ok (.call name .sizeof arguments, scope) else .error (.sizeofArity given)
  else
    match tree.functions.findIdx? (·.name == name) with
    | some i =>
      let arity := (tree.functions[i]?.map (·.params.length)).getD 0
      if arity ≠ given then .error (.callArity name arity given)
      else if i < limit then .ok (.call name (.function i) arguments, scope)
      else .error .tooManyFunctions
    | none =>
      if maxHostArguments < given then .error (.tooManyArguments name)
      else if scope.texts < limit then
        .ok (.call name .host arguments, { scope with texts := scope.texts + 1 })
      else .error .constantPoolOverflow

end Scope

end ScriptFuzz
