import ScriptFuzz.Template.Basic
import ScriptFuzz.Value.Arith

/-!
# The syntax of scripts

The tree of a script follows its grammar: a sum is a product and more products behind `+` or `-`, a
product is a factor and more factors behind `*` or `/`. So the tree itself says which operator binds
tighter and that all of them group to the left. Names are kept together with what they stand for.
-/

namespace ScriptFuzz

/-- The operators of a sum. -/
inductive SumOp where
  | add
  | sub
deriving DecidableEq, Repr

/-- The operation of the operator. -/
def SumOp.arith : SumOp → Arith
  | add => .add
  | sub => .sub

/-- The operators of a product. -/
inductive ProductOp where
  | mul
  | div
deriving DecidableEq, Repr

/-- The operation of the operator. -/
def ProductOp.arith : ProductOp → Arith
  | mul => .mul
  | div => .div

/-- What a name stands for. -/
inductive Binding where
  /-- A variable, by its slot. -/
  | slot (i : Nat)
  /-- A parameter, by its number. -/
  | argument (i : Nat)
  /-- A template, by the name itself. -/
  | template
deriving DecidableEq, Repr

/-- What a call goes to. -/
inductive Callee where
  /-- The size of the only argument. -/
  | sizeof
  /-- An earlier function, by its number. -/
  | function (i : Nat)
  /-- The host, by the name itself. -/
  | host
deriving DecidableEq, Repr

mutual

/-- The smallest expressions. -/
inductive Factor where
  | int (value : Int64)
  | text (value : String)
  | name (name : String) (binding : Binding)
  | call (name : String) (callee : Callee) (arguments : List Sum)

/-- A factor, and more of them behind operators. -/
inductive Product where
  | mk (first : Factor) (more : List (ProductOp × Factor))

/-- A product, and more of them behind operators: the expressions of the language. -/
inductive Sum where
  | mk (first : Product) (more : List (SumOp × Product))

end

/-- A statement. -/
inductive ScriptStatement where
  /-- `var name = value;`, where the variable gets a slot of its own. -/
  | declare (name : String) (slot : Nat) (value : Sum)
  /-- `name = value;` -/
  | assign (name : String) (slot : Nat) (value : Sum)
  /-- `return value;` -/
  | result (value : Sum)
  /-- `value;` -/
  | evaluate (value : Sum)

/-- A function. -/
structure Function where
  /-- The name of the function. -/
  name : String
  /-- The names of the parameters. -/
  params : List String
  /-- The statements in order. -/
  body : List ScriptStatement
  /-- The number of slots that the variables take. -/
  slots : Nat

/-- A script: functions in the order of their declaration, templates in the order of their names,
and the first states of the templates' mutators. -/
structure ScriptTree where
  /-- The functions. -/
  functions : Array Function := #[]
  /-- The templates. -/
  templates : List (String × Template) := []
  /-- The mutators. -/
  pool : Pool := {}

end ScriptFuzz
