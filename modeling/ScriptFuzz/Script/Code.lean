import ScriptFuzz.Machine.Instruction
import ScriptFuzz.Script.Parser

/-!
# From scripts to code

The code of an expression leaves its value on the stack: operands and arguments from left to right,
then the operation. Constants go to the pools in the order in which they occur, one entry for every
occurrence. The code of a statement leaves the stack as it was.

`compile` reads a source text and gives the compiled script.
-/

namespace ScriptFuzz

/-- Code under construction, with its pools. -/
structure CodeBuilder where
  /-- The instructions so far. -/
  code : Array Instruction := #[]
  /-- The integer constants so far. -/
  ints : Array Int64 := #[]
  /-- The texts so far. -/
  texts : Array String := #[]

namespace CodeBuilder

/-- Adds an instruction. -/
def push (b : CodeBuilder) (i : Instruction) : CodeBuilder := { b with code := b.code.push i }

/-- Adds an integer constant and the instruction that takes it from the pool. -/
def pushInt (b : CodeBuilder) (value : Int64) : CodeBuilder :=
  { b with code := b.code.push (.pushInt b.ints.size), ints := b.ints.push value }

/-- Adds a text and an instruction that takes it from the pool. -/
def pushText (b : CodeBuilder) (text : String) (i : Nat → Instruction) : CodeBuilder :=
  { b with code := b.code.push (i b.texts.size), texts := b.texts.push text }

end CodeBuilder

mutual

/-- Adds the code of a factor. -/
def Factor.emit (f : Factor) (b : CodeBuilder) : CodeBuilder :=
  match f with
  | .int value => b.pushInt value
  | .text value => b.pushText value .pushText
  | .name _ (.slot i) => b.push (.getLocal i)
  | .name _ (.argument i) => b.push (.getArg i)
  | .name name .template => b.pushText name .getTemplate
  | .call _ .sizeof arguments => (Sum.emitAll arguments b).push .sizeOf
  | .call _ (.function i) arguments => (Sum.emitAll arguments b).push (.call i)
  | .call name .host arguments =>
    (Sum.emitAll arguments b).pushText name (.callHost · arguments.length)

/-- Adds the code of the factors behind the first one. -/
def Factor.emitMore (more : List (ProductOp × Factor)) (b : CodeBuilder) : CodeBuilder :=
  match more with
  | [] => b
  | (op, f) :: more => Factor.emitMore more ((f.emit b).push (.arith op.arith))

/-- Adds the code of a product. -/
def Product.emit (p : Product) (b : CodeBuilder) : CodeBuilder :=
  match p with
  | .mk first more => Factor.emitMore more (first.emit b)

/-- Adds the code of the products behind the first one. -/
def Product.emitMore (more : List (SumOp × Product)) (b : CodeBuilder) : CodeBuilder :=
  match more with
  | [] => b
  | (op, p) :: more => Product.emitMore more ((p.emit b).push (.arith op.arith))

/-- Adds the code of a sum. -/
def Sum.emit (s : Sum) (b : CodeBuilder) : CodeBuilder :=
  match s with
  | .mk first more => Product.emitMore more (first.emit b)

/-- Adds the code of arguments. -/
def Sum.emitAll (sums : List Sum) (b : CodeBuilder) : CodeBuilder :=
  match sums with
  | [] => b
  | s :: sums => Sum.emitAll sums (s.emit b)

end

/-- Adds the code of a statement. -/
def ScriptStatement.emit (b : CodeBuilder) : ScriptStatement → CodeBuilder
  | .declare _ slot value => (value.emit b).push (.setLocal slot)
  | .assign _ slot value => (value.emit b).push (.setLocal slot)
  | .result value => (value.emit b).push .leave
  | .evaluate value => (value.emit b).push .pop

/-- The method of a function with the given number. -/
def Function.method (f : Function) (index : Nat) : Method :=
  let b := f.body.foldl ScriptStatement.emit {}
  { name := f.name, arguments := f.params, code := b.code, locals := f.slots
    ints := b.ints, texts := b.texts, index }

/-- The compiled form of a script. -/
def ScriptTree.script (tree : ScriptTree) : Script :=
  { methods := tree.functions.mapIdx fun i f => f.method i
    templates := tree.templates
    mutators := tree.pool.states }

/-- Compiles a source text. -/
def compile (source : String) : Except Diagnostic Script :=
  (ScriptTree.parse source).map ScriptTree.script

end ScriptFuzz
