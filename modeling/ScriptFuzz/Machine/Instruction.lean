import ScriptFuzz.Value.Basic
import ScriptFuzz.Template.Basic
import ScriptFuzz.Value.Arith

/-!
# Instructions

What functions are compiled to: instructions of a stack machine, with constants in pools beside the
code.

- `Instruction`: the operations; operands are numbers of slots, pool entries or methods.
- `Method`: the code of a function with its pools.
- `Script`: all methods, the declared templates in the order of their names, and their mutators.
- `Script.disassembly`: a listing of all methods.
-/

namespace ScriptFuzz

/-- One operation of the stack machine. -/
inductive Instruction where
  /-- Takes two values and leaves the result. -/
  | arith (op : Arith)
  /-- Calls a method with the values on the stack and leaves its result. -/
  | call (method : Nat)
  /-- Calls a method and drops its result. -/
  | callVoid (method : Nat)
  /-- Calls the host function that the pool names, with `count` values. -/
  | callHost (name count : Nat)
  /-- Takes a value and leaves its size. -/
  | sizeOf
  | pushInt (index : Nat)
  | pushText (index : Nat)
  | setLocal (slot : Nat)
  | getLocal (slot : Nat)
  | getArg (index : Nat)
  /-- Leaves the serialization of the template that the pool names. -/
  | getTemplate (name : Nat)
  /-- Reserved; no code uses it. -/
  | lookup (index : Nat)
  | pop
  /-- Ends the method with the value on the stack. -/
  | leave
deriving DecidableEq, Repr

namespace Instruction

/-- The word for the operation. -/
def mnemonic : Instruction → String
  | arith .add => "ADD"
  | arith .sub => "SUB"
  | arith .mul => "MUL"
  | arith .div => "DIV"
  | call _ => "CALL"
  | callVoid _ => "CALLVOID"
  | callHost .. => "CALLEXT"
  | sizeOf => "SIZEOF"
  | pushInt _ => "PUSHINT"
  | pushText _ => "PUSHSTRING"
  | setLocal _ => "SETLOCAL"
  | getLocal _ => "GETLOCAL"
  | getArg _ => "GETARG"
  | getTemplate _ => "GETTEMPLATE"
  | lookup _ => "LOOKUP"
  | pop => "POP"
  | leave => "RETURN"

/-- The operands, in the order in which they are written. -/
def operands : Instruction → List Nat
  | call i | callVoid i | pushInt i | pushText i | setLocal i | getLocal i | getArg i
  | getTemplate i | lookup i => [i]
  | callHost name count => [name, count]
  | arith _ | sizeOf | pop | leave => []

/-- The instruction as it is listed. -/
def text (i : Instruction) : String :=
  match i.operands with
  | [] => i.mnemonic
  | operands => i.mnemonic ++ " " ++ ", ".intercalate (operands.map toString)

/-- Every operation with the given operands. -/
def table (index count : Nat) : List Instruction :=
  [arith .add, arith .sub, arith .mul, arith .div, call index, callVoid index,
   callHost index count, sizeOf, pushInt index, pushText index, setLocal index, getLocal index,
   getArg index, getTemplate index, lookup index, pop, leave]

/-- The operation with a given word. Operands that it does not have are ignored. -/
def ofMnemonic? (word : String) (index count : Nat) : Option Instruction :=
  (table index count).find? (·.mnemonic == word)

end Instruction

/-- A compiled function. -/
structure Method where
  /-- The name it is called by. -/
  name : String
  /-- The names of its arguments. -/
  arguments : List String := []
  /-- The code. -/
  code : Array Instruction := #[]
  /-- The number of slots for local variables. -/
  locals : Nat := 0
  /-- The integer constants. -/
  ints : Array Int64 := #[]
  /-- The texts: string constants, and names of templates and host functions. -/
  texts : Array String := #[]
  /-- The number by which it is called. -/
  index : Nat := 0
deriving Inhabited, Repr

namespace Method

/-- The number of arguments. -/
def arity (m : Method) : Nat := m.arguments.length

/-- What is noted beside an instruction: the constant or the name behind its operand. -/
def annotation? (m : Method) : Instruction → Option String
  | .pushInt i => m.ints[i]?.map fun n => toString n.toInt
  | .pushText i | .callHost i _ | .getTemplate i => m.texts[i]?.map Text.quoted
  | .getArg i => m.arguments[i]?
  | _ => none

/-- A number with at least four digits. -/
def lineNumber (n : Nat) : String :=
  let digits := Nat.toDigits 10 n
  String.ofList (List.replicate (4 - digits.length) '0' ++ digits)

/-- The listing of a method. -/
def disassembly (m : Method) : String :=
  let arguments := ", ".intercalate m.arguments
  let head := s!"function {m.name}({arguments}) ; method #{m.index}, {m.locals} local(s)\n"
  m.code.toList.zipIdx.foldl (fun out (i, ip) =>
    let note := match m.annotation? i with
      | some note => " ; " ++ note
      | none => ""
    out ++ s!"  {lineNumber ip}  {i.text}{note}\n") head

end Method

/-- A compiled script. -/
structure Script where
  /-- The methods in the order of their declaration. -/
  methods : Array Method := #[]
  /-- The templates in the order of their names. -/
  templates : List (String × Template) := []
  /-- The first states of the mutators in the templates. -/
  mutators : Array Mutator := #[]
deriving Inhabited

namespace Script

/-- The first method of a given name. -/
def method? (s : Script) (name : String) : Option Method := s.methods.find? (·.name == name)

/-- The template of a given name. -/
def template? (s : Script) (name : String) : Option Template := s.templates.lookup name

/-- The listing of all methods, with a blank line behind each. -/
def disassembly (s : Script) : String :=
  s.methods.foldl (fun out m => out ++ m.disassembly ++ "\n") ""

/-- The pool of the script's mutators, in their first states and held by nobody. -/
def pool (s : Script) : Pool := { states := s.mutators }

end Script

end ScriptFuzz
