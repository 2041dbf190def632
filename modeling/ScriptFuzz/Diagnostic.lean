import ScriptFuzz.Token.Basic

/-!
# Diagnostics

Why a source text is refused, and where. A cause is lexical, grammatical or semantic; the wording of
all of them is here (`Cause.message`).
-/

namespace ScriptFuzz

/-- What a grammar looks for. -/
inductive Wanted where
  | terminal (t : Terminal)
  | declaration
  | statement
  | expression
  | constant
  | value
  | templateItem
  | elementType
deriving DecidableEq, Repr

/-- The wording of what is looked for. -/
def Wanted.describe : Wanted → String
  | terminal t => t.describe
  | declaration => "'template' or 'function'"
  | statement => "a statement"
  | expression => "an expression"
  | constant => "a constant"
  | value => "a value"
  | templateItem => "a template item"
  | elementType => "an array element type"

/-- Why a source text that follows the grammar means nothing. -/
inductive SemanticFault where
  | nestedFuzzSequence
  | vectorBounds (lower upper : UInt64)
  | vectorWithValue
  | constantTooLarge (negative : Bool) (magnitude : UInt64) (type : WireType)
  | castOfReference
  | duplicateFunction (name : String)
  | duplicateParameter (name : String)
  | duplicateTemplate (name : String)
  | unknownName (name : String)
  | unknownTemplate (name : String)
  | integerTooLarge
  | realLiteral
  | sizeofArity (given : Nat)
  | callArity (name : String) (arity given : Nat)
  | tooManyFunctions
  | tooManyArguments (name : String)
  | tooManyVariables
  | constantPoolOverflow
  | nestedFuzzGroup
  | pascalString
  | scalarTooLarge (value : UInt64) (width : Width)
  | rangedArray
  | arrayBounds (lower upper : UInt64)
  | arrayTooLarge
deriving DecidableEq, Repr

/-- The wording of a fault. -/
def SemanticFault.message : SemanticFault → String
  | nestedFuzzSequence => "fuzzed sequences cannot be nested"
  | vectorBounds lower upper => s!"vector lower bound {lower} exceeds upper bound {upper}"
  | vectorWithValue => "vectors with values are not supported"
  | constantTooLarge negative magnitude type =>
    "constant " ++ (if negative then "-" else "") ++ s!"{magnitude} does not fit in " ++ type.name
  | castOfReference => "casting references/properties is not implemented"
  | duplicateFunction name => s!"function {name} is already defined"
  | duplicateParameter name => s!"duplicate argument {name}"
  | duplicateTemplate name => s!"template {name} is already defined"
  | unknownName name => s!"unknown identifier {name}"
  | unknownTemplate name => s!"unknown template {name}"
  | integerTooLarge => "integer literal does not fit in 64 bits"
  | realLiteral => "floating point literals are not supported in scripts"
  | sizeofArity given => s!"sizeof takes 1 argument, {given} given"
  | callArity name arity given => s!"{name} takes {arity} argument(s), {given} given"
  | tooManyFunctions => "too many functions"
  | tooManyArguments name => s!"too many arguments to {name}"
  | tooManyVariables => "too many variables"
  | constantPoolOverflow => "constant pool overflow"
  | nestedFuzzGroup => "fuzzed groups cannot be nested"
  | pascalString => "pascalstring items are not supported"
  | scalarTooLarge value width => s!"{value} does not fit in {width.bytes} byte(s)"
  | rangedArray => "a ranged array must be inside a fuzzed group"
  | arrayBounds lower upper => s!"array lower bound {lower} exceeds upper bound {upper}"
  | arrayTooLarge => "array is too large"

/-- Why a source text is refused. -/
inductive Cause where
  /-- A piece of text is no token. -/
  | lexical (fault : LexFault)
  /-- The grammar looks for something else than what it finds. -/
  | grammatical (wanted : Wanted) (found : Terminal)
  /-- The text follows the grammar and means nothing. -/
  | semantic (fault : SemanticFault)
deriving DecidableEq, Repr

namespace Cause

/-- The wording of a cause. -/
def message : Cause → String
  | lexical fault => fault.message
  | grammatical wanted found => s!"expected {wanted.describe}, found {found.describe}"
  | semantic fault => fault.message

/-- The word for the kind of a cause. -/
def kind : Cause → String
  | lexical _ => "lex"
  | grammatical .. => "parse"
  | semantic _ => "semantic"

end Cause

/-- A cause and the place it is reported at. -/
structure Diagnostic where
  /-- The place. -/
  pos : Position
  /-- The cause. -/
  cause : Cause
deriving DecidableEq, Repr

namespace Diagnostic

/-- The whole message: kind, place and wording. -/
def text (d : Diagnostic) : String :=
  s!"{d.cause.kind} error at {d.pos.text}: {d.cause.message}"

/-- A semantic fault at a place. -/
def semantic (pos : Position) (fault : SemanticFault) : Diagnostic := ⟨pos, .semantic fault⟩

/-- The report that `t` stands where something else is looked for. Of a malformed token its own
fault is reported. -/
def unexpected (wanted : Wanted) (t : Token) : Diagnostic :=
  match t.lexeme with
  | .malformed fault => ⟨t.pos, .lexical fault⟩
  | lexeme => ⟨t.pos, .grammatical wanted lexeme.terminal⟩

/-- The report that the source ends, at `fin`, where something is looked for. -/
def unexpectedEnd (wanted : Wanted) (fin : Position) : Diagnostic :=
  ⟨fin, .grammatical wanted .endOfInput⟩

end Diagnostic

end ScriptFuzz
