import ScriptFuzz.Expr.Basic
import ScriptFuzz.Template.Builder

/-!
# Templates from expressions

`Expr.lower` turns an expression into the items of a template. Integers become scalars of their
width, vectors become zeros, and references become references to declared templates. Inside a fuzzed
sequence integers become counters and vectors become arrays of varying length.

Each mutator is listed under the number of the expression it comes from.
-/

namespace ScriptFuzz

/-- Templates by name. Of two with one name the first one counts. -/
abbrev Declared := List (String × Template)

/-- A template that is built from an expression. -/
structure Lowering where
  /-- The template so far. -/
  builder : TemplateBuilder := {}
  /-- The mutators so far, each under the number of its expression. -/
  origins : Array (Nat × MutatorId) := #[]

namespace Lowering

/-- Adds an item. -/
def push (s : Lowering) (item : Item) : Lowering := { s with builder := s.builder.push item }

/-- Adds a mutator that comes from the expression with a given number. -/
def pushMutator (s : Lowering) (origin : Nat) (m : Mutator) : Lowering :=
  let (id, builder) := s.builder.pushMutator m
  { builder, origins := s.origins.push (origin, id) }

/-- The mutators, each under the number of its expression, in increasing order. -/
def mutators (s : Lowering) : List (Nat × MutatorId) :=
  s.origins.toList.mergeSort fun a b => a.1 ≤ b.1

end Lowering

namespace Expr

/-- Lowers an integer of a given value. -/
def lowerScalar (tag : Tag) (t : WireType) (bits : UInt64) (s : Lowering) :
    Except TemplateError Lowering :=
  if !tag.fuzzy then .ok (s.push (t.width.scalar bits))
  else if t.width = .three then .error (.unfuzzableType t)
  else .ok (s.pushMutator tag.id (.ofWidth t.width bits.toNat))

mutual

/-- Adds what an expression lowers to. -/
def lower (declared : Declared) (e : Expr) (s : Lowering) : Except TemplateError Lowering :=
  match e with
  | .type tag t => lowerScalar tag t 0 s
  | .constant tag t value => lowerScalar tag t (constantBits value) s
  | .reference _ name =>
    match declared.lookup name with
    | some target => .ok (s.push target.asItem)
    | none => .error (.unknownReference name)
  | .property _ name part => .error (.propertyAccess name part)
  | .vector tag t lower upper =>
    if tag.fuzzy then
      .ok (s.pushMutator tag.id (.ofLengths t.width.bytes lower.toNat upper.toNat))
    else if lower = upper then
      .ok (s.push (.buffer (List.replicate (lower.toNat * t.width.bytes % 2 ^ (64 : Nat)) 0)))
    else .error (.rangedVector t lower upper)
  | .sequence _ items => lowerAll declared items s
  | .fuzz _ items => lowerAll declared items s

/-- Adds what expressions lower to, one after the other. -/
def lowerAll (declared : Declared) (es : List Expr) (s : Lowering) :
    Except TemplateError Lowering :=
  match es with
  | [] => .ok s
  | e :: es =>
    match lower declared e s with
    | .ok s => lowerAll declared es s
    | .error error => .error error

end

end Expr

end ScriptFuzz
