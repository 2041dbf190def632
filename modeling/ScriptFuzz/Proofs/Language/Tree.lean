import ScriptFuzz.Script.Syntax

/-!
# Scripts as they are written

The trees that a script spells out, before anything is looked up: names are only names, and nothing
says whether they are declared. The trees that are read from tokens (`ScriptFuzz.Sum` and its
kin) keep what each name stands for and the shape of the grammar; the trees here keep neither.

- `Source.Term`, `Source.Statement`, `Source.Function`: functions and what they consist of.
- `Source.Field`, `Source.Entry`: the items of templates, and groups of them in braces.
- `Source.Program`: a script, declaration by declaration.

The grammar of these trees is in `Language/Grammar`, the rules that they have to keep in
`Language/Rules`, and what they mean in `Language/Meaning` and `Language/Code`.
-/

namespace ScriptFuzz.Source

/-- Expressions. A literal stands for its value, whatever the signs and digits it is written with.
-/
inductive Term where
  | int (value : Int)
  | text (value : String)
  | name (name : String)
  | call (name : String) (arguments : List Term)
  | arith (op : Arith) (left right : Term)

/-- What holds of an expression when it holds of its parts, holds of every expression. -/
@[elab_as_elim, induction_eliminator]
theorem Term.induct {motive : Term → Prop}
    (int : ∀ n, motive (.int n)) (text : ∀ s, motive (.text s)) (name : ∀ x, motive (.name x))
    (call : ∀ f as, (∀ a ∈ as, motive a) → motive (.call f as))
    (arith : ∀ op l r, motive l → motive r → motive (.arith op l r)) : ∀ e, motive e
  | .int n => int n
  | .text s => text s
  | .name x => name x
  | .call f as => call f as fun a _ => Term.induct int text name call arith a
  | .arith op l r =>
    arith op l r (Term.induct int text name call arith l) (Term.induct int text name call arith r)

/-- Statements. -/
inductive Statement where
  /-- `var name = value;` -/
  | declare (name : String) (value : Term)
  /-- `name = value;` -/
  | assign (name : String) (value : Term)
  /-- `return value;` -/
  | result (value : Term)
  /-- `value;` -/
  | evaluate (value : Term)

/-- The expression in a statement. -/
def Statement.term : Statement → Term
  | declare _ e => e
  | assign _ e => e
  | result e => e
  | evaluate e => e

/-- A function. -/
structure Function where
  /-- The name of the function. -/
  name : String
  /-- The names of the parameters. -/
  params : List String
  /-- The statements in order. -/
  body : List Statement

/-- The items of templates. -/
inductive Field where
  /-- An integer, which is zero if there is no value. -/
  | scalar (width : Width) (value : Option UInt64)
  /-- A string, which is empty if there is no seed. -/
  | string (form : StringForm) (seed : Option String)
  /-- An array of `lower` elements, or of any number from `lower` to `upper`. -/
  | array (width : Width) (lower : UInt64) (upper : Option UInt64)
  /-- A template declared before. -/
  | reference (name : String)

/-- What stands between the commas of a template: an item, or items in braces that are to be
fuzzed. -/
inductive Entry where
  | field (field : Field)
  | group (fields : List Field)

/-- The declarations of a script. -/
inductive Declaration where
  | template (name : String) (entries : List Entry)
  | function (function : Function)

/-- A script as it is written. -/
abbrev Program := List Declaration

end ScriptFuzz.Source
