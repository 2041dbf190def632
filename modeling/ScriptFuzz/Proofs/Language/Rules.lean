import ScriptFuzz.Proofs.Language.Names

/-!
# The rules of scripts

What a script has to keep beyond its grammar.

- Names: templates, functions, and the parameters of a function are distinct; a name that is used is
  a variable above, a parameter, or a template above; a name that is assigned is a variable above; a
  template that is referred to is declared above.
- Calls: `sizeof` takes one argument, and a function declared above takes as many as it has
  parameters.
- Numbers: literals fit 64 bits with a sign, scalars fit their width, arrays that vary lie in braces
  and do not end below their start, and the size of an array that does not vary fits 64 bits.
- Room: the variables, the integers and the texts of one function, and the functions and parameters
  that are used, are numbered with 16 bits; the arguments of a host call are counted with 8. Texts
  are string literals, and the names of templates and host functions wherever they are used.
-/

namespace ScriptFuzz.Source

/-! ## Expressions -/

/-- Whether the value of a name can be used. -/
def Naming.Offers (names : Naming) (x : String) : Prop :=
  match names.resolve? x with
  | some (.argument i) => i < Scope.limit
  | some _ => True
  | none => False

/-- Whether a name can be called with a number of arguments. -/
def Naming.Takes (names : Naming) (f : String) (given : Nat) : Prop :=
  match names.callee f with
  | .sizeof => given = 1
  | .function i => (names.functions[i]?).map (·.2) = some given ∧ i < Scope.limit
  | .host => given ≤ Scope.maxHostArguments

/-- Whether an expression keeps the rules on names, calls and numbers. -/
def Term.Valid (names : Naming) : Term → Prop
  | .int n => -2 ^ (63 : Nat) ≤ n ∧ n < 2 ^ (63 : Nat)
  | .text _ => True
  | .name x => names.Offers x
  | .call f arguments => (∀ a ∈ arguments, a.Valid names) ∧ names.Takes f arguments.length
  | .arith _ l r => l.Valid names ∧ r.Valid names

mutual

/-- The number of integers in an expression. -/
def Term.ints : Term → Nat
  | .int _ => 1
  | .text _ => 0
  | .name _ => 0
  | .call _ arguments => Term.intsAll arguments
  | .arith _ l r => l.ints + r.ints

/-- The number of integers in a list of expressions. -/
def Term.intsAll : List Term → Nat
  | [] => 0
  | e :: es => e.ints + Term.intsAll es

end

mutual

/-- The number of texts in an expression. A call of the host names what it calls. -/
def Term.texts (names : Naming) : Term → Nat
  | .int _ => 0
  | .text _ => 1
  | .name x => if names.resolve? x = some .template then 1 else 0
  | .call f arguments =>
    Term.textsAll names arguments + if names.callee f = .host then 1 else 0
  | .arith _ l r => l.texts names + r.texts names

/-- The number of texts in a list of expressions. -/
def Term.textsAll (names : Naming) : List Term → Nat
  | [] => 0
  | e :: es => e.texts names + Term.textsAll names es

end

/-! ## Statements and functions -/

namespace Statement

/-- Whether a statement keeps the rules on names, calls and numbers. -/
def Valid (names : Naming) (s : Statement) : Prop :=
  s.term.Valid names ∧
    match s with
    | assign x _ => x ∈ names.locals
    | _ => True

@[simp] theorem valid_declare {names : Naming} {x : String} {e : Term} :
    (declare x e).Valid names ↔ e.Valid names := .of_eq (and_true _)

@[simp] theorem valid_assign {names : Naming} {x : String} {e : Term} :
    (assign x e).Valid names ↔ e.Valid names ∧ x ∈ names.locals := .rfl

@[simp] theorem valid_result {names : Naming} {e : Term} :
    (result e).Valid names ↔ e.Valid names := .of_eq (and_true _)

@[simp] theorem valid_evaluate {names : Naming} {e : Term} :
    (evaluate e).Valid names ↔ e.Valid names := .of_eq (and_true _)

/-- Whether all statements of a body keep them. -/
def AllValid (names : Naming) : List Statement → Prop
  | [] => True
  | s :: body => s.Valid names ∧ AllValid (names.behind s) body

/-- The number of integers in a body. -/
def allInts : List Statement → Nat
  | [] => 0
  | s :: body => s.term.ints + allInts body

/-- The number of texts in a body. -/
def allTexts (names : Naming) : List Statement → Nat
  | [] => 0
  | s :: body => s.term.texts names + allTexts (names.behind s) body

end Statement

/-- Whether a function keeps the rules, where `names` are declared before it. -/
structure Function.Valid (names : Naming) (f : Function) : Prop where
  fresh : f.name ∉ names.functions.map (·.1)
  params : f.params.Nodup
  body : Statement.AllValid (names.enter f.params) f.body
  slots : Statement.slots (names.enter f.params) f.body ≤ Scope.limit
  ints : Statement.allInts f.body ≤ Scope.limit
  texts : Statement.allTexts (names.enter f.params) f.body ≤ Scope.limit

/-! ## Templates and scripts -/

/-- Whether an item keeps the rules; `fuzz` says whether it stands in braces. -/
def Field.Valid (names : Naming) (fuzz : Bool) : Field → Prop
  | .scalar w v => ∀ n ∈ v, n.toNat ≤ w.max
  | .string _ _ => True
  | .array w lower upper =>
    (∀ n ∈ upper, fuzz ∧ lower ≤ n) ∧ (fuzz ∨ lower.toNat * w.bytes < 2 ^ (64 : Nat))
  | .reference x => x ∈ names.templates

/-- Whether what stands between two commas of a template keeps the rules. -/
def Entry.Valid (names : Naming) : Entry → Prop
  | .field f => f.Valid names false
  | .group fs => ∀ f ∈ fs, f.Valid names true

/-- Whether a declaration keeps the rules, where `names` are declared before it. -/
def Declaration.Valid (names : Naming) : Declaration → Prop
  | .template x entries => x ∉ names.templates ∧ ∀ e ∈ entries, e.Valid names
  | .function f => f.Valid names

/-- Whether a script keeps the rules, where `names` are declared before it. -/
def Program.ValidFrom (names : Naming) : Program → Prop
  | [] => True
  | d :: p => d.Valid names ∧ ValidFrom (names.add d) p

/-- Whether a script keeps the rules. -/
def Program.Valid (p : Program) : Prop := Program.ValidFrom {} p

end ScriptFuzz.Source
