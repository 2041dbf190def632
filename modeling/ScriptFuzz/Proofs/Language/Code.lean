import ScriptFuzz.Proofs.Language.Names
import ScriptFuzz.Script.Code

/-!
# The compiled form of a script

`Program.script` is what a script that keeps the rules is compiled to, said of the script as it is
written. Expressions become code in postfix order, constants and texts go to the pools one entry for
each occurrence, and the items of a template are added one after the other. It is total: of a script
that breaks a rule it gives something, which no statement is about.

`Language/Meaning` does not use the code; it shares with it only what templates are.
-/

namespace ScriptFuzz.Source

/-! ## Functions -/

mutual

/-- Adds the code of an expression. -/
def Term.emit (names : Naming) (e : Term) (b : CodeBuilder) : CodeBuilder :=
  match e with
  | .int n => b.pushInt (.ofInt n)
  | .text s => b.pushText s .pushText
  | .name x =>
    match names.resolve? x with
    | some (.slot i) => b.push (.getLocal i)
    | some (.argument i) => b.push (.getArg i)
    | _ => b.pushText x .getTemplate
  | .call f arguments =>
    let b := Term.emitAll names arguments b
    match names.callee f with
    | .sizeof => b.push .sizeOf
    | .function i => b.push (.call i)
    | .host => b.pushText f (.callHost · arguments.length)
  | .arith op l r => (r.emit names (l.emit names b)).push (.arith op)

/-- Adds the code of expressions, one after the other. -/
def Term.emitAll (names : Naming) (es : List Term) (b : CodeBuilder) : CodeBuilder :=
  match es with
  | [] => b
  | e :: es => Term.emitAll names es (e.emit names b)

end

namespace Statement

/-- The instruction that ends a statement. -/
def closing (names : Naming) : Statement → Instruction
  | declare _ _ => .setLocal names.locals.length
  | assign x _ => .setLocal ((Naming.slot? names.locals x).getD 0)
  | result _ => .leave
  | evaluate _ => .pop

/-- Adds the code of a statement. -/
def emit (names : Naming) (s : Statement) (b : CodeBuilder) : CodeBuilder :=
  (s.term.emit names b).push (s.closing names)

/-- Adds the code of the statements of a body. -/
def emitAll (names : Naming) (body : List Statement) (b : CodeBuilder) : CodeBuilder :=
  match body with
  | [] => b
  | s :: body => emitAll (names.behind s) body (s.emit names b)

end Statement

/-- The method of a function with the given number, where `names` are declared before it. -/
def Function.method (names : Naming) (f : Function) (index : Nat) : Method :=
  let names := names.enter f.params
  let b := Statement.emitAll names f.body {}
  { name := f.name, arguments := f.params, code := b.code
    locals := Statement.slots names f.body, ints := b.ints, texts := b.texts, index }

/-! ## Templates -/

/-- The templates that are declared before a place, and the first states of their mutators. -/
structure Templates where
  /-- The templates in the order of their names. -/
  named : List (String × Template) := []
  /-- The mutators. -/
  pool : Pool := {}

/-- Adds an item of a template; `fuzz` says whether it stands in braces. -/
def Field.build (known : List (String × Template)) (fuzz : Bool) (b : TemplateBuilder) :
    Field → TemplateBuilder
  | .scalar w v => b.pushScalar w fuzz (v.getD 0)
  | .string form seed => b.pushString form fuzz seed
  | .array w lower upper =>
    if fuzz then
      (b.pushMutator (.ofLengths w.bytes lower.toNat (upper.getD lower).toNat)).2
    else b.push (.buffer (List.replicate (lower.toNat * w.bytes) 0))
  | .reference x =>
    match known.lookup x with
    | some t => b.push t.asItem
    | none => b

/-- Adds what stands between two commas of a template. -/
def Entry.build (known : List (String × Template)) (b : TemplateBuilder) : Entry → TemplateBuilder
  | .field f => f.build known false b
  | .group fs => fs.foldl (Field.build known true) b

/-- Adds what a declaration declares. -/
def Templates.add (ts : Templates) : Declaration → Templates
  | .template x entries =>
    let b := entries.foldl (Entry.build ts.named) { pool := ts.pool }
    { named := ScriptTree.insertTemplate x b.template ts.named, pool := b.pool }
  | .function _ => ts

/-- A template that is put under a new name is found under that name. -/
theorem isSome_lookup_insertTemplate (x y : String) (t : Template)
    (known : List (String × Template)) :
    ((ScriptTree.insertTemplate x t known).lookup y).isSome ↔
      y = x ∨ (known.lookup y).isSome := by
  induction known with
  | nil =>
    rw [ScriptTree.insertTemplate, List.lookup_cons]
    split <;> simp_all
  | cons entry known ih =>
    obtain ⟨z, u⟩ := entry
    rw [ScriptTree.insertTemplate]
    split
    · rw [List.lookup_cons]
      split <;> simp_all
    · simp only [List.lookup_cons]
      split
      · simp_all
      · exact ih

/-- What is found under other names stays the same. -/
theorem lookup_insertTemplate_of_ne {x y : String} (hxy : y ≠ x) (t : Template)
    (known : List (String × Template)) :
    (ScriptTree.insertTemplate x t known).lookup y = known.lookup y := by
  induction known with
  | nil => rw [ScriptTree.insertTemplate, List.lookup_cons, beq_false_of_ne hxy]
  | cons entry known ih =>
    obtain ⟨z, u⟩ := entry
    rw [ScriptTree.insertTemplate]
    split
    · rw [List.lookup_cons, beq_false_of_ne hxy]
    · rw [List.lookup_cons, List.lookup_cons, ih]

/-- A template is found under its name, unless there was one of that name before. -/
theorem lookup_insertTemplate_self {x : String} {known : List (String × Template)}
    (hx : known.lookup x = none) (t : Template) :
    (ScriptTree.insertTemplate x t known).lookup x = some t := by
  induction known with
  | nil => rw [ScriptTree.insertTemplate, List.lookup_cons_self]
  | cons entry known ih =>
    obtain ⟨z, u⟩ := entry
    rw [List.lookup_cons] at hx
    rw [ScriptTree.insertTemplate]
    split
    · rw [List.lookup_cons_self]
    · rw [List.lookup_cons]
      split at hx
      · cases hx
      · exact ih hx

/-! ## Scripts -/

/-- What the declarations before a place amount to. -/
structure Declared where
  /-- Their names. -/
  names : Naming := {}
  /-- The templates. -/
  templates : Templates := {}
  /-- The methods of the functions. -/
  methods : Array Method := #[]

/-- Adds a declaration. -/
def Declared.add (d : Declared) (declaration : Declaration) : Declared :=
  { names := d.names.add declaration
    templates := d.templates.add declaration
    methods :=
      match declaration with
      | .template _ _ => d.methods
      | .function f => d.methods.push (f.method d.names d.methods.size) }

/-- What a script declares. -/
def Program.declared (p : Program) : Declared := p.foldl Declared.add {}

/-- The compiled form of a script. -/
def Program.script (p : Program) : Script :=
  { methods := (Program.declared p).methods
    templates := (Program.declared p).templates.named
    mutators := (Program.declared p).templates.pool.states }

end ScriptFuzz.Source
