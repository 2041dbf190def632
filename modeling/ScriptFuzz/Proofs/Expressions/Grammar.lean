import ScriptFuzz.Expr.Basic
import ScriptFuzz.Proofs.Language.Grammar
import ScriptFuzz.Proofs.Tokens.Printing

/-!
# The grammar of template expressions

Which expressions there are, and which lexemes they are written with.

- `Expr.WellFormed`, `ExprStatement.WellFormed`: the expressions that can be written. Sequences have
  items, constants are values of their type, bounds are in order, names are names, and no fuzzed
  sequence lies inside another.
- `Expr.Written`, `ExprStatement.Written`: the lexemes that spell an expression and a statement.
  Equal bounds may be written once, and zero may have a sign if its type has one.
- `Expr.bare`, `ExprStatement.bare`: expressions without their tags. What is written does not tell
  the tags.
-/

namespace ScriptFuzz

open Source

/-! ## Tags -/

mutual

/-- An expression with blank tags. -/
def Expr.bare : Expr → Expr
  | .type _ t => .type default t
  | .constant _ t value => .constant default t value
  | .reference _ name => .reference default name
  | .property _ name part => .property default name part
  | .vector _ t lower upper => .vector default t lower upper
  | .sequence _ items => .sequence default (Expr.bareAll items)
  | .fuzz _ items => .fuzz default (Expr.bareAll items)

/-- Expressions with blank tags. -/
def Expr.bareAll : List Expr → List Expr
  | [] => []
  | e :: es => e.bare :: Expr.bareAll es

end

@[simp] theorem Expr.bareAll_eq_map (es : List Expr) : bareAll es = es.map bare := by
  induction es with
  | nil => rfl
  | cons e es ih => rw [bareAll, ih, List.map_cons]

/-- A statement whose expressions have blank tags. -/
def ExprStatement.bare : ExprStatement → ExprStatement
  | declaration name value => declaration name value.bare
  | output values => output (values.map Expr.bare)
  | input layout name => input layout.bare name

/-! ## Expressions that can be written -/

namespace Expr

/-- An expression that can be written; `inFuzz` says whether it lies inside a fuzzed sequence. -/
inductive WellFormed : (inFuzz : Bool) → Expr → Prop
  | type {inFuzz : Bool} (tag : Tag) (t : WireType) : WellFormed inFuzz (.type tag t)
  | constant {inFuzz : Bool} (tag : Tag) {t : WireType} {value : Int} (hv : t.Holds value) :
      WellFormed inFuzz (.constant tag t value)
  | reference {inFuzz : Bool} (tag : Tag) {name : String} (hn : IsName name) :
      WellFormed inFuzz (.reference tag name)
  | property {inFuzz : Bool} (tag : Tag) {name part : String} (hn : IsName name)
      (hp : IsName part) : WellFormed inFuzz (.property tag name part)
  | vector {inFuzz : Bool} (tag : Tag) (t : WireType) {lower upper : UInt64}
      (hle : lower ≤ upper) : WellFormed inFuzz (.vector tag t lower upper)
  | sequence {inFuzz : Bool} (tag : Tag) {items : List Expr} (hne : items ≠ [])
      (hi : ∀ e ∈ items, WellFormed inFuzz e) : WellFormed inFuzz (.sequence tag items)
  | fuzz (tag : Tag) {items : List Expr} (hne : items ≠ [])
      (hi : ∀ e ∈ items, WellFormed true e) : WellFormed false (.fuzz tag items)

/-! ## How they are written -/

/-- The lexemes that spell a number of a type. -/
inductive ValueWritten (t : WireType) : List Lexeme → Int → Prop
  | plain (v : UInt64) : ValueWritten t [.integer v] v.toNat
  | minus (ht : t.signed) (v : UInt64) : ValueWritten t [.mark .minus, .integer v] (-v.toNat)

/-- The lexemes that spell an expression, whatever its tags are. -/
inductive Written : List Lexeme → Expr → Prop
  | type (tag : Tag) (t : WireType) : Written [.keyword (.wire t)] (.type tag t)
  | constant (tag : Tag) {t : WireType} {ts : List Lexeme} {value : Int}
      (hv : ValueWritten t ts value) :
      Written (.keyword (.wire t) :: .mark .openParen :: ts ++ [.mark .closeParen])
        (.constant tag t value)
  | reference (tag : Tag) (name : String) :
      Written [.mark .dollar, .ident name] (.reference tag name)
  | property (tag : Tag) (name part : String) :
      Written [.mark .dollar, .ident name, .mark .dot, .ident part] (.property tag name part)
  | vector (tag : Tag) (t : WireType) (n : UInt64) :
      Written [.keyword (.wire t), .mark .less, .integer n, .mark .greater] (.vector tag t n n)
  | range (tag : Tag) (t : WireType) (n m : UInt64) :
      Written
        [.keyword (.wire t), .mark .less, .integer n, .mark .minus, .integer m, .mark .greater]
        (.vector tag t n m)
  | sequence (tag : Tag) {items : List (List Lexeme × Expr)} (hi : ∀ i ∈ items, Written i.1 i.2) :
      Written (.mark .openBracket :: commas (items.map (·.1)) ++ [.mark .closeBracket])
        (.sequence tag (items.map (·.2)))
  | fuzz (tag : Tag) {items : List (List Lexeme × Expr)} (hi : ∀ i ∈ items, Written i.1 i.2) :
      Written (.mark .openBrace :: commas (items.map (·.1)) ++ [.mark .closeBrace])
        (.fuzz tag (items.map (·.2)))

/-- What may stand behind an expression. A parenthesis, an angle bracket or a point would be taken
for a part of it. -/
def Ends (rest : List Lexeme) : Prop :=
  ∀ m ∈ [Mark.openParen, .less, .dot], rest.head? ≠ some (.mark m)

theorem ends_nil : Ends [] := by simp [Ends]

theorem ends_mark {m : Mark} (hm : m ∉ [Mark.openParen, .less, .dot]) (rest : List Lexeme) :
    Ends (.mark m :: rest) := by
  intro m' hm' h
  obtain rfl : m = m' := by simpa using h
  exact hm hm'

end Expr

/-! ## Statements -/

namespace ExprStatement

/-- A statement that can be written. The layout of an input is a sequence. -/
inductive WellFormed : ExprStatement → Prop
  | declaration {name : String} {value : Expr} (hn : IsName name) (hv : value.WellFormed false) :
      WellFormed (.declaration name value)
  | output {values : List Expr} (hne : values ≠ []) (hv : ∀ e ∈ values, e.WellFormed false) :
      WellFormed (.output values)
  | input {tag : Tag} {items : List Expr} {name : String}
      (hl : (Expr.sequence tag items).WellFormed false) (hn : IsName name) :
      WellFormed (.input (.sequence tag items) name)

/-- The lexemes that spell a statement. -/
inductive Written : List Lexeme → ExprStatement → Prop
  | declaration (name : String) {ts : List Lexeme} {value : Expr} (hv : value.Written ts) :
      Written (.mark .dollar :: .ident name :: .mark .assign :: ts ++ [.mark .semicolon])
        (.declaration name value)
  | output {values : List (List Lexeme × Expr)} (hv : ∀ v ∈ values, v.2.Written v.1) :
      Written (values.flatMap (fun v => .mark .output :: v.1) ++ [.mark .semicolon])
        (.output (values.map (·.2)))
  | input {ts : List Lexeme} {layout : Expr} (hl : layout.Written ts) (name : String) :
      Written (ts ++ [.mark .input, .mark .dollar, .ident name, .mark .semicolon])
        (.input layout name)

/-- The lexemes that spell statements, one after the other. -/
inductive AllWritten : List Lexeme → List ExprStatement → Prop
  | nil : AllWritten [] []
  | cons {ts us : List Lexeme} {s : ExprStatement} {ss : List ExprStatement} (hs : s.Written ts)
      (h : AllWritten us ss) : AllWritten (ts ++ us) (s :: ss)

end ExprStatement

end ScriptFuzz
