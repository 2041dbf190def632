import ScriptFuzz.Expr.Basic
import ScriptFuzz.Token.Cursor

/-!
# Reading template expressions

`Expr.parse` and `ExprStatement.parse` read from the front of a list of tokens. Expressions are
numbered in the order in which they are completed, and a later attempt goes on counting where an
earlier one stopped. Whether they lie inside a fuzzed sequence is what the cursor says when they are
completed.
-/

namespace ScriptFuzz

/-- Completes an expression, which takes the next number. -/
def Cursor.complete (c : Cursor) {start : Cursor} (e : Tag → Expr)
    (h : c.rest.length < start.rest.length) : ParseResult Expr start :=
  .parsed (e ⟨c.nextId, c.inFuzz⟩) { c with nextId := c.nextId + 1 } h

namespace Expr

/-- Reads the value between the parentheses of a constant. A minus sign in front of the digits is
part of the literal, and its place is the place of the constant. -/
def constantValue (fin : Position) (type : WireType) (c : Cursor) : ParseResult Int c :=
  (c.take fin .constant).bind fun t after shorter =>
    match t.lexeme with
    | .integer magnitude =>
      if (magnitude.toNat : Int) ≤ type.greatest then .parsed magnitude.toNat after shorter
      else .stopped (.semantic t.pos (.constantTooLarge false magnitude type)) after
    | .mark .minus =>
      ((after.integer fin).behind shorter).bind fun (magnitude, _) after shorter =>
        if type.signed ∧ type.least ≤ -(magnitude.toNat : Int) then
          .parsed (-(magnitude.toNat : Int)) after shorter
        else .stopped (.semantic t.pos (.constantTooLarge true magnitude type)) after
    | .mark .dollar => .stopped (.semantic t.pos .castOfReference) after
    | _ => .stopped (.unexpected .constant t) after

/-- Reads the bounds of a vector behind its `<`, with the place of the lower one. -/
def vectorBounds (fin : Position) (c : Cursor) :
    ParseResult (UInt64 × UInt64 × Position) c :=
  (c.integer fin).bind fun (lower, pos) after shorter =>
    match after.pass? (.mark .minus) with
    | none => .parsed (lower, lower, pos) after shorter
    | some ⟨after, shorter'⟩ =>
      (((after.integer fin).behind shorter').behind shorter).bind fun (upper, _) after shorter =>
        .parsed (lower, upper, pos) after shorter

/-- Reads what follows a type: a value in parentheses, bounds in angle brackets, or nothing. -/
def typed {start : Cursor} (fin : Position) (type : WireType) (c : Cursor)
    (h : c.rest.length < start.rest.length) : ParseResult Expr start :=
  match c.pass? (.mark .openParen), c.pass? (.mark .less) with
  | some ⟨after, shorter⟩, _ =>
    (((constantValue fin type after).behind shorter).behind h).bind fun value after shorter =>
      ((after.expect fin (.mark .closeParen)).behind shorter).bind fun _ after shorter =>
        after.complete (.constant · type value) shorter
  | none, some ⟨after, shorter⟩ =>
    (((vectorBounds fin after).behind shorter).behind h).bind
      fun (lower, upper, pos) after shorter =>
      ((after.expect fin (.mark .greater)).behind shorter).bind fun _ after shorter =>
        if upper < lower then .stopped (.semantic pos (.vectorBounds lower upper)) after
        else match after.rest.head? with
          | some ⟨.mark .openParen, pos⟩ => .stopped (.semantic pos .vectorWithValue) after
          | _ => after.complete (.vector · type lower upper) shorter
  | none, none => c.complete (.type · type) h

/-- Reads what follows a dollar sign: a name, or two with a point between them. -/
def named {start : Cursor} (fin : Position) (c : Cursor)
    (h : c.rest.length < start.rest.length) : ParseResult Expr start :=
  ((c.ident fin).behind h).bind fun (name, _) after shorter =>
    match after.pass? (.mark .dot) with
    | none => after.complete (.reference · name) shorter
    | some ⟨after, shorter'⟩ =>
      (((after.ident fin).behind shorter').behind shorter).bind fun (part, _) after shorter =>
        after.complete (.property · name part) shorter

mutual

/-- Reads an expression. Inside a fuzzed sequence there may be no other one. -/
def parse (fin : Position) (c : Cursor) : ParseResult Expr c :=
  match c.take fin .expression with
  | .stopped diagnostic after => .stopped diagnostic after
  | .parsed t after shorter =>
    match t.lexeme with
    | .keyword (.wire wireType) => typed fin wireType after shorter
    | .mark .dollar => named fin after shorter
    | .mark .openBracket =>
      (parseItems fin .closeBracket [] after c (by omega)).bind
        fun items after shorter => after.complete (.sequence · items) shorter
    | .mark .openBrace =>
      if after.inFuzz then .stopped (.semantic t.pos .nestedFuzzSequence) after
      else
        (parseItems fin .closeBrace [] after.enterFuzz c (Cursor.le_of_lt shorter)).leaveFuzz.bind
          fun items after shorter => after.complete (.fuzz · items) shorter
    | _ => .stopped (.unexpected .expression t) after
termination_by (c.rest.length, 0)

/-- Reads expressions with commas between them up to the mark that closes them; `read` holds those
before, last one first. -/
def parseItems (fin : Position) (close : Mark) (read : List Expr) (c : Cursor)
    (start : Cursor) (h : c.rest.length ≤ start.rest.length) : ParseResult (List Expr) start :=
  match parse fin c with
  | .stopped diagnostic after => .stopped diagnostic after
  | .parsed item after shorter =>
    match after.pass? (.mark .comma) with
    | some ⟨after, shorter'⟩ =>
      parseItems fin close (item :: read) after start (by omega)
    | none =>
      ((after.expect fin (.mark close)).weaken (by omega)).bind fun _ after shorter =>
        .parsed (item :: read).reverse after shorter
termination_by (c.rest.length, 1)

end

end Expr

namespace ExprStatement

/-- Reads values, each behind a `<<`, up to the semicolon; `read` holds those before, last one
first. -/
def parseOutput (fin : Position) (read : List Expr) (c : Cursor) (start : Cursor)
    (h : c.rest.length ≤ start.rest.length) : ParseResult ExprStatement start :=
  match c.pass? (.mark .output) with
  | none =>
    ((c.expect fin (.mark .semicolon)).weaken h).bind fun _ after shorter =>
      .parsed (.output read.reverse) after shorter
  | some ⟨after, shorter⟩ =>
    match Expr.parse fin after with
    | .stopped diagnostic after => .stopped diagnostic after
    | .parsed value after shorter' => parseOutput fin (value :: read) after start (by omega)
termination_by c.rest.length

/-- Reads a statement. A token that begins none is not taken. -/
def parse (fin : Position) (c : Cursor) : ParseResult ExprStatement c :=
  match c.rest.head? with
  | none => .stopped (.unexpectedEnd .statement fin) c
  | some t =>
    match t.lexeme with
    | .mark .dollar =>
      (c.variableName fin).bind fun (name, _) after shorter =>
        ((after.expect fin (.mark .assign)).behind shorter).bind fun _ after shorter =>
          ((Expr.parse fin after).behind shorter).bind fun value after shorter =>
            ((after.expect fin (.mark .semicolon)).behind shorter).bind fun _ after shorter =>
              .parsed (.declaration name value) after shorter
    | .mark .output => parseOutput fin [] c c (Nat.le_refl _)
    | .mark .openBracket =>
      (Expr.parse fin c).bind fun layout after shorter =>
        ((after.expect fin (.mark .input)).behind shorter).bind fun _ after shorter =>
          ((after.variableName fin).behind shorter).bind fun (name, _) after shorter =>
            ((after.expect fin (.mark .semicolon)).behind shorter).bind fun _ after shorter =>
              .parsed (.input layout name) after shorter
    | _ => .stopped (.unexpected .statement t) c

/-- Reads statements up to the end of the source; `read` holds those before, last one first. -/
def parseAll (fin : Position) (read : List ExprStatement) (c : Cursor) :
    Except Diagnostic (List ExprStatement) × Cursor :=
  match c.rest with
  | [] => (.ok read.reverse, c)
  | _ :: _ =>
    match parse fin c with
    | .stopped diagnostic after => (.error diagnostic, after)
    | .parsed statement after _ => parseAll fin (statement :: read) after
termination_by c.rest.length

end ExprStatement

end ScriptFuzz
