import ScriptFuzz.Script.Scope
import ScriptFuzz.Template.Builder
import ScriptFuzz.Token.Cursor
import ScriptFuzz.Token.Scan

/-!
# Reading scripts

`ScriptTree.parse` reads a whole source text. What the grammar leaves open (what names stand for,
whether a value fits) is checked in the order of the text, so that the first fault in the text is
the one reported.
-/

namespace ScriptFuzz

namespace ParseResult

/-- The outcome of a check at a place. -/
def ofCheck {α : Type} {start : Cursor} (pos : Position) (c : Cursor)
    (h : c.rest.length < start.rest.length) : Except SemanticFault α → ParseResult α start
  | .ok value => .parsed value c h
  | .error fault => .stopped (.semantic pos fault) c

end ParseResult

namespace Cursor

/-- Passes the operator of a product, if one is in front. -/
def productOp? (c : Cursor) :
    Option (ProductOp × { after : Cursor // after.rest.length < c.rest.length }) :=
  match c.pass? (.mark .star), c.pass? (.mark .slash) with
  | some after, _ => some (.mul, after)
  | none, some after => some (.div, after)
  | none, none => none

/-- Passes the operator of a sum, if one is in front. -/
def sumOp? (c : Cursor) :
    Option (SumOp × { after : Cursor // after.rest.length < c.rest.length }) :=
  match c.pass? (.mark .plus), c.pass? (.mark .minus) with
  | some after, _ => some (.add, after)
  | none, some after => some (.sub, after)
  | none, none => none

end Cursor

/-! ## Expressions -/

/-- What reading a function needs to know: where the source ends, and what is declared before. -/
structure Known where
  /-- The end of the source. -/
  fin : Position
  /-- The functions and templates declared before. -/
  tree : ScriptTree

mutual

/-- Reads a factor. A plus sign in front of it is dropped, and a minus sign belongs to the literal
behind it. -/
def Factor.parse (k : Known) (scope : Scope) (c : Cursor) : ParseResult (Factor × Scope) c :=
  match c.take k.fin .value with
  | .stopped diagnostic after => .stopped diagnostic after
  | .parsed t after shorter =>
    match t.lexeme with
    | .ident name => Factor.parseNamed k scope name t.pos after c shorter
    | .mark m =>
      match m with
      | .dollar =>
        match after.ident k.fin with
        | .stopped diagnostic after => .stopped diagnostic after
        | .parsed (name, pos) after shorter' =>
          Factor.parseNamed k scope name pos after c (by omega)
      | .minus =>
        ((after.integer k.fin).behind shorter).bind fun (magnitude, pos) after shorter =>
          if magnitude.toNat ≤ 2 ^ (63 : Nat) then
            .ofCheck pos after shorter (scope.int (.ofInt (-magnitude.toNat)))
          else .stopped (.semantic pos .integerTooLarge) after
      | .plus => (Factor.parse k scope after).behind shorter
      | _ => .stopped (.unexpected .value t) after
    | .integer value =>
      if value.toNat < 2 ^ (63 : Nat) then
        .ofCheck t.pos after shorter (scope.int (.ofNat value.toNat))
      else .stopped (.semantic t.pos .integerTooLarge) after
    | .string text => .ofCheck t.pos after shorter (scope.text text)
    | .real _ => .stopped (.semantic t.pos .realLiteral) after
    | .keyword _ | .malformed _ => .stopped (.unexpected .value t) after
termination_by (c.rest.length, 0)

/-- Reads what follows a name: the arguments of a call, or nothing. -/
def Factor.parseNamed (k : Known) (scope : Scope) (name : String) (pos : Position) (c : Cursor)
    (start : Cursor) (h : c.rest.length < start.rest.length) :
    ParseResult (Factor × Scope) start :=
  match c.pass? (.mark .openParen) with
  | none => .ofCheck pos c h (scope.use k.tree name)
  | some ⟨after, shorter⟩ =>
    match after.pass? (.mark .closeParen) with
    | some ⟨after, shorter'⟩ => .ofCheck pos after (by omega) (scope.call k.tree name [])
    | none =>
      (Sum.parseArguments k scope [] after start (by omega)).bind
        fun (arguments, scope) after shorter =>
        .ofCheck pos after shorter (scope.call k.tree name arguments)
termination_by (c.rest.length, 1)

/-- Reads a product. -/
def Product.parse (k : Known) (scope : Scope) (c : Cursor) :
    ParseResult (Product × Scope) c :=
  match Factor.parse k scope c with
  | .stopped diagnostic after => .stopped diagnostic after
  | .parsed (first, scope) after shorter =>
    Product.parseMore k scope first [] after c shorter
termination_by (c.rest.length, 2)

/-- Reads the factors of a product behind operators; `read` holds those before, last one first. -/
def Product.parseMore (k : Known) (scope : Scope) (first : Factor)
    (read : List (ProductOp × Factor)) (c : Cursor) (start : Cursor)
    (h : c.rest.length < start.rest.length) : ParseResult (Product × Scope) start :=
  match c.productOp? with
  | none => .parsed (.mk first read.reverse, scope) c h
  | some (op, ⟨after, shorter⟩) =>
    match Factor.parse k scope after with
    | .stopped diagnostic after => .stopped diagnostic after
    | .parsed (factor, scope) after shorter' =>
      Product.parseMore k scope first ((op, factor) :: read) after start (by omega)
termination_by (c.rest.length, 1)

/-- Reads a sum. -/
def Sum.parse (k : Known) (scope : Scope) (c : Cursor) : ParseResult (Sum × Scope) c :=
  match Product.parse k scope c with
  | .stopped diagnostic after => .stopped diagnostic after
  | .parsed (first, scope) after shorter =>
    Sum.parseMore k scope first [] after c shorter
termination_by (c.rest.length, 4)

/-- Reads the products of a sum behind operators; `read` holds those before, last one first. -/
def Sum.parseMore (k : Known) (scope : Scope) (first : Product) (read : List (SumOp × Product))
    (c : Cursor) (start : Cursor) (h : c.rest.length < start.rest.length) :
    ParseResult (Sum × Scope) start :=
  match c.sumOp? with
  | none => .parsed (.mk first read.reverse, scope) c h
  | some (op, ⟨after, shorter⟩) =>
    match Product.parse k scope after with
    | .stopped diagnostic after => .stopped diagnostic after
    | .parsed (product, scope) after shorter' =>
      Sum.parseMore k scope first ((op, product) :: read) after start (by omega)
termination_by (c.rest.length, 3)

/-- Reads the arguments of a call up to the closing parenthesis; `read` holds those before, last one
first. -/
def Sum.parseArguments (k : Known) (scope : Scope) (read : List Sum) (c : Cursor) (start : Cursor)
    (h : c.rest.length ≤ start.rest.length) : ParseResult (List Sum × Scope) start :=
  match Sum.parse k scope c with
  | .stopped diagnostic after => .stopped diagnostic after
  | .parsed (argument, scope) after shorter =>
    match after.pass? (.mark .comma) with
    | some ⟨after, shorter'⟩ =>
      Sum.parseArguments k scope (argument :: read) after start (by omega)
    | none =>
      ((after.expect k.fin (.mark .closeParen)).weaken (by omega)).bind fun _ after shorter =>
        .parsed ((argument :: read).reverse, scope) after shorter
termination_by (c.rest.length, 5)

end

/-! ## Statements and functions -/

namespace ScriptStatement

/-- Reads the value of a statement and the semicolon behind it. -/
def parseValue {start : Cursor} (k : Known) (scope : Scope) (c : Cursor)
    (h : c.rest.length ≤ start.rest.length) : ParseResult (Sum × Scope) start :=
  ((Sum.parse k scope c).weaken h).bind fun value after shorter =>
    ((after.expect k.fin (.mark .semicolon)).behind shorter).bind fun _ after shorter =>
      .parsed value after shorter

/-- Reads a statement that begins with a name: an assignment, or an expression. -/
def parseNamed {start : Cursor} (k : Known) (scope : Scope) (name : String) (pos : Position)
    (c : Cursor) (h : c.rest.length < start.rest.length) :
    ParseResult (ScriptStatement × Scope) start :=
  match c.pass? (.mark .assign) with
  | some ⟨after, shorter⟩ =>
    match scope.locals.lookup name with
    | none => .stopped (.semantic pos (.unknownName name)) after
    | some slot =>
      (parseValue k scope after (Cursor.le_of_lt_of_lt shorter h)).bind
        fun (value, scope) after shorter =>
        .parsed (.assign name slot value, scope) after shorter
  | none =>
    (Factor.parseNamed k scope name pos c start h).bind fun (factor, scope) after shorter =>
      (Product.parseMore k scope factor [] after start shorter).bind
        fun (product, scope) after shorter =>
        (Sum.parseMore k scope product [] after start shorter).bind
          fun (value, scope) after shorter =>
          ((after.expect k.fin (.mark .semicolon)).behind shorter).bind fun _ after shorter =>
            .parsed (.evaluate value, scope) after shorter

/-- Reads a declaration behind its keyword, which stands at `pos`. The variable is in scope only
behind its own declaration. -/
def parseDeclare {start : Cursor} (k : Known) (scope : Scope) (pos : Position) (c : Cursor)
    (h : c.rest.length < start.rest.length) : ParseResult (ScriptStatement × Scope) start :=
  ((c.ident k.fin).behind h).bind fun (name, _) after shorter =>
    ((after.expect k.fin (.mark .assign)).behind shorter).bind fun _ after shorter =>
      (parseValue k scope after (Cursor.le_of_lt shorter)).bind fun (value, scope) after shorter =>
        if scope.slots < Scope.limit then
          .parsed (.declare name scope.slots value, scope.declare name) after shorter
        else .stopped (.semantic pos .tooManyVariables) after

/-- Reads a statement. A dollar sign may stand before the name that it begins with or declares. -/
def parse (k : Known) (scope : Scope) (c : Cursor) :
    ParseResult (ScriptStatement × Scope) c :=
  (c.take k.fin .statement).bind fun t after shorter =>
    match t.lexeme with
    | .keyword .var =>
      match after.pass? (.mark .dollar) with
      | some ⟨after, shorter'⟩ =>
        parseDeclare k scope t.pos after (Cursor.lt_trans shorter' shorter)
      | none => parseDeclare k scope t.pos after shorter
    | .keyword .returns =>
      (parseValue k scope after (Cursor.le_of_lt shorter)).bind fun (value, scope) after shorter =>
        .parsed (.result value, scope) after shorter
    | .mark .dollar =>
      ((after.ident k.fin).behind shorter).bind fun (name, pos) after shorter =>
        parseNamed k scope name pos after shorter
    | .ident name => parseNamed k scope name t.pos after shorter
    | _ => .stopped (.unexpected .statement t) after

/-- Reads statements up to the closing brace; `read` holds those before, last one first. -/
def parseBody (k : Known) (scope : Scope) (read : List ScriptStatement) (c : Cursor)
    (start : Cursor) (h : c.rest.length ≤ start.rest.length) :
    ParseResult (List ScriptStatement × Scope) start :=
  match c.pass? (.mark .closeBrace) with
  | some ⟨after, shorter⟩ => .parsed (read.reverse, scope) after (by omega)
  | none =>
    match parse k scope c with
    | .stopped diagnostic after => .stopped diagnostic after
    | .parsed (statement, scope) after shorter =>
      parseBody k scope (statement :: read) after start (by omega)
termination_by c.rest.length

end ScriptStatement

namespace Function

/-- Reads parameters up to the closing parenthesis; `read` holds those before, last one first. -/
def parseParams (k : Known) (read : List String) (c : Cursor) (start : Cursor)
    (h : c.rest.length ≤ start.rest.length) : ParseResult (List String) start :=
  match c.ident k.fin with
  | .stopped diagnostic after => .stopped diagnostic after
  | .parsed (name, pos) after shorter =>
    if read.contains name then .stopped (.semantic pos (.duplicateParameter name)) after
    else
      match after.pass? (.mark .comma) with
      | some ⟨after, shorter'⟩ => parseParams k (name :: read) after start (by omega)
      | none =>
        ((after.expect k.fin (.mark .closeParen)).weaken (by omega)).bind fun _ after shorter =>
          .parsed (name :: read).reverse after shorter
termination_by c.rest.length

/-- Reads a function behind its keyword. -/
def parse (k : Known) (c : Cursor) : ParseResult Function c :=
  (c.ident k.fin).bind fun (name, pos) after shorter =>
    if k.tree.functions.any (·.name == name) then
      .stopped (.semantic pos (.duplicateFunction name)) after
    else
      ((after.expect k.fin (.mark .openParen)).behind shorter).bind fun _ after shorter =>
        let params : ParseResult (List String) c :=
          match after.pass? (.mark .closeParen) with
          | some ⟨after, shorter'⟩ => .parsed [] after (Cursor.lt_trans shorter' shorter)
          | none => parseParams k [] after c (Cursor.le_of_lt shorter)
        params.bind fun params after shorter =>
          ((after.expect k.fin (.mark .openBrace)).behind shorter).bind fun _ after shorter =>
            (ScriptStatement.parseBody k { params } [] after c (Cursor.le_of_lt shorter)).bind
              fun (body, scope) after shorter =>
                .parsed { name, params, body, slots := scope.slots } after shorter

end Function

/-! ## Templates -/

namespace TemplateBuilder

/-- Reads an optional argument in parentheses: with `argument` if there is one. -/
def parseOptional {α : Type} {start : Cursor} (fin : Position) (c : Cursor)
    (h : c.rest.length < start.rest.length) (default : α)
    (argument : (c : Cursor) → ParseResult α c) : ParseResult α start :=
  match c.pass? (.mark .openParen) with
  | none => .parsed default c h
  | some ⟨after, shorter⟩ =>
    (((argument after).behind shorter).behind h).bind fun value after shorter =>
      ((after.expect fin (.mark .closeParen)).behind shorter).bind fun _ after shorter =>
        .parsed value after shorter

/-- Adds a scalar, or in a fuzzed group a counter. -/
def pushScalar (b : TemplateBuilder) (width : Width) (fuzz : Bool) (value : UInt64) :
    TemplateBuilder :=
  if fuzz then (b.pushMutator (.ofWidth width value.toNat)).2 else b.push (width.scalar value)

/-- Adds a string, or in a fuzzed group a dictionary with the string as its seed. -/
def pushString (b : TemplateBuilder) (form : StringForm) (fuzz : Bool) (seed : Option String) :
    TemplateBuilder :=
  if fuzz then (b.pushMutator (.ofStrings form seed)).2
  else b.push (.buffer (Text.utf8 (seed.getD "") ++ form.ending))

/-- Reads a scalar behind its keyword. -/
def parseScalar {start : Cursor} (fin : Position) (b : TemplateBuilder) (width : Width)
    (fuzz : Bool) (c : Cursor) (h : c.rest.length < start.rest.length) :
    ParseResult TemplateBuilder start :=
  let value (c : Cursor) : ParseResult UInt64 c :=
    (c.integer fin).bind fun (value, pos) after shorter =>
      if value.toNat ≤ width.max then .parsed value after shorter
      else .stopped (.semantic pos (.scalarTooLarge value width)) after
  (parseOptional fin c h 0 value).bind fun value after shorter =>
    .parsed (b.pushScalar width fuzz value) after shorter

/-- Takes a string literal. -/
def parseSeed (fin : Position) (c : Cursor) : ParseResult (Option String) c :=
  (c.take fin (.terminal .string)).bind fun t after shorter =>
    match t.lexeme with
    | .string text => .parsed (some text) after shorter
    | _ => .stopped (.unexpected (.terminal .string) t) after

/-- Reads a string behind its keyword. -/
def parseString {start : Cursor} (fin : Position) (b : TemplateBuilder) (form : StringForm)
    (fuzz : Bool) (c : Cursor) (h : c.rest.length < start.rest.length) :
    ParseResult TemplateBuilder start :=
  (parseOptional fin c h none (parseSeed fin)).bind fun seed after shorter =>
    .parsed (b.pushString form fuzz seed) after shorter

/-- Takes the keyword of an element type. -/
def parseElement (fin : Position) (c : Cursor) : ParseResult Width c :=
  (c.take fin .elementType).bind fun t after shorter =>
    match t.lexeme with
    | .keyword keyword =>
      match keyword.scalarWidth? with
      | some width => .parsed width after shorter
      | none => .stopped (.unexpected .elementType t) after
    | _ => .stopped (.unexpected .elementType t) after

/-- Reads the bounds of an array, with the place of the lower one. Two different ones need a fuzzed
group, and this is checked as soon as the upper one is read. -/
def parseBounds {start : Cursor} (fin : Position) (fuzz : Bool) (c : Cursor)
    (h : c.rest.length ≤ start.rest.length) : ParseResult (UInt64 × UInt64 × Position) start :=
  ((c.integer fin).weaken h).bind fun (lower, pos) after shorter =>
    match after.pass? (.mark .minus) with
    | none => .parsed (lower, lower, pos) after shorter
    | some ⟨after, shorter'⟩ =>
      (((after.integer fin).behind shorter').behind shorter).bind
        fun (upper, upperPos) after shorter =>
        if fuzz then .parsed (lower, upper, pos) after shorter
        else .stopped (.semantic upperPos .rangedArray) after

/-- Reads an array behind its keyword, which stands at `keywordPos`. -/
def parseArray {start : Cursor} (fin : Position) (b : TemplateBuilder) (fuzz : Bool)
    (keywordPos : Position) (c : Cursor) (h : c.rest.length < start.rest.length) :
    ParseResult TemplateBuilder start :=
  ((c.expect fin (.mark .less)).behind h).bind fun _ after shorter =>
    ((parseElement fin after).behind shorter).bind fun width after shorter =>
      ((after.expect fin (.mark .greater)).behind shorter).bind fun _ after shorter =>
        ((after.expect fin (.mark .openParen)).behind shorter).bind fun _ after shorter =>
          (parseBounds fin fuzz after (Cursor.le_of_lt shorter)).bind
            fun (lower, upper, pos) after shorter =>
            ((after.expect fin (.mark .closeParen)).behind shorter).bind fun _ after shorter =>
              let size := lower.toNat * width.bytes
              if upper < lower then .stopped (.semantic pos (.arrayBounds lower upper)) after
              else if fuzz then
                let walk := Mutator.ofLengths width.bytes lower.toNat upper.toNat
                .parsed (b.pushMutator walk).2 after shorter
              else if size < 2 ^ (64 : Nat) then
                .parsed (b.push (.buffer (List.replicate size 0))) after shorter
              else .stopped (.semantic keywordPos .arrayTooLarge) after

/-- Adds a reference to a template declared before. -/
def pushReference {start : Cursor} (templates : List (String × Template)) (b : TemplateBuilder)
    (name : String) (pos : Position) (c : Cursor) (h : c.rest.length < start.rest.length) :
    ParseResult TemplateBuilder start :=
  match templates.lookup name with
  | some target => .parsed (b.push target.asItem) c h
  | none => .stopped (.semantic pos (.unknownTemplate name)) c

mutual

/-- Reads an item of a template; `fuzz` says whether it lies in a fuzzed group. -/
def parseItem (k : Known) (b : TemplateBuilder) (fuzz : Bool) (c : Cursor) :
    ParseResult TemplateBuilder c :=
  match c.take k.fin .templateItem with
  | .stopped diagnostic after => .stopped diagnostic after
  | .parsed t after shorter =>
    match t.lexeme with
    | .keyword .cstring => parseString k.fin b .terminated fuzz after shorter
    | .keyword .line => parseString k.fin b .line fuzz after shorter
    | .keyword .array => parseArray k.fin b fuzz t.pos after shorter
    | .keyword .pascalstring => .stopped (.semantic t.pos .pascalString) after
    | .keyword keyword =>
      match keyword.scalarWidth? with
      | some width => parseScalar k.fin b width fuzz after shorter
      | none => .stopped (.unexpected .templateItem t) after
    | .mark .openBrace =>
      if fuzz then .stopped (.semantic t.pos .nestedFuzzGroup) after
      else
        (parseItems k b true after c (by omega)).bind fun b after shorter =>
          ((after.expect k.fin (.mark .closeBrace)).behind shorter).bind fun _ after shorter =>
            .parsed b after shorter
    | .mark .dollar =>
      ((after.ident k.fin).behind shorter).bind fun (name, pos) after shorter =>
        pushReference k.tree.templates b name pos after shorter
    | .ident name => pushReference k.tree.templates b name t.pos after shorter
    | _ => .stopped (.unexpected .templateItem t) after
termination_by (c.rest.length, 0)

/-- Reads items with commas between them. -/
def parseItems (k : Known) (b : TemplateBuilder) (fuzz : Bool) (c : Cursor) (start : Cursor)
    (h : c.rest.length ≤ start.rest.length) : ParseResult TemplateBuilder start :=
  match parseItem k b fuzz c with
  | .stopped diagnostic after => .stopped diagnostic after
  | .parsed b after shorter =>
    match after.pass? (.mark .comma) with
    | some ⟨after, shorter'⟩ => parseItems k b fuzz after start (by omega)
    | none => .parsed b after (by omega)
termination_by (c.rest.length, 1)

end

/-- Reads a template behind its keyword; its mutators go to the pool of the script. -/
def parse (k : Known) (c : Cursor) : ParseResult (String × TemplateBuilder) c :=
  (c.ident k.fin).bind fun (name, pos) after shorter =>
    if (k.tree.templates.lookup name).isSome then
      .stopped (.semantic pos (.duplicateTemplate name)) after
    else
      ((after.expect k.fin (.mark .assign)).behind shorter).bind fun _ after shorter =>
        ((after.expect k.fin (.mark .openBracket)).behind shorter).bind fun _ after shorter =>
          (parseItems k { pool := k.tree.pool } false after c (Cursor.le_of_lt shorter)).bind
            fun b after shorter =>
              ((after.expect k.fin (.mark .closeBracket)).behind shorter).bind
                fun _ after shorter =>
                  ((after.expect k.fin (.mark .semicolon)).behind shorter).bind
                    fun _ after shorter => .parsed (name, b) after shorter

end TemplateBuilder

/-! ## Scripts -/

namespace ScriptTree

/-- Puts a template under its name, in the order of names. -/
def insertTemplate (name : String) (t : Template) :
    List (String × Template) → List (String × Template)
  | [] => [(name, t)]
  | (other, u) :: templates =>
    if name < other then (name, t) :: (other, u) :: templates
    else (other, u) :: insertTemplate name t templates

/-- Reads the declarations in the tokens that are left, where `tree` holds those before. -/
def parseFrom (fin : Position) (tree : ScriptTree) (tokens : List Token) :
    Except Diagnostic ScriptTree :=
  match tokens with
  | [] => .ok tree
  | t :: rest =>
    match t.lexeme with
    | .keyword .template =>
      match TemplateBuilder.parse { fin, tree } { rest } with
      | .stopped diagnostic _ => .error diagnostic
      | .parsed (name, b) after _ =>
        let templates := insertTemplate name b.template tree.templates
        parseFrom fin { tree with templates, pool := b.pool } after.rest
    | .keyword .function =>
      match Function.parse { fin, tree } { rest } with
      | .stopped diagnostic _ => .error diagnostic
      | .parsed function after _ =>
        parseFrom fin { tree with functions := tree.functions.push function } after.rest
    | _ => .error (.unexpected .declaration t)
termination_by tokens.length
decreasing_by all_goals simp_all; omega

/-- Reads a script. -/
def parse (source : String) : Except Diagnostic ScriptTree :=
  let stream := TokenStream.ofSource source
  parseFrom stream.fin {} stream.tokens

end ScriptTree

end ScriptFuzz
