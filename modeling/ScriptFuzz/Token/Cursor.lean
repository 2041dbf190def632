import ScriptFuzz.Diagnostic

/-!
# Reading from a list of tokens

The grammars of scripts and of template expressions are read from the front of a list of tokens. A
reader says in its type that success takes at least one token (`ParseResult`), which is why reading
ends. When reading stops, the tokens taken and the numbers given out stay taken.

A cursor counts the fuzzed sequences around it. Whoever enters one leaves it again, whether it was
read or not (`ParseResult.leaveFuzz`).
-/

namespace ScriptFuzz

/-- What has not been read, the number of the next expression, and where that will lie. -/
structure Cursor where
  /-- The tokens that have not been taken. -/
  rest : List Token
  /-- The number of the next expression. -/
  nextId : Nat := 0
  /-- The number of fuzzed sequences whose items are being read. -/
  fuzzDepth : Nat := 0
deriving Inhabited

namespace Cursor

/-- Whether the next expression lies inside a fuzzed sequence. -/
def inFuzz (c : Cursor) : Bool := 0 < c.fuzzDepth

/-- In front of the items of a fuzzed sequence. -/
def enterFuzz (c : Cursor) : Cursor := { c with fuzzDepth := c.fuzzDepth + 1 }

/-- Behind the items of a fuzzed sequence. -/
def leaveFuzz (c : Cursor) : Cursor := { c with fuzzDepth := c.fuzzDepth - 1 }

@[simp] theorem rest_enterFuzz (c : Cursor) : c.enterFuzz.rest = c.rest := rfl

variable {a b c : Cursor}

theorem le_of_lt (h : a.rest.length < b.rest.length) : a.rest.length ≤ b.rest.length :=
  Nat.le_of_lt h

theorem lt_trans (hab : a.rest.length < b.rest.length) (hbc : b.rest.length < c.rest.length) :
    a.rest.length < c.rest.length :=
  Nat.lt_trans hab hbc

theorem le_of_lt_of_lt (hab : a.rest.length < b.rest.length)
    (hbc : b.rest.length < c.rest.length) : a.rest.length ≤ c.rest.length :=
  le_of_lt (lt_trans hab hbc)

end Cursor

/-- How reading from `start` ends: with a value and fewer tokens left, or with a report. -/
inductive ParseResult (α : Type) (start : Cursor) where
  /-- Something was read. -/
  | parsed (value : α) (after : Cursor) (shorter : after.rest.length < start.rest.length)
  /-- The tokens do not fit. -/
  | stopped (diagnostic : Diagnostic) (after : Cursor)

namespace ParseResult

variable {α β : Type} {start earlier : Cursor}

/-- Goes on with what was read. -/
def bind (o : ParseResult α start)
    (f : (value : α) → (after : Cursor) → after.rest.length < start.rest.length →
      ParseResult β start) : ParseResult β start :=
  match o with
  | parsed value after shorter => f value after shorter
  | stopped diagnostic after => stopped diagnostic after

/-- What was read from a cursor was read from any cursor with at least as many tokens. -/
def weaken (o : ParseResult α start) (h : start.rest.length ≤ earlier.rest.length) :
    ParseResult α earlier :=
  match o with
  | parsed value after shorter => parsed value after (Nat.lt_of_lt_of_le shorter h)
  | stopped diagnostic after => stopped diagnostic after

/-- What was read behind the tokens that lead from `earlier` to `start`. -/
def behind (o : ParseResult α start) (h : start.rest.length < earlier.rest.length) :
    ParseResult α earlier :=
  o.weaken (Cursor.le_of_lt h)

/-- Behind the items of a fuzzed sequence, whether they were read or not. -/
def leaveFuzz (o : ParseResult α start) : ParseResult α start :=
  match o with
  | parsed value after shorter => parsed value after.leaveFuzz shorter
  | stopped diagnostic after => stopped diagnostic after.leaveFuzz

end ParseResult

namespace Cursor

/-- Takes the token in front; `fin` is where the source ends. -/
def take (fin : Position) (wanted : Wanted) (c : Cursor) : ParseResult Token c :=
  match c with
  | ⟨[], _, _⟩ => .stopped (.unexpectedEnd wanted fin) c
  | ⟨t :: rest, nextId, fuzzDepth⟩ => .parsed t ⟨rest, nextId, fuzzDepth⟩ (Nat.lt_succ_self _)

/-- Takes the token in front, which must be a given terminal. -/
def expect (fin : Position) (wanted : Terminal) (c : Cursor) : ParseResult Token c :=
  (c.take fin (.terminal wanted)).bind fun t after shorter =>
    if t.lexeme.terminal = wanted then .parsed t after shorter
    else .stopped (.unexpected (.terminal wanted) t) after

/-- Takes an integer literal, with its place. -/
def integer (fin : Position) (c : Cursor) : ParseResult (UInt64 × Position) c :=
  (c.take fin (.terminal .integer)).bind fun t after shorter =>
    match t.lexeme with
    | .integer value => .parsed (value, t.pos) after shorter
    | _ => .stopped (.unexpected (.terminal .integer) t) after

/-- Takes an identifier, with its place. -/
def ident (fin : Position) (c : Cursor) : ParseResult (String × Position) c :=
  (c.take fin (.terminal .ident)).bind fun t after shorter =>
    match t.lexeme with
    | .ident name => .parsed (name, t.pos) after shorter
    | _ => .stopped (.unexpected (.terminal .ident) t) after

/-- Takes a dollar sign and the identifier behind it. -/
def variableName (fin : Position) (c : Cursor) : ParseResult (String × Position) c :=
  (c.expect fin (.mark .dollar)).bind fun _ after shorter =>
    (after.ident fin).behind shorter

/-- The cursor behind a given terminal, if that is in front. -/
def pass? (wanted : Terminal) (c : Cursor) :
    Option { after : Cursor // after.rest.length < c.rest.length } :=
  match c.rest with
  | [] => none
  | t :: rest =>
    if t.lexeme.terminal = wanted then some ⟨{ c with rest }, by simp⟩ else none

end Cursor

end ScriptFuzz
