import ScriptFuzz.Token.Scan

/-!
# A lexer with one token of lookahead

- `Names`: texts numbered in the order of their first appearance; the table only grows.
- `Lexer`: what is left of a source text, with the names seen so far. `Lexer.get` takes a token,
  `Lexer.peek` only looks at it.
-/

namespace ScriptFuzz

/-- Texts numbered in the order of their first appearance. -/
structure Names where
  /-- The texts, each at its number. -/
  entries : Array String := #[]
deriving DecidableEq, Repr, Inhabited

namespace Names

/-- The text with number `i`. -/
def get? (names : Names) (i : Nat) : Option String := names.entries[i]?

/-- How many texts have a number. -/
def size (names : Names) : Nat := names.entries.size

/-- The number of a text, which gets the next one if it has none yet. -/
def intern (names : Names) (text : String) : Nat × Names :=
  match names.entries.idxOf? text with
  | some i => (i, names)
  | none => (names.size, ⟨names.entries.push text⟩)

end Names

/-- What a lexer finds. -/
inductive Reading where
  /-- A token, and the number of its text if it has one. -/
  | token (t : Token) (name : Option Nat)
  /-- The end of the source. -/
  | endOfInput (fin : Position)
deriving DecidableEq, Repr

namespace Reading

/-- Where the reading stands in the source. -/
def pos : Reading → Position
  | token t _ => t.pos
  | endOfInput fin => fin

/-- What a grammar sees of a reading. -/
def terminal : Reading → Terminal
  | token t _ => t.lexeme.terminal
  | endOfInput _ => .endOfInput

/-- The number of the text that was read, if it has one. -/
def name? : Reading → Option Nat
  | token _ name => name
  | endOfInput _ => none

end Reading

/-- A source text that is being read token by token. -/
structure Lexer where
  /-- The text that has not been looked at. -/
  rest : List Char
  /-- Where that text starts. -/
  pos : Position := {}
  /-- The texts of the identifiers and strings seen so far. -/
  names : Names := {}
  /-- The reading that has been looked at and not taken. -/
  ahead : Option Reading := none
  /-- The fault of the last malformed token seen. -/
  lastFault : Option LexFault := none

namespace Lexer

/-- A lexer at the start of a source text. -/
def ofSource (source : String) : Lexer := { rest := source.toList }

/-- Reads the text that has not been looked at. -/
def scan (lexer : Lexer) : Reading × Lexer :=
  match Token.next lexer.pos lexer.rest with
  | .inl fin => (.endOfInput fin, { lexer with rest := [], pos := fin })
  | .inr (t, pos, rest) =>
    let lexer := { lexer with rest, pos }
    match t.lexeme with
    | .malformed fault => (.token t none, { lexer with lastFault := some fault })
    | lexeme =>
      match lexeme.text? with
      | none => (.token t none, lexer)
      | some text =>
        let (name, names) := lexer.names.intern text
        (.token t (some name), { lexer with names })

/-- Takes the next reading. -/
def get (lexer : Lexer) : Reading × Lexer :=
  match lexer.ahead with
  | some reading => (reading, { lexer with ahead := none })
  | none => lexer.scan

/-- Looks at the next reading. -/
def peek (lexer : Lexer) : Reading × Lexer :=
  let (reading, lexer) := lexer.get
  (reading, { lexer with ahead := some reading })

/-- The text that has the number of a reading. It is empty if the reading has none. -/
def text (lexer : Lexer) (reading : Reading) : String :=
  (reading.name?.bind lexer.names.get?).getD ""

end Lexer

end ScriptFuzz
