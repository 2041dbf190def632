/-!
# Characters, keys and strings of configuration files

The scanners take the characters that are left and give what they have read together with the
characters behind it. Those with a bound on their steps need at most one for each character.

- `blanks`, `space`, `lineEnd`: what stands between values.
- `key`: the names of a key with dots in it.
- `string?`: the four forms of strings.
-/

namespace ScriptFuzz.Toml

/-- Whether a character separates the parts of a line. -/
def isBlank (c : Char) : Bool := c == ' ' || c == '\t'

/-- Whether a character can stand in a comment or a string on one line: every one but the control
characters of ASCII, and the tabulator. -/
def isPlain (c : Char) : Bool := c == '\t' || (' ' ≤ c && c != '\x7f')

/-- The characters behind blanks. -/
def blanks (cs : List Char) : List Char := cs.dropWhile isBlank

/-- The characters behind the end of a line. -/
def newline? : List Char → Option (List Char)
  | '\n' :: cs => some cs
  | '\r' :: '\n' :: cs => some cs
  | _ => none

/-- The characters behind blanks and ends of lines. -/
def blankLines : List Char → List Char
  | '\r' :: '\n' :: cs => blankLines cs
  | c :: cs => if isBlank c || c == '\n' then blankLines cs else c :: cs
  | [] => []

/-- The characters behind a comment, if there is one. -/
def comment : List Char → List Char
  | '#' :: cs => cs.dropWhile isPlain
  | cs => cs

/-- The characters behind what may follow on a line that is otherwise over: blanks, a comment and
the end of the line. -/
def lineEnd (cs : List Char) : Option (List Char) :=
  match comment (blanks cs) with
  | [] => some []
  | cs => newline? cs

/-- The characters behind blanks, ends of lines and comments. -/
def space : (steps : Nat) → List Char → List Char
  | 0, cs => cs
  | steps + 1, cs =>
    match newline? (comment (blanks cs)) with
    | some cs => space steps cs
    | none => blanks cs

/-- The character that a letter behind a backslash stands for. -/
def escape? : Char → Option Char
  | 'b' => some '\x08'
  | 't' => some '\t'
  | 'n' => some '\n'
  | 'f' => some '\x0c'
  | 'r' => some '\r'
  | '"' => some '"'
  | '\\' => some '\\'
  | _ => none

/-- The value of a hexadecimal digit. -/
def hexDigit? (c : Char) : Option Nat :=
  if '0' ≤ c ∧ c ≤ '9' then some (c.toNat - '0'.toNat)
  else if 'a' ≤ c ∧ c ≤ 'f' then some (c.toNat - 'a'.toNat + 10)
  else if 'A' ≤ c ∧ c ≤ 'F' then some (c.toNat - 'A'.toNat + 10)
  else none

/-- The character with the code point that hexadecimal digits spell. -/
def codePoint? (digits : List Char) : Option Char := do
  let n ← digits.foldlM (fun n c => do return 16 * n + (← hexDigit? c)) 0
  if n.isValidChar then some (Char.ofNat n) else none

/-- What a backslash and the characters behind it stand for. -/
def escaped : List Char → Option (Char × List Char)
  | 'u' :: cs => do
    let digits := cs.take 4
    if digits.length = 4 then return (← codePoint? digits, cs.drop 4) else none
  | 'U' :: cs => do
    let digits := cs.take 8
    if digits.length = 8 then return (← codePoint? digits, cs.drop 8) else none
  | c :: cs => do return (← escape? c, cs)
  | [] => none

/-- The rest of a string with escapes on one line, of which `text` has been read, last character
first. -/
def basic (text : List Char) : (steps : Nat) → List Char → Option (String × List Char)
  | steps + 1, c :: cs => do
    if c = '"' then return (.ofList text.reverse, cs)
    else if c = '\\' then
      let (c, cs) ← escaped cs
      basic (c :: text) steps cs
    else if isPlain c then basic (c :: text) steps cs
    else none
  | _, _ => none

/-- The rest of a string without escapes on one line. -/
def literal (cs : List Char) : Option (String × List Char) :=
  let text := cs.takeWhile fun c => isPlain c && c != '\''
  match cs.drop text.length with
  | '\'' :: cs => some (.ofList text, cs)
  | _ => none

/-- The end of a string over several lines in front of which `text` stands: three marks, before
which two more belong to the text. -/
def closing? (mark : Char) (text : List Char) (cs : List Char) : Option (String × List Char) :=
  let marks := (cs.take 5).takeWhile (· == mark)
  if marks.length < 3 then none
  else some (.ofList (text.reverse ++ marks.drop 3), cs.drop marks.length)

/-- The rest of a string with escapes over several lines. A backslash at the end of a line joins it
with the next line that is not blank. -/
def multiBasic (text : List Char) : (steps : Nat) → List Char → Option (String × List Char)
  | steps + 1, c :: cs => do
    if c = '"' then
      match closing? '"' text (c :: cs) with
      | some closed => return closed
      | none => multiBasic (c :: text) steps cs
    else if c = '\\' then
      match newline? (blanks cs) with
      | some cs => multiBasic text steps (blankLines cs)
      | none =>
        let (c, cs) ← escaped cs
        multiBasic (c :: text) steps cs
    else
      match newline? (c :: cs) with
      | some cs => multiBasic ('\n' :: text) steps cs
      | none => if isPlain c then multiBasic (c :: text) steps cs else none
  | _, _ => none

/-- The rest of a string without escapes over several lines. -/
def multiLiteral (text : List Char) : (steps : Nat) → List Char → Option (String × List Char)
  | steps + 1, c :: cs => do
    match closing? '\'' text (c :: cs), newline? (c :: cs) with
    | some closed, _ => return closed
    | none, some cs => multiLiteral ('\n' :: text) steps cs
    | none, none => if isPlain c then multiLiteral (c :: text) steps cs else none
  | _, _ => none

/-- The characters behind the end of a line directly behind the opening marks, which is no part of a
string. -/
def firstLine (cs : List Char) : List Char := (newline? cs).getD cs

/-- A string of any form. -/
def string? (steps : Nat) : List Char → Option (String × List Char)
  | '"' :: '"' :: '"' :: cs => multiBasic [] steps (firstLine cs)
  | '\'' :: '\'' :: '\'' :: cs => multiLiteral [] steps (firstLine cs)
  | '"' :: cs => basic [] steps cs
  | '\'' :: cs => literal cs
  | _ => none

/-- Whether a character can stand in a name without marks. -/
def isBare (c : Char) : Bool := c.isAlphanum || c == '-' || c == '_'

/-- One name of a key. -/
def name? (steps : Nat) : List Char → Option (String × List Char)
  | '"' :: cs => basic [] steps cs
  | '\'' :: cs => literal cs
  | cs =>
    let name := cs.takeWhile isBare
    if name.isEmpty then none else some (.ofList name, cs.drop name.length)

/-- The names of a key, which dots set apart. -/
def key : (steps : Nat) → List Char → Option (List String × List Char)
  | 0, _ => none
  | steps + 1, cs => do
    let (name, cs) ← name? (steps + 1) cs
    match blanks cs with
    | '.' :: cs =>
      let (names, cs) ← key steps (blanks cs)
      return (name :: names, cs)
    | cs => return ([name], cs)

end ScriptFuzz.Toml
