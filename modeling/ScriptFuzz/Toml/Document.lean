import ScriptFuzz.Toml.Scalar
import ScriptFuzz.Toml.Tree

/-!
# Configuration documents

Reads a TOML document line by line: headers of tables, keys with their values, comments and blank
lines.

- `Toml.value?`: a value of any form. Arrays and tables in braces nest less than `maxNesting` deep.
- `Toml.path?`: the names of a key, which are fewer than `maxNesting`.
- `Toml.ofDocument?`: the table that a document is, unless it is malformed.
-/

namespace ScriptFuzz.Toml

/-- How deep arrays and tables in braces, or tables that one key goes through, do not nest. -/
def maxNesting : Nat := 80

/-- The names of a key. -/
def path? (steps : Nat) (cs : List Char) : Option (List String × List Char) :=
  (key steps cs).filter fun (names, _) => names.length < maxNesting

mutual

/-- A value, inside `nesting` others. -/
def value? : (steps nesting : Nat) → List Char → Option (Toml × List Char)
  | 0, _, _ => none
  | steps + 1, nesting, cs =>
    match cs with
    | '"' :: _ | '\'' :: _ => do
      let (s, cs) ← string? (steps + 1) cs
      return (.text s, cs)
    | '[' :: cs =>
      if nesting + 1 < maxNesting then do
        let (items, cs) ← items? steps (nesting + 1) (space (steps + 1) cs)
        return (.array items, cs)
      else none
    | '\x7b' :: cs =>
      if nesting + 1 < maxNesting then
        match blanks cs with
        | '\x7d' :: cs => some (.table [], cs)
        | cs => do
          let (entries, cs) ← pairs? steps (nesting + 1) [] cs
          return (.table entries.toml, cs)
      else none
    | cs => scalar cs

/-- The items of an array that are left, and its end. -/
def items? : (steps nesting : Nat) → List Char → Option (List Toml × List Char)
  | 0, _, _ => none
  | steps + 1, nesting, cs =>
    match cs with
    | ']' :: cs => some ([], cs)
    | cs => do
      let (item, cs) ← value? steps nesting cs
      match space (steps + 1) cs with
      | ',' :: cs =>
        let (items, cs) ← items? steps nesting (space (steps + 1) cs)
        return (item :: items, cs)
      | ']' :: cs => return ([item], cs)
      | _ => none

/-- The keys and values of a table in braces that are left, and its end. -/
def pairs? : (steps nesting : Nat) → Entries → List Char → Option (Entries × List Char)
  | 0, _, _, _ => none
  | steps + 1, nesting, entries, cs => do
    let (names, cs) ← path? (steps + 1) cs
    match blanks cs with
    | '=' :: cs =>
      let (v, cs) ← value? steps nesting (blanks cs)
      let entries ← entries.addPair [] names.dropLast (names.getLastD "") v
      match blanks cs with
      | ',' :: cs => pairs? steps nesting entries (blanks cs)
      | '\x7d' :: cs => return (entries, cs)
      | _ => none
    | _ => none

end

/-- What has been read of a document: its entries, and the table that the keys to come belong to. -/
structure Progress where
  /-- The entries so far. -/
  entries : Entries := []
  /-- The keys of the last header. -/
  header : List String := []

/-- A header, its brackets behind the first one, and the end of its line. -/
def header? (steps : Nat) (p : Progress) (cs : List Char) : Option (Progress × List Char) :=
  let named (cs : List Char) (end? : List Char → Option (List Char))
      (add : List String → String → Entries → Option Entries) : Option (Progress × List Char) := do
    let (names, cs) ← path? steps (blanks cs)
    let cs ← end? (blanks cs)
    let entries ← add names.dropLast (names.getLastD "") p.entries
    return ({ entries, header := names }, ← lineEnd cs)
  match cs with
  | '[' :: cs =>
    named cs (fun | ']' :: ']' :: cs => some cs | _ => none) Entries.openElement
  | cs => named cs (fun | ']' :: cs => some cs | _ => none) Entries.openTable

/-- A key, its value and the end of the line. -/
def pair? (steps : Nat) (p : Progress) (cs : List Char) : Option (Progress × List Char) := do
  let (names, cs) ← path? steps cs
  match blanks cs with
  | '=' :: cs =>
    let (v, cs) ← value? (2 * steps) 0 (blanks cs)
    let entries ← p.entries.addPair p.header names.dropLast (names.getLastD "") v
    return ({ p with entries }, ← lineEnd cs)
  | _ => none

/-- The lines that are left. -/
def lines? (p : Progress) : (steps : Nat) → List Char → Option Entries
  | 0, _ => none
  | steps + 1, cs =>
    match blanks cs with
    | [] => some p.entries
    | c :: cs =>
      if c = '#' || c = '\n' || c = '\r' then do lines? p steps (← lineEnd (c :: cs))
      else do
        let (p, cs) ← if c = '[' then header? (steps + 1) p cs else pair? (steps + 1) p (c :: cs)
        lines? p steps cs

/-- The table that a document is. A byte order mark in front is passed over. -/
def ofDocument? (document : String) : Option (List (String × Toml)) :=
  let cs := match document.toList with
    | '\ufeff' :: cs => cs
    | cs => cs
  (lines? {} (cs.length + 1) cs).map Entries.toml

end ScriptFuzz.Toml
