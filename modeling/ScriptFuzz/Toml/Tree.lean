import ScriptFuzz.Toml.Value

/-!
# Tables under construction

The tables of a document come about in pieces: a header opens a table, and the tables on the way to
it are there by implication; a key with dots opens tables too. A table that has been opened by a
header cannot be opened again, and a key with dots cannot reach into it.

- `Entries.addPair`: a key and its value.
- `Entries.openTable`, `Entries.openElement`: the headers of a table and of an element of an array.
-/

namespace ScriptFuzz.Toml

/-- How a table came about. -/
inductive Origin where
  /-- A header opened it. -/
  | header
  /-- A header opened a table inside it. -/
  | implied
  /-- A key with dots goes through it. -/
  | dotted
deriving DecidableEq, Repr

/-- What a key stands for in a table under construction. -/
inductive Tree where
  /-- A value, which is not changed any more. -/
  | value (v : Toml)
  /-- A table. -/
  | table (origin : Origin) (entries : List (String × Tree))
  /-- An array of tables that headers open, the latest first. -/
  | tables (latest : List (String × Tree)) (earlier : List (List (String × Tree)))
deriving Inhabited

/-- The entries of a table under construction. -/
abbrev Entries := List (String × Tree)

namespace Entries

/-- Puts an entry in the place of the one of the same name, or behind all others. -/
def set (key : String) (tree : Tree) : Entries → Entries
  | [] => [(key, tree)]
  | (other, t) :: entries =>
    if other = key then (key, tree) :: entries else (other, t) :: set key tree entries

/-- Changes the table that keys lead to; in an array of tables they lead to the latest. Tables that
are missing on the way are made. Keys with dots do not go through tables that a header has opened.
-/
def modifyAt (dotted : Bool) (change : Origin → Entries → Option Entries) :
    (path : List String) → Origin → Entries → Option Entries
  | [], origin, entries => change origin entries
  | key :: path, _, entries =>
    match entries.lookup key with
    | none => do
      let origin := if dotted then Origin.dotted else .implied
      return set key (.table origin (← modifyAt dotted change path origin [])) entries
    | some (.value _) => none
    | some (.table origin inner) => do
      if dotted && origin == .header then none
      else return set key (.table origin (← modifyAt dotted change path origin inner)) entries
    | some (.tables latest earlier) => do
      return set key (.tables (← modifyAt dotted change path .header latest) earlier) entries

/-- Adds a value under a key, in the table that the keys of a header lead to. -/
def addPair (header path : List String) (key : String) (v : Toml) (entries : Entries) :
    Option Entries :=
  let add (origin : Origin) (entries : Entries) : Option Entries :=
    if (origin == .dotted) == path.isEmpty then none
    else
      match entries.lookup key with
      | none => some (set key (.value v) entries)
      | some _ => none
  modifyAt false (fun origin => modifyAt true add path origin) header .header entries

/-- Opens a table. -/
def openTable (path : List String) (key : String) (entries : Entries) : Option Entries :=
  modifyAt false
    (fun _ entries =>
      match entries.lookup key with
      | none => some (set key (.table .header []) entries)
      | some (.table .implied inner) => some (set key (.table .header inner) entries)
      | some _ => none)
    path .header entries

/-- Opens a new element of an array of tables. -/
def openElement (path : List String) (key : String) (entries : Entries) : Option Entries :=
  modifyAt false
    (fun _ entries =>
      match entries.lookup key with
      | none => some (set key (.tables [] []) entries)
      | some (.tables latest earlier) => some (set key (.tables [] (latest :: earlier)) entries)
      | some _ => none)
    path .header entries

end Entries

mutual

/-- The value that has been constructed. -/
def Tree.toml : Tree → Toml
  | .value v => v
  | .table _ entries => .table (Entries.toml entries)
  | .tables latest earlier => .array (Entries.tomlAll earlier [.table (Entries.toml latest)])

/-- The entries that have been constructed. -/
def Entries.toml : Entries → List (String × Toml)
  | [] => []
  | (key, tree) :: entries => (key, tree.toml) :: Entries.toml entries

/-- The tables of an array, the latest first, in front of others. -/
def Entries.tomlAll : List Entries → List Toml → List Toml
  | [], behind => behind
  | entries :: earlier, behind => Entries.tomlAll earlier (.table (Entries.toml entries) :: behind)

end

end ScriptFuzz.Toml
