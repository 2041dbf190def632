import ScriptFuzz.Bytes.Order

/-!
# Folders

Files and folders by their names, in the order of the names.

- `Folder.get?`, `Folder.insert`, `Folder.erase`: a folder as a map from names.
- `Folder.write`: puts a file under a name. A folder under that name is in its way.
-/

namespace ScriptFuzz

/-- What a folder has under a name. -/
inductive Node where
  /-- A file with its contents. -/
  | file (data : Bytes)
  /-- A folder with its entries. -/
  | folder (entries : List (String × Node))
deriving Inhabited

/-- Entries by their names, in the order of the names. -/
structure Folder where
  /-- The entries in the order of their names. -/
  entries : List (String × Node) := []
deriving Inhabited

namespace Folder

/-- What is under a name. -/
def get? (folder : Folder) (name : String) : Option Node := folder.entries.lookup name

/-- The names in use. -/
def names (folder : Folder) : List String := folder.entries.map (·.1)

/-- Puts an entry among entries in the order of their names; it takes the place of one of the same
name. -/
def insertEntry (name : String) (node : Node) : List (String × Node) → List (String × Node)
  | [] => [(name, node)]
  | (other, n) :: entries =>
    if name < other then (name, node) :: (other, n) :: entries
    else if name = other then (name, node) :: entries
    else (other, n) :: insertEntry name node entries

/-- Puts something under a name. -/
def insert (folder : Folder) (name : String) (node : Node) : Folder :=
  { entries := insertEntry name node folder.entries }

/-- Takes away what is under a name. -/
def erase (folder : Folder) (name : String) : Folder :=
  { entries := folder.entries.filter (·.1 != name) }

/-- Writes a file, in the place of an earlier one. It fails if there is a folder of that name. -/
def write (folder : Folder) (name : String) (data : Bytes) : Option Folder :=
  match folder.get? name with
  | some (.folder _) => none
  | _ => some (folder.insert name (.file data))

end Folder

end ScriptFuzz
