import ScriptFuzz.Folder.Basic

/-!
# Paths

A path names what is in a folder, or in the folders inside it, by the names on the way with slashes
in between.

- `Folder.resolve`: what a path leads to, or why it leads nowhere.
- `splitExtension`, `Path.extension?`: the part of a file name behind its last dot.
-/

namespace ScriptFuzz

/-- Why a path leads nowhere. -/
inductive PathFault where
  /-- There is nothing of that name. -/
  | notFound
  /-- Something on the way is no folder. -/
  | notFolder
  /-- A name on the way, or the path, is too long. -/
  | tooLong
  /-- No name has a zero character in it. -/
  | zeroCharacter
deriving DecidableEq, Repr

/-- The wording of the fault. -/
def PathFault.message : PathFault → String
  | notFound => "No such file or directory (os error 2)"
  | notFolder => "Not a directory (os error 20)"
  | tooLong => "File name too long (os error 36)"
  | zeroCharacter => "file name contained an unexpected NUL byte"

/-- The part of a file name before its last dot and the part behind it. Nothing but a dot in front
is not enough: such a name has no extension. -/
def splitExtension (name : String) : String × Option String :=
  let behind := name.toList.reverse.takeWhile (· != '.')
  match name.toList.reverse.drop behind.length with
  | [] | [_] => (name, none)
  | _ :: before => (.ofList before.reverse, some (.ofList behind.reverse))

namespace Path

/-- The greatest length of a name in bytes. -/
def maxName : Nat := 255

/-- The greatest length of a path in bytes. -/
def maxLength : Nat := 4095

/-- The names between the slashes, where `name` has been read, last character first. -/
def splitFrom (name : List Char) : List Char → List String
  | [] => [.ofList name.reverse]
  | '/' :: cs => .ofList name.reverse :: splitFrom [] cs
  | c :: cs => splitFrom (c :: name) cs

/-- The names between the slashes. -/
def split (path : String) : List String := splitFrom [] path.toList

/-- The path of what has the given name in the folder that a path leads to. -/
def join (path name : String) : String :=
  if path.isEmpty || path.toList.getLast? == some '/' then path ++ name else path ++ "/" ++ name

/-- The name of the file or folder that a path leads to, unless it ends in steps up. -/
def fileName? (path : String) : Option String :=
  match (split path).filter (fun name => name != "" && name != ".") |>.getLast? with
  | some ".." => none
  | name => name

/-- The part behind the last dot of the file name. -/
def extension? (path : String) : Option String :=
  (fileName? path).bind fun name => (splitExtension name).2

end Path

namespace Folder

/-- What is outside of a folder: a folder of which no entries are known, with itself around it. -/
def outside : Folder := {}

/-- Follows names from the innermost of the folders entered. -/
def follow (entered : List Folder) (node : Node) : List String → Except PathFault Node
  | [] => .ok node
  | name :: names =>
    match node with
    | .file _ => .error .notFolder
    | .folder entries =>
      if name = "" ∨ name = "." then follow entered node names
      else if name = ".." then
        follow entered.tail (.folder (entered.headD outside).entries) names
      else if Path.maxName < name.utf8ByteSize then .error .tooLong
      else
        match entries.lookup name with
        | none => .error .notFound
        | some inner => follow ({ entries } :: entered) inner names

/-- What a path leads to. Paths that leave the folder, or start with a slash, find nothing there. -/
def resolve (folder : Folder) (path : String) : Except PathFault Node :=
  if path.contains '\x00' then .error .zeroCharacter
  else if Path.maxLength < path.utf8ByteSize then .error .tooLong
  else
    match Path.split path with
    | [""] => .error .notFound
    | "" :: names => follow [] (.folder outside.entries) names
    | names => follow [] (.folder folder.entries) names

/-- Puts something under names that lead through folders, and makes the folders that are missing. -/
def insertAt (folder : Folder) (node : Node) : List String → Folder
  | [] => folder
  | [name] => folder.insert name node
  | name :: names =>
    let inner : Folder := match folder.get? name with
      | some (.folder entries) => { entries }
      | _ => {}
    folder.insert name (.folder (inner.insertAt node names).entries)

end Folder

end ScriptFuzz
