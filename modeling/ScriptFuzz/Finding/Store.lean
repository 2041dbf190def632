import ScriptFuzz.Finding.Basic
import ScriptFuzz.Folder.Path
import ScriptFuzz.Text.Utf8

/-!
# Stores of findings

A store keeps one finding for each payload, under the payload's digest: the report in a `json` file
and the payload in a `bin` file. It remembers the digests of the findings it has kept, and a store
that is opened later finds them again by the names of the `json` files.

- `FindingStore.start`: a store over what is there already.
- `FindingStore.record`: keeps a finding, unless one with the same digest is known.

A store works on any place that takes files by name (`Storage`). A write there can fail, and the
digest is remembered only when both files are written. To list the names can fail too, and then the
store starts as over an empty place.
-/

namespace ScriptFuzz

/-- States that keep files by name. -/
class Storage (δ : Type) where
  /-- Writes a file. The answer is whether it was written. -/
  write : (name : String) → (data : Bytes) → δ → Bool × δ
  /-- The names in use. There are none to be had if they cannot be listed. -/
  list? : δ → Option (List String)

/-- The names that are found: none if they cannot be listed. -/
def Storage.names {δ : Type} [Storage δ] (storage : δ) : List String := (list? storage).getD []

instance : Storage Folder where
  write name data folder :=
    match folder.write name data with
    | some folder => (true, folder)
    | none => (false, folder)
  list? folder := some folder.names

/-- A store of findings. -/
structure FindingStore (δ : Type) where
  /-- Where the files are kept. -/
  storage : δ
  /-- The digests of the findings known. -/
  seen : List String
deriving Inhabited

namespace FindingStore

/-- The digests that the names of files give away. -/
def known (names : List String) : List String :=
  names.filterMap fun name =>
    match splitExtension name with
    | (digest, some "json") => some digest
    | _ => none

variable {δ : Type} [Storage δ]

/-- A store over what is kept already. If that cannot be listed, no finding is known. -/
def start (storage : δ) : FindingStore δ :=
  { storage, seen := (known (Storage.names storage)).eraseDups }

/-- The number of findings known. -/
def size (s : FindingStore δ) : Nat := s.seen.length

/-- Whether no finding is known. -/
def isEmpty (s : FindingStore δ) : Bool := s.seen.isEmpty

/-- The name of the file for a report. -/
def reportName (r : Report) : String := r.hash ++ ".json"

/-- The name of the file for a payload. -/
def payloadName (r : Report) : String := r.hash ++ ".bin"

/-- Keeps a finding. The answer is whether it is new; there is none if a file cannot be written. -/
def record (s : FindingStore δ) (r : Report) : Option Bool × FindingStore δ :=
  if s.seen.contains r.hash then (some false, s)
  else
    match Storage.write (reportName r) (Text.utf8 r.json) s.storage with
    | (false, storage) => (none, { s with storage })
    | (true, storage) =>
      match Storage.write (payloadName r) r.outcome.input storage with
      | (false, storage) => (none, { s with storage })
      | (true, storage) => (some true, { storage, seen := r.hash :: s.seen })

/-- The store as one that is opened now finds it. -/
def reopen (s : FindingStore δ) : FindingStore δ := start s.storage

end FindingStore

end ScriptFuzz
