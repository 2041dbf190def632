import ScriptFuzz.Campaign.Target
import ScriptFuzz.Finding.Store
import ScriptFuzz.Mutator.Basic

/-!
# Fuzzing with files

The target is run once for every state of a walk through a file. Each time it finds the changed
contents in a payload file of its own, whose path is among its arguments.

- `Session.attempt`: one run.
- `Session.runWalk`: all states of a walk, from the first one on.
- `Session.runPath`: a file, or all files of a folder in the order of their paths.

A failure to start, to stop or to wait for the target ends the whole run. In a folder, files that
are empty or cannot be read are passed over.
-/

namespace ScriptFuzz

/-- Worlds with a place for payload files. -/
class PayloadFiles (ω : Type) where
  /-- Makes a file whose name ends in the suffix, and gives its path. There is none if it cannot be
  made. -/
  create : (suffix : String) → (data : Bytes) → StateM ω (Option String)
  /-- Takes the file of that path away. -/
  remove : (path : String) → StateM ω Unit

/-- Worlds with files to walk through. Looking at them changes nothing. -/
class InputFiles (ω : Type) where
  /-- Whether a path leads to a folder. -/
  isFolder : (path : String) → ω → Bool
  /-- The names in a folder, in any order, or why they cannot be listed. -/
  list : (path : String) → ω → Except String (List String)
  /-- Whether a path leads to a file. -/
  isFile : (path : String) → ω → Bool
  /-- What a file holds, or why it cannot be read. -/
  read : (path : String) → ω → Except String Bytes

namespace FileFuzz

/-- What file fuzzing goes by. -/
structure Plan where
  /-- The arguments of the target. Braces with nothing between stand for the path of the payload. -/
  argumentTemplate : String := "\x7b\x7d"
  /-- How long a run may take, in milliseconds. -/
  timeout : Nat := 2000
  /-- The judgement on the runs. -/
  oracle : Oracle := .crash

/-- Why file fuzzing ends early. -/
inductive Failure where
  /-- The file cannot be walked through. -/
  | seed (error : SeedError)
  /-- The folder cannot be listed, for the reason given. -/
  | listing (path reason : String)
  /-- A payload file cannot be made. -/
  | payload
  /-- The target cannot be started, stopped or waited for. -/
  | target (error : TargetError)
deriving DecidableEq, Repr

/-- The totals of a run. -/
structure Tally where
  /-- The number of files walked through. -/
  files : Nat := 0
  /-- How often the target was started. -/
  executions : Nat := 0
  /-- How often the target had not ended in time. -/
  timeouts : Nat := 0
  /-- The findings. -/
  findings : Array Report := #[]
deriving DecidableEq, Repr, Inhabited

/-- The arguments, with the path in the place of the braces. -/
def fillIn (path : List Char) : List Char → List Char
  | '\x7b' :: '\x7d' :: cs => path ++ fillIn path cs
  | c :: cs => c :: fillIn path cs
  | [] => []

/-- The arguments of the target for a payload under the given path. -/
def Plan.arguments (plan : Plan) (path : String) : String :=
  .ofList (fillIn path.toList plan.argumentTemplate.toList)

/-- What the names of payload files end in: the extension of the file walked through. -/
def suffix (name : String) : String :=
  match Path.extension? name with
  | some extension => "." ++ extension
  | none => ""

/-- A run on its way, in a world `ω` and with a place `δ` for findings. -/
structure Session (ω δ : Type) where
  /-- The world outside. -/
  world : ω
  /-- The store of findings, if they are kept. -/
  store : Option (FindingStore δ) := none
  /-- The totals so far. -/
  tally : Tally := {}

namespace Session

variable {ω δ : Type}

/-- Acts on the world outside. -/
def act {ε α : Type} (wrap : ε → Failure) (action : EStateM ε ω α) :
    EStateM Failure (Session ω δ) α := fun s =>
  match action s.world with
  | .ok a world => .ok a { s with world }
  | .error e world => .error (wrap e) { s with world }

/-- Acts on the world outside without fail. -/
def perform {α : Type} (action : StateM ω α) : EStateM Failure (Session ω δ) α := fun s =>
  let (a, world) := action s.world
  .ok a { s with world }

/-- Changes the totals. -/
def count (change : Tally → Tally) : EStateM Failure (Session ω δ) Unit :=
  modify fun s => { s with tally := change s.tally }

variable [Target ω]

/-- Judges how the target ended. A finding counts even if it cannot be kept. -/
def judge [Storage δ] (plan : Plan) (w : FileWalk) : EStateM Failure (Session ω δ) Unit :=
  modify fun s =>
    match Target.status s.world with
    | none => s
    | some (exitCode, ending) =>
      let outcome : Outcome :=
        { template := w.name, state := w.describe, input := w.bytes, exitCode, ending }
      match plan.oracle outcome with
      | none => s
      | some report =>
        { s with
          store := s.store.map fun store => (store.record report).2
          tally.findings := s.tally.findings.push report }

/-- Runs the target on the payload under the given path. If it does not end in time it is stopped,
and how it ends then is not judged. -/
def runTarget [Storage δ] (plan : Plan) (w : FileWalk) (path : String) :
    EStateM Failure (Session ω δ) Unit := do
  perform (Target.setArguments (plan.arguments path))
  act .target Target.launch
  count fun t => { t with executions := t.executions + 1 }
  if ← act .target (Target.wait plan.timeout) then judge plan w
  else
    count fun t => { t with timeouts := t.timeouts + 1 }
    act .target Target.terminate
    let _ ← act .target (Target.wait plan.timeout)

/-- Runs the target on the present state of a walk. The payload file is taken away in any case. -/
def attempt [PayloadFiles ω] [Storage δ] (plan : Plan) (w : FileWalk) :
    EStateM Failure (Session ω δ) Unit := do
  match ← perform (PayloadFiles.create (suffix w.name) w.bytes) with
  | none => throw .payload
  | some path =>
    try runTarget plan w path
    finally perform (PayloadFiles.remove path)

variable [PayloadFiles ω] [Storage δ]

/-- Runs the target on the present state of a walk and moves on, until there is no next state. Gives
the state of the walk afterwards; it is that of the run that failed, if one did. -/
def runFrom (plan : Plan) (w : FileWalk) (h : w.InFile) (s : Session ω δ) :
    FileWalk × EStateM.Result Failure (Session ω δ) Unit :=
  match attempt plan w s with
  | .error e s => (w, .error e s)
  | .ok () s =>
    if _ : !w.mutate.1 || w.next.finished then (w.next, .ok () s)
    else runFrom plan w.next h.next s
termination_by w.remaining
decreasing_by
  rename_i hmove
  rw [Bool.not_eq_true, Bool.or_eq_false_iff, Bool.not_eq_false'] at hmove
  exact FileWalk.remaining_next_lt h hmove.1

/-- Runs the target on the states of a walk, from the first one on. -/
def runWalk (plan : Plan) (w : FileWalk) (hdata : w.data ≠ []) (s : Session ω δ) :
    FileWalk × EStateM.Result Failure (Session ω δ) Unit :=
  runFrom plan w.reset (FileWalk.inFile_reset hdata)
    { s with tally.files := s.tally.files + 1 }

variable [InputFiles ω]

/-- Runs the target on the states of the file that a path leads to. -/
def runFile (plan : Plan) (path : String) : EStateM Failure (Session ω δ) Unit := fun s =>
  match InputFiles.read path s.world with
  | .error reason => .error (.seed (.unreadable path reason)) s
  | .ok data =>
    match h : FileWalk.start? path data with
    | none => .error (.seed (.empty path)) s
    | some w => (runWalk plan w (FileWalk.data_of_start? h) s).2

/-- Passes over a file that cannot be walked through. -/
def passOver (run : EStateM Failure (Session ω δ) Unit) : EStateM Failure (Session ω δ) Unit :=
  fun s =>
    match run s with
    | .error (.seed _) s => .ok () s
    | result => result

/-- Runs the target on the states of files, one file after the other. Those that cannot be walked
through are passed over. -/
def runFiles (plan : Plan) : List String → EStateM Failure (Session ω δ) Unit
  | [] => pure ()
  | path :: paths => do
    passOver (runFile plan path)
    runFiles plan paths

/-- The paths of the files among the names in a folder, in their order. -/
def inputFiles (path : String) (names : List String) (world : ω) : List String :=
  ((names.map (Path.join path)).filter (InputFiles.isFile · world)).mergeSort

/-- Runs the target on the states of the files in a folder. -/
def runFolder (plan : Plan) (path : String) : EStateM Failure (Session ω δ) Unit := fun s =>
  match InputFiles.list path s.world with
  | .error reason => .error (.listing path reason) s
  | .ok names => runFiles plan (inputFiles path names s.world) s

/-- Runs the target on the file, or on the files in the folder, that a path leads to. -/
def runPath (plan : Plan) (path : String) : EStateM Failure (Session ω δ) Unit := fun s =>
  if InputFiles.isFolder path s.world then runFolder plan path s else runFile plan path s

end Session

end FileFuzz

end ScriptFuzz
