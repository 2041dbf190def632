import ScriptFuzz.Bytes.Digest
import ScriptFuzz.Text.Json

/-!
# Findings

How a run of the target ended, and what is reported about it.

- `Ending`: the ways in which a target ends.
- `Outcome`: what is known about one run.
- `Report`: a finding, with the payload that led to it and the payload's digest.
- `Oracle`: a judgement on outcomes. `Oracle.crash` reports every ending that is not normal.
- `Report.json`: the text in which a finding is kept.
-/

namespace ScriptFuzz

/-- How a target ended. -/
inductive Ending where
  | normal
  | segmentationFault
  | boundsError
  | unalignedAccess
  | stackOverflow
  | other
deriving DecidableEq, Repr, Inhabited

namespace Ending

/-- All endings. -/
def all : List Ending :=
  [normal, segmentationFault, boundsError, unalignedAccess, stackOverflow, other]

/-- The name under which an ending is kept. -/
def name : Ending → String
  | normal => "Normal"
  | segmentationFault => "SegmentationFault"
  | boundsError => "BoundsError"
  | unalignedAccess => "UnalignedAccess"
  | stackOverflow => "StackOverflow"
  | other => "Other"

/-- The ending with the given name. -/
def ofName? (name : String) : Option Ending := all.find? (·.name == name)

/-- An ending in words. -/
def describe : Ending → String
  | normal => "normal"
  | segmentationFault => "access violation"
  | boundsError => "array bounds exceeded"
  | unalignedAccess => "misaligned data access"
  | stackOverflow => "stack overflow"
  | other => "unknown"

/-- Whether an ending is a sign of a fault in the target. -/
def isAbnormal (e : Ending) : Bool := e != normal

end Ending

/-- What is known about one run of the target. -/
structure Outcome where
  /-- The name of the template, or of the file, that was mutated. -/
  template : String
  /-- The signature of the mutator. -/
  state : String
  /-- The mutated bytes. -/
  input : Bytes
  /-- The exit code of the target. -/
  exitCode : Int
  /-- How the target ended. -/
  ending : Ending
deriving DecidableEq, Repr

/-- A finding. -/
structure Report where
  /-- The run that led to it. -/
  outcome : Outcome
  /-- What happened, in words. -/
  description : String
  /-- The digest of the mutated bytes, by which findings are told apart. -/
  hash : String
  /-- How bad it is. -/
  severity : Nat
deriving DecidableEq, Repr

/-- A judgement on runs: a report about each that is worth one. -/
abbrev Oracle := Outcome → Option Report

namespace Oracle

/-- The severity of a crash. -/
def crashSeverity : Nat := 10

/-- Reports every ending that is not normal. -/
def crash : Oracle := fun outcome =>
  if outcome.ending.isAbnormal then
    some {
      outcome
      description := s!"{outcome.ending.describe} (exit code {outcome.exitCode})"
      hash := hexText (md5 outcome.input)
      severity := crashSeverity }
  else none

/-- Reports nothing. -/
def silent : Oracle := fun _ => none

end Oracle

namespace Report

/-- The members of a finding as it is kept, each with its value in JSON. The payload is kept beside
it. -/
def members (r : Report) : List (String × String) :=
  [("template", Text.json r.outcome.template),
   ("mutator_state", Text.json r.outcome.state),
   ("reason", Text.json r.outcome.ending.name),
   ("exit_code", toString r.outcome.exitCode),
   ("input_len", toString r.outcome.input.length),
   ("description", Text.json r.description),
   ("input_hash", Text.json r.hash),
   ("severity", toString r.severity)]

/-- A finding as it is kept: a JSON object with one member on a line. -/
def json (r : Report) : String :=
  let lines := r.members.map fun (name, value) => "  " ++ Text.json name ++ ": " ++ value
  "\x7b\n" ++ ",\n".intercalate lines ++ "\n\x7d"

end Report

end ScriptFuzz
