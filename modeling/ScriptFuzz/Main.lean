import ScriptFuzz.Script.Summary

/-!
# Command line

`check SCRIPT` compiles a script and prints what there is to see of it.
-/

namespace ScriptFuzz

/-- The text of a script, or why it has none to show. -/
def checkSource (path source : String) : Except String String :=
  match compile source with
  | .error diagnostic => .error s!"{path}: {diagnostic.text}"
  | .ok script => script.summary.mapError TemplateError.message

/-- Prints a complaint. -/
def complain (message : String) : IO Unit := do
  let err ← IO.getStderr
  err.putStrLn message

/-- Compiles the script in a file and prints its summary. -/
def checkFile (path : String) : IO UInt32 := do
  match ← (IO.FS.readFile path).toBaseIO with
  | .error e =>
    complain s!"Error: Failed to read script {Text.quoted path}: {e}"
    return 1
  | .ok source =>
    match checkSource path source with
    | .error message =>
      complain s!"Error: {message}"
      return 1
    | .ok summary =>
      IO.print summary
      return 0

end ScriptFuzz

/-- The program. -/
def main (arguments : List String) : IO UInt32 :=
  match arguments with
  | ["check", path] => ScriptFuzz.checkFile path
  | _ => do
    ScriptFuzz.complain "Usage: check SCRIPT"
    return 2
