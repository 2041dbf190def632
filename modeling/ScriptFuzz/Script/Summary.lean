import ScriptFuzz.Script.Code

/-!
# Summaries of scripts

What there is to see of a script that compiles: the listing of its methods, and for each template a
line with its serialization.
-/

namespace ScriptFuzz

/-- The line about a template. -/
def Template.summary (pool : Pool) (name : String) (t : Template) :
    Except TemplateError String := do
  let bytes ← t.generate pool
  let digits := " ".intercalate (bytes.map fun b => hexText [b])
  let mutators := t.mutators.length
  return s!"template {name} ({bytes.length} byte(s), {mutators} mutator(s)): {digits}\n"

/-- The listing of the methods, and the lines about the templates. -/
def Script.summary (s : Script) : Except TemplateError String := do
  let lines ← s.templates.mapM fun (name, t) => t.summary s.pool name
  return s.disassembly ++ String.join lines

end ScriptFuzz
