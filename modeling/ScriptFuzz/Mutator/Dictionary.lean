import ScriptFuzz.Text.Quoted
import ScriptFuzz.Text.Utf8

/-!
# Dictionaries of strings

A dictionary tries its seed, if it has one, and then strings that are known to break programs:
paths out of the working directory, reserved characters, percent escapes, database commands, and
long runs of one pattern.
-/

namespace ScriptFuzz

/-- How a string ends on the wire. -/
inductive StringForm where
  /-- With a NUL. -/
  | terminated
  /-- With a NUL and a line break. -/
  | line
deriving DecidableEq, Repr

namespace StringForm

/-- The bytes behind the string. -/
def ending : StringForm → Bytes
  | terminated => [0]
  | line => [0, 0x0D, 0x0A]

/-- The keyword of the form. -/
def name : StringForm → String
  | terminated => "cstring"
  | line => "line"

end StringForm

/-- Strings that are known to break programs. -/
def knownStrings : List Bytes :=
  ["/.../.../.../.../.../.../.../.../.../.../",
   "/../../../../../../../../../../../../etc/passwd",
   "/../../../../../../../../../../../../boot.ini",
   "..:..:..:..:..:..:..:..:..:..:..:..:..:",
   "\\\\*",
   "\\\\?\\",
   "!@#$%%^#$%#$@#$%$$@#$%^^**(()",
   "%01%02%03%04%0a%0d%0aADSF",
   "%01%02%03@%04%0a%0d%0aADSF",
   "/%00/",
   "%00/",
   "%00",
   "%u0000"].map Text.utf8
  -- two bytes that occur in no text
  ++ [[0x25, 0xFE, 0xF0, 0x25]]
  ++ ["1;SELECT%20*",
      "'sqlattempt1",
      "(sqlattempt2)",
      "OR%201=1"].map Text.utf8

/-- Patterns that are repeated until a buffer of the usual sizes overflows. -/
def overflowPatterns : List (Bytes × Nat) :=
  [128, 256, 1024, 4096, 65536].map (Text.utf8 "A", ·) ++
    [(Text.utf8 "%n", 64), (Text.utf8 "%s", 64)]

/-- The strings that every dictionary tries behind its seed. -/
def badStrings : List Bytes :=
  knownStrings ++ overflowPatterns.map fun p => (List.replicate p.2 p.1).flatten

/-- A walk through a list of strings. -/
structure Dictionary where
  /-- How the strings end on the wire. -/
  form : StringForm
  /-- The strings. -/
  entries : List Bytes
  /-- The number of the present string; at the number of strings the walk is over. -/
  index : Nat
deriving DecidableEq, Repr

namespace Dictionary

/-- A dictionary at its first string. -/
def start (form : StringForm) (seed : Option String) : Dictionary :=
  { form, entries := (seed.map Text.utf8).toList ++ badStrings, index := 0 }

/-- The number of strings. -/
def size (d : Dictionary) : Nat := d.entries.length

/-- The present string; when the walk is over, the last one. -/
def current (d : Dictionary) : Bytes :=
  (d.entries[d.index]? <|> d.entries.getLast?).getD []

/-- Whether the walk is over. -/
def finished (d : Dictionary) : Bool := d.size ≤ d.index

/-- Moves on to the next string, and says whether there is one. -/
def mutate (d : Dictionary) : Bool × Dictionary :=
  if d.finished then (false, d)
  else
    let moved := { d with index := d.index + 1 }
    (!moved.finished, moved)

/-- The walk at the next string. -/
def next (d : Dictionary) : Dictionary := d.mutate.2

theorem next_eq (d : Dictionary) :
    d.next = if d.finished then d else { d with index := d.index + 1 } := by
  rw [next, mutate]
  split <;> rfl

/-- The answer to a move is whether the walk is not over behind it. -/
theorem mutate_fst (d : Dictionary) : d.mutate.1 = !d.next.finished := by
  rw [next, mutate]
  split
  · next h => exact (congrArg (!·) h).symm
  · rfl

/-- Back to the first string. -/
def reset (d : Dictionary) : Dictionary := { d with index := 0 }

/-- The present string as it is written. -/
def bytes (d : Dictionary) : Bytes := d.current ++ d.form.ending

/-- The signature of the present state, with the first 48 characters of the string. -/
def describe (d : Dictionary) : String :=
  let preview := String.ofList ((Text.ofUtf8 d.current).toList.take 48)
  s!"{d.form.name}: index={d.index}/{d.size}, value={Text.quoted preview}"

end Dictionary

end ScriptFuzz
