import ScriptFuzz.Mutator.Counter
import ScriptFuzz.Mutator.Dictionary
import ScriptFuzz.Mutator.FileWalk
import ScriptFuzz.Mutator.LengthWalk

/-!
# Mutators

A mutator stands at one variant of a value and moves on to the next when it is told to. Writing the
present variant changes nothing, and `reset` goes back to the first one.

- `Mutator.mutate`: the next state, and whether it is a new variant.
- `Mutator.bytes`: the present variant as it is written.
- `Mutator.describe`: the signature under which a finding made with it is reported.
-/

namespace ScriptFuzz

/-- A value with a list of variants. -/
inductive Mutator where
  /-- The values of an unsigned width. -/
  | counter (c : Counter)
  /-- Strings known to break programs. -/
  | strings (d : Dictionary)
  /-- A file with one byte changed. -/
  | file (w : FileWalk)
  /-- An array of varying length. -/
  | lengths (w : LengthWalk)
deriving DecidableEq, Repr

namespace Mutator

instance : Inhabited Mutator := ⟨lengths (.start 0 0 0)⟩

/-- Whether there is no further variant. Counters never end. -/
def finished : Mutator → Bool
  | counter _ => false
  | strings d => d.finished
  | file w => w.finished
  | lengths w => w.done

/-- Moves on to the next state; the answer says whether it is a new variant. -/
def mutate : Mutator → Bool × Mutator
  | counter c => c.mutate.map id counter
  | strings d => d.mutate.map id strings
  | file w => w.mutate.map id file
  | lengths w => w.mutate.map id lengths

/-- The next state. -/
def next (m : Mutator) : Mutator := m.mutate.2

@[simp] theorem next_counter (c : Counter) : (counter c).next = counter c.next := rfl

@[simp] theorem next_strings (d : Dictionary) : (strings d).next = strings d.next := rfl

@[simp] theorem next_file (w : FileWalk) : (file w).next = file w.next := rfl

@[simp] theorem next_lengths (w : LengthWalk) : (lengths w).next = lengths w.next := rfl

/-- Whatever the kind, the answer to a move is whether the mutator is not finished behind it. -/
theorem mutate_fst (m : Mutator) : m.mutate.1 = !m.next.finished := by
  cases m with
  | counter c => rfl
  | strings d => exact d.mutate_fst
  | file w => exact w.mutate_fst
  | lengths w => exact w.mutate_fst

/-- Back to the first variant. -/
def reset : Mutator → Mutator
  | counter c => counter c.reset
  | strings d => strings d.reset
  | file w => file w.reset
  | lengths w => lengths w.reset

/-- The present variant as it is written; only counters heed the byte order. -/
def bytes (order : ByteOrder) : Mutator → Bytes
  | counter c => c.bytes order
  | strings d => d.bytes
  | file w => w.bytes
  | lengths w => w.bytes

/-- The signature of the present state. -/
def describe : Mutator → String
  | counter c => c.describe
  | strings d => d.describe
  | file w => w.describe
  | lengths w => w.describe

/-- A counter over an unsigned width. -/
def ofWidth (width : Width) (initial : Nat) : Mutator := counter (.start width initial)

/-- A dictionary of strings. -/
def ofStrings (form : StringForm) (seed : Option String) : Mutator := strings (.start form seed)

/-- An array of varying length. -/
def ofLengths (width lower upper : Nat) : Mutator := lengths (.start width lower upper)

end Mutator

/-- Why a file cannot be walked through. -/
inductive SeedError where
  /-- The file cannot be read, for the reason given. -/
  | unreadable (path reason : String)
  /-- The file is empty. -/
  | empty (name : String)
deriving DecidableEq, Repr

/-- The wording of the error. -/
def SeedError.message : SeedError → String
  | unreadable path reason => s!"failed to read {Text.quoted path}: {reason}"
  | empty name => s!"{name} is empty, nothing to mutate"

/-- A walk through the contents of a file. -/
def Mutator.ofFile (name : String) (data : Bytes) : Except SeedError Mutator :=
  match FileWalk.start? name data with
  | some w => .ok (.file w)
  | none => .error (.empty name)

end ScriptFuzz
