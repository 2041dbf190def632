import ScriptFuzz.Proofs.Language.Tree
import ScriptFuzz.Script.Scope

/-!
# The names in force

At each place of a script some names are declared: functions and templates above the function or
template around the place, and inside a function its parameters and the variables above the place.
`Naming` lists them, and says what a name stands for there.

A variable takes a slot of its own whenever it is declared, so the slot of a name is the number of
variables declared before the latest one of that name (`Naming.slot?`).
-/

namespace ScriptFuzz.Source

/-- The names that are declared before a place of a script. -/
structure Naming where
  /-- The functions in the order of their declaration, with the numbers of their parameters. -/
  functions : List (String × Nat) := []
  /-- The templates, the latest first. -/
  templates : List String := []
  /-- The parameters of the function around the place. -/
  params : List String := []
  /-- The variables of that function, the latest first. -/
  locals : List String := []

namespace Naming

/-- The slot of the latest variable of a name, in a list with the latest variable first. -/
def slot? : List String → String → Option Nat
  | [], _ => none
  | y :: ys, x => if x = y then some ys.length else slot? ys x

/-- What a name stands for where its value is used: the latest variable of that name, else the
parameter, else the template. -/
def resolve? (names : Naming) (x : String) : Option Binding :=
  match slot? names.locals x with
  | some i => some (.slot i)
  | none =>
    match names.params.idxOf? x with
    | some i => some (.argument i)
    | none => if x ∈ names.templates then some .template else none

/-- What a call of a name goes to: `sizeof`, else the function of that name, else the host. -/
def callee (names : Naming) (f : String) : Callee :=
  if f = "sizeof" then .sizeof
  else
    match names.functions.findIdx? (·.1 == f) with
    | some i => .function i
    | none => .host

/-- The names behind the declaration of a variable. -/
def declare (names : Naming) (x : String) : Naming := { names with locals := x :: names.locals }

/-- The names at the start of a function. -/
def enter (names : Naming) (params : List String) : Naming := { names with params, locals := [] }

/-- The names behind a statement. -/
def behind (names : Naming) : Statement → Naming
  | .declare x _ => names.declare x
  | _ => names

/-- The names behind a declaration. -/
def add (names : Naming) : Declaration → Naming
  | .template x _ => { names with templates := x :: names.templates }
  | .function f => { names with functions := names.functions ++ [(f.name, f.params.length)] }

/-- A slot is below the number of variables. -/
theorem slot?_lt {xs : List String} {x : String} {i : Nat} (h : slot? xs x = some i) :
    i < xs.length := by
  induction xs with
  | nil => cases h
  | cons y ys ih =>
    rw [slot?] at h
    split at h
    · cases h
      exact Nat.lt_succ_self _
    · exact Nat.lt_succ_of_lt (ih h)

/-- A name has a slot exactly if a variable of that name is declared. -/
theorem slot?_isSome_iff {xs : List String} {x : String} : (slot? xs x).isSome ↔ x ∈ xs := by
  induction xs with
  | nil => simp [slot?]
  | cons y ys ih =>
    rw [slot?, List.mem_cons]
    split
    · simp_all
    · simp_all

/-- Two names do not share a slot. -/
theorem slot?_inj {xs : List String} {x y : String} {i : Nat} (hx : slot? xs x = some i)
    (hy : slot? xs y = some i) : x = y := by
  induction xs with
  | nil => cases hx
  | cons z zs ih =>
    rw [slot?] at hx hy
    split at hx <;> split at hy
    · simp_all
    · cases hx
      exact absurd (slot?_lt hy) (Nat.lt_irrefl _)
    · cases hy
      exact absurd (slot?_lt hx) (Nat.lt_irrefl _)
    · exact ih hx hy

theorem resolve?_slot {names : Naming} {x : String} {i : Nat}
    (h : names.resolve? x = some (.slot i)) : slot? names.locals x = some i := by
  unfold resolve? at h
  split at h
  · next hi =>
    cases h
    exact hi
  · split at h
    · cases h
    · split at h <;> cases h

theorem resolve?_argument {names : Naming} {x : String} {i : Nat}
    (h : names.resolve? x = some (.argument i)) :
    slot? names.locals x = none ∧ names.params.idxOf? x = some i := by
  unfold resolve? at h
  split at h
  · cases h
  next hslot =>
  split at h
  · next hi =>
    cases h
    exact ⟨hslot, hi⟩
  · split at h <;> cases h

theorem resolve?_template {names : Naming} {x : String}
    (h : names.resolve? x = some .template) :
    slot? names.locals x = none ∧ names.params.idxOf? x = none ∧ x ∈ names.templates := by
  unfold resolve? at h
  split at h
  · cases h
  next hslot =>
  split at h
  · cases h
  next hidx =>
  split at h
  · next hmem => exact ⟨hslot, hidx, hmem⟩
  · cases h

/-- A call of a function goes to the first one of that name. -/
theorem callee_function {names : Naming} {f : String} {i : Nat}
    (h : names.callee f = .function i) :
    f ≠ "sizeof" ∧ names.functions.findIdx? (·.1 == f) = some i := by
  unfold callee at h
  split at h
  · cases h
  next hne =>
  split at h
  · next hi =>
    cases h
    exact ⟨hne, hi⟩
  · cases h

/-- A call of the host has a name that no function has. -/
theorem callee_host {names : Naming} {f : String} (h : names.callee f = .host) :
    f ≠ "sizeof" ∧ names.functions.findIdx? (·.1 == f) = none := by
  unfold callee at h
  split at h
  · cases h
  next hne =>
  split at h
  · cases h
  · next hi => exact ⟨hne, hi⟩

theorem callee_sizeof {names : Naming} {f : String} (h : names.callee f = .sizeof) :
    f = "sizeof" := by
  unfold callee at h
  split at h
  · assumption
  · split at h <;> cases h

end Naming

/-- The number of variables at the end of a body. -/
def Statement.slots (names : Naming) : List Statement → Nat
  | [] => names.locals.length
  | s :: body => slots (names.behind s) body

theorem Statement.length_le_slots (names : Naming) (body : List Statement) :
    names.locals.length ≤ slots names body := by
  induction body generalizing names with
  | nil => exact Nat.le_refl _
  | cons s body ih =>
    have h := ih (names.behind s)
    rw [slots]
    cases s with
    | declare => exact Nat.le_trans (Nat.le_succ _) h
    | assign | result | evaluate => exact h

end ScriptFuzz.Source
