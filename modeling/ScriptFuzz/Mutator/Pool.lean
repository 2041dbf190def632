import ScriptFuzz.Mutator.Basic

/-!
# Pools of mutators

Templates share mutators: a template that refers to another one reaches its mutators too. So the
states of all mutators are kept in one pool, and templates hold their numbers. A mutator that is
held elsewhere can be neither written nor moved.
-/

namespace ScriptFuzz

/-- The number of a mutator in its pool. -/
abbrev MutatorId := Nat

/-- The states of mutators, and which of them are held elsewhere. -/
structure Pool where
  /-- The state of each mutator. -/
  states : Array Mutator := #[]
  /-- The mutators held elsewhere. -/
  held : List MutatorId := []
deriving Inhabited

namespace Pool

/-- The state of a mutator. -/
def state (pool : Pool) (id : MutatorId) : Mutator := pool.states.getD id default

/-- Whether a mutator is held elsewhere. -/
def isHeld (pool : Pool) (id : MutatorId) : Bool := pool.held.contains id

/-- The state of a mutator, unless it is held elsewhere. -/
def free? (pool : Pool) (id : MutatorId) : Option Mutator :=
  if pool.isHeld id then none else some (pool.state id)

/-- Adds a mutator, which gets the next number. -/
def add (pool : Pool) (m : Mutator) : MutatorId × Pool :=
  (pool.states.size, { pool with states := pool.states.push m })

/-- Puts a mutator in another state. -/
def set (pool : Pool) (id : MutatorId) (m : Mutator) : Pool :=
  { pool with states := pool.states.setIfInBounds id m }

/-- Changes the state of a mutator. -/
def update (pool : Pool) (id : MutatorId) (f : Mutator → Mutator) : Pool :=
  pool.set id (f (pool.state id))

variable {pool : Pool} {id : MutatorId}

theorem state_set (h : id < pool.states.size) (m : Mutator) : (pool.set id m).state id = m := by
  rw [state, set, Array.getD_eq_getD_getElem?, Array.getElem?_setIfInBounds_self_of_lt h]
  rfl

theorem state_set_of_ne {other : MutatorId} (h : other ≠ id) (m : Mutator) :
    (pool.set id m).state other = pool.state other := by
  rw [state, set, Array.getD_eq_getD_getElem?, Array.getElem?_setIfInBounds_ne (Ne.symm h), state,
    Array.getD_eq_getD_getElem?]

end Pool

end ScriptFuzz
