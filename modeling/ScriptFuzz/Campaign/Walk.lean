import ScriptFuzz.Machine.Instruction

/-!
# Walks through the mutations of a script

A campaign tries every template with every state of each of its mutators: templates in the order of
their names, the mutators of a template in the order of its items, the states of a mutator from the
first to the last. Only one mutator is away from its first state at a time.

- `Trial`: one mutation that is tried.
- `Walk.ofMutator`, `Walk.ofTemplate`, `Walk.ofScript`: visit the trials in order. What a visit does
  with a trial has no influence on the trials that follow.
- `Walk.trials`: all trials of a script.

A template that cannot be serialized, because a mutator that it reaches is held elsewhere, is
abandoned.
-/

namespace ScriptFuzz

/-- One mutation that is tried. -/
structure Trial where
  /-- The name of the template. -/
  template : String
  /-- The signature of the mutator. -/
  state : String
  /-- The serialization of the template. -/
  payload : Bytes
  /-- The states of all mutators during the trial. -/
  pool : Pool

/-- A walk on its way. -/
structure Walk (ρ : Type) where
  /-- The states of the mutators. -/
  pool : Pool
  /-- What the visits have made so far. -/
  result : ρ
  /-- The templates that were abandoned. -/
  abandoned : Array String := #[]

namespace Walk

variable {ρ : Type} (visit : Trial → ρ → ρ)

/-- The most states that a mutator with an end has. -/
def stepBound : Nat := 2 ^ (64 : Nat)

/-- Puts a mutator that nobody else holds back to its first state. -/
def resetMutator (id : MutatorId) : EStateM TemplateError (Walk ρ) Unit := fun w =>
  match w.pool.free? id with
  | none => .error .mutatorBusy w
  | some m => .ok () { w with pool := w.pool.set id m.reset }

/-- Visits the trial of a template with a mutator in its present state. -/
def visitPresent (name : String) (t : Template) (id : MutatorId) :
    EStateM TemplateError (Walk ρ) Unit := fun w =>
  match w.pool.free? id with
  | none => .error .mutatorBusy w
  | some m =>
    match t.generate w.pool with
    | .error e => .error e w
    | .ok payload =>
      let trial : Trial := { template := name, state := m.describe, payload, pool := w.pool }
      .ok () { w with result := visit trial w.result }

/-- Visits the trials of a template from the present state of a mutator on: this one, and at most
`more` after it. -/
def fromPresent (name : String) (t : Template) (id : MutatorId) :
    (more : Nat) → EStateM TemplateError (Walk ρ) Unit
  | 0 => visitPresent visit name t id
  | more + 1 => do
    visitPresent visit name t id
    let (moved, next) := ((← get).pool.state id).mutate
    modify fun w => { w with pool := w.pool.set id next }
    if !moved || next.finished then pure () else fromPresent name t id more

/-- Visits the trials of a template with a mutator, and puts the mutator back to its first state.
There are at most `limit`, but there is one in any case. -/
def ofMutator (limit : Option Nat) (name : String) (t : Template) (id : MutatorId) :
    EStateM TemplateError (Walk ρ) Unit := do
  resetMutator id
  fromPresent visit name t id (limit.getD stepBound - 1)
  resetMutator id

/-- Visits the trials of a template, up to the first mutator whose trials cannot be visited. -/
def ofTemplate (limit : Option Nat) (name : String) (t : Template) (w : Walk ρ) : Walk ρ :=
  match t.mutators.forM (ofMutator visit limit name t) w with
  | .ok _ w => w
  | .error _ w => { w with abandoned := w.abandoned.push name }

/-- Visits the trials of a script. -/
def ofScript (limit : Option Nat) (script : Script) (w : Walk ρ) : Walk ρ :=
  script.templates.foldl (fun w (name, t) => ofTemplate visit limit name t w) w

/-- The trials of a script, from the given states of its mutators. -/
def trials (limit : Option Nat) (script : Script) (pool : Pool) : List Trial :=
  let walk := ofScript (fun trial trials => trials.push trial) limit script { pool, result := #[] }
  walk.result.toList

end Walk

end ScriptFuzz
