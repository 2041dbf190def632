import ScriptFuzz.Proofs.Campaign.Trials

/-!
# Visits in the order of the trials

A walk hands one trial after the other to a visitor, and passes on what the visitor has made so far
without looking at it. So it goes the same way whoever visits, through any script and from any
states of the mutators.

- `Follows`: a computation does to a view of the state what another one does to the state.
- `Walk.map_ofScript`: a walk with one visitor is a view of the walk with another one.
- `Walk.result_ofScript`: what is made on a walk is what the visitor makes of the trials of the
  script, one after the other.
-/

namespace ScriptFuzz

variable {ε α β σ τ : Type}

/-! ## Views of states -/

/-- The computation `y` does to the view of a state what `x` does to the state, and ends in the same
way. -/
def Follows (view : σ → τ) (x : EStateM ε σ α) (y : EStateM ε τ α) : Prop :=
  ∀ s, y (view s) =
    match x s with
    | .ok a s => .ok a (view s)
    | .error e s => .error e (view s)

namespace Follows

variable {view : σ → τ}

theorem pure (a : α) : Follows view (pure a : EStateM ε σ α) (pure a) := fun _ => rfl

theorem modify {f : σ → σ} {g : τ → τ} (h : ∀ s, g (view s) = view (f s)) :
    Follows view (modify f : EStateM ε σ Unit) (modify g) := by
  intro s
  show EStateM.Result.ok () (g (view s)) = .ok () (view (f s))
  rw [h]

theorem bind {x : EStateM ε σ α} {y : EStateM ε τ α} {k : α → EStateM ε σ β}
    {l : α → EStateM ε τ β} (hx : Follows view x y) (hk : ∀ a, Follows view (k a) (l a)) :
    Follows view (x >>= k) (y >>= l) := by
  intro s
  show EStateM.bind y l (view s) = match EStateM.bind x k s with
    | .ok a s => .ok a (view s)
    | .error e s => .error e (view s)
  rw [EStateM.bind, EStateM.bind, hx s]
  cases x s with
  | ok a s => exact hk a s
  | error e s => rfl

/-- What goes on with the state goes on with its view. -/
theorem get_bind {k : σ → EStateM ε σ α} {l : τ → EStateM ε τ α}
    (h : ∀ s, Follows view (k s) (l (view s))) : Follows view (get >>= k) (get >>= l) :=
  fun s => h s s

theorem forM {x : β → EStateM ε σ Unit} {y : β → EStateM ε τ Unit}
    (h : ∀ b, Follows view (x b) (y b)) (bs : List β) : Follows view (bs.forM x) (bs.forM y) := by
  induction bs with
  | nil => exact pure ()
  | cons b bs ih => exact (h b).bind fun _ => ih

end Follows

/-! ## Walks -/

namespace Walk

variable {ρ κ : Type}

/-- The walk with something else made of its trials. -/
def map (f : ρ → κ) (w : Walk ρ) : Walk κ :=
  { pool := w.pool, result := f w.result, abandoned := w.abandoned }

variable {f : ρ → κ} {visit : Trial → ρ → ρ} {visit' : Trial → κ → κ}

theorem follows_resetMutator (id : MutatorId) :
    Follows (map f) (resetMutator id) (resetMutator id) := by
  intro w
  rw [resetMutator, resetMutator]
  cases hm : w.pool.free? id with
  | none => simp only [map, hm]
  | some m => simp only [map, hm]

section

variable (hvisit : ∀ trial r, f (visit trial r) = visit' trial (f r))
include hvisit

theorem follows_visitPresent (name : String) (t : Template) (id : MutatorId) :
    Follows (map f) (visitPresent visit name t id) (visitPresent visit' name t id) := by
  intro w
  rw [visitPresent, visitPresent]
  cases hm : w.pool.free? id with
  | none => simp only [map, hm]
  | some m =>
    cases hp : t.generate w.pool with
    | error e => simp only [map, hm, hp]
    | ok payload => simp only [map, hm, hp, hvisit]

theorem follows_fromPresent (name : String) (t : Template) (id : MutatorId) (more : Nat) :
    Follows (map f) (fromPresent visit name t id more) (fromPresent visit' name t id more) := by
  have hpresent := follows_visitPresent hvisit name t id
  induction more with
  | zero => exact hpresent
  | succ more ih =>
    refine hpresent.bind fun _ => Follows.get_bind fun w => ?_
    -- where the mutator moves to depends on the pool only, which both walks share
    refine Follows.bind (x := modify _) (y := modify _) (Follows.modify ?_) fun _ => ?_
    · intro w
      rfl
    · show Follows (map f)
        (if !(w.pool.state id).mutate.1 || (w.pool.state id).mutate.2.finished then _ else _)
        (if !(w.pool.state id).mutate.1 || (w.pool.state id).mutate.2.finished then _ else _)
      split
      · exact Follows.pure ()
      · exact ih

theorem follows_ofMutator (limit : Option Nat) (name : String) (t : Template) (id : MutatorId) :
    Follows (map f) (ofMutator visit limit name t id) (ofMutator visit' limit name t id) :=
  (follows_resetMutator id).bind fun _ =>
    (follows_fromPresent hvisit name t id _).bind fun _ => follows_resetMutator id

theorem map_ofTemplate (limit : Option Nat) (name : String) (t : Template) (w : Walk ρ) :
    (ofTemplate visit limit name t w).map f = ofTemplate visit' limit name t (w.map f) := by
  rw [ofTemplate, ofTemplate, Follows.forM (follows_ofMutator hvisit limit name t) t.mutators w]
  cases t.mutators.forM (ofMutator visit limit name t) w with
  | ok _ w => rfl
  | error _ w => rfl

/-- A visitor that makes a view of what another one makes is led the same way. -/
theorem map_ofScript (limit : Option Nat) (script : Script) (w : Walk ρ) :
    (ofScript visit limit script w).map f = ofScript visit' limit script (w.map f) := by
  rw [ofScript, ofScript]
  induction script.templates generalizing w with
  | nil => rfl
  | cons entry templates ih =>
    rw [List.foldl_cons, List.foldl_cons, ih, map_ofTemplate hvisit]

end

theorem visitAll_concat (visit : Trial → ρ → ρ) (trials : List Trial) (trial : Trial)
    (result : ρ) :
    visitAll visit (trials ++ [trial]) result = visit trial (visitAll visit trials result) := by
  rw [visitAll_append]
  rfl

/-- A walk makes what the visitor makes of the trials of the script, one after the other. -/
theorem result_ofScript (visit : Trial → ρ → ρ) (limit : Option Nat) (script : Script)
    (pool : Pool) (result : ρ) :
    (ofScript visit limit script { pool, result }).result =
      visitAll visit (trials limit script pool) result := by
  let listed (trials : Array Trial) : ρ := visitAll visit trials.toList result
  have hpush : ∀ trial (trials : Array Trial),
      listed (trials.push trial) = visit trial (listed trials) := by
    intro trial trials
    simp only [listed, Array.toList_push, visitAll_concat]
  -- every walk is a view of the one that lists the trials
  have h := map_ofScript hpush limit script { pool, result := #[] }
  exact congrArg Walk.result h.symm

/-- Which templates are abandoned does not depend on what is made of the trials. -/
theorem abandoned_ofScript (visit : Trial → ρ → ρ) (limit : Option Nat) (script : Script)
    (pool : Pool) (result : ρ) :
    (ofScript visit limit script { pool, result }).abandoned =
      (ofScript (fun _ _ => ()) limit script { pool, result := () }).abandoned := by
  let blank (_ : ρ) : Unit := ()
  let skip (_ : Trial) (_ : Unit) : Unit := ()
  have hblank : ∀ trial r, blank (visit trial r) = skip trial (blank r) := fun _ _ => rfl
  exact congrArg abandoned (map_ofScript hblank limit script { pool, result })

end Walk

end ScriptFuzz
