import ScriptFuzz.Campaign.Walk
import ScriptFuzz.Proofs.Templates.Serialization
import ScriptFuzz.Proofs.Campaign.States

/-!
# The trials of a walk

A walk goes through the mutations of a script with a pool that it changes and sets right again. The
trials that are meant are said without that: each has its own pool, in which one mutator has moved
on and all others are in their first states (`Script.trials`).

A mutator can be held elsewhere. Then the templates that need it are given up before anything of
them is tried (`Template.isGivenUp`), and the walk goes on with the other ones.

- `Walk.fromPresent_eq`: the walk of one mutator visits its states from the present one on.
- `Walk.ofMutator_eq`: afterwards the mutator is in its first state again.
- `Walk.ofMutator_of_blocked`: a mutator of a template that cannot be serialized is not tried.
- `Walk.ofScript_eq_of_settled`: a walk visits the trials of the templates that are not given up, in
  their order and nothing else, whatever the visits do. All mutators that nobody holds are in their
  first states again.
- `Walk.ofScript_eq`: where nobody holds a mutator, these are the trials of all templates.
-/

namespace ScriptFuzz

/-! ## The trials that are meant -/

/-- The trial of a template in which one mutator has moved on `k` times. -/
def Pool.trial (pool : Pool) (name : String) (t : Template) (id : MutatorId) (k : Nat) : Trial :=
  let m := (pool.state id).after k
  let moved := pool.set id m
  { template := name, state := m.describe, payload := t.encoding moved, pool := moved }

/-- How many states are tried where the limit and the number of states are given: all states, but no
more than the limit. -/
def Walk.tries (limit states : Option Nat) : Option Nat := Option.merge min limit states

/-- The trials of a template: its mutators in the order of its items, the states of each mutator
from the first to the last. -/
def Template.trials (limit : Option Nat) (pool : Pool) (name : String) (t : Template) :
    List Trial :=
  t.mutators.flatMap fun id =>
    (List.range ((Walk.tries limit (pool.state id).states).getD 0)).map (pool.trial name t id)

/-- The trials of a script: its templates in the order in which they are listed. -/
def Script.trials (limit : Option Nat) (script : Script) : List Trial :=
  script.templates.flatMap fun (name, t) => t.trials limit script.pool name

/-- Whether a template is given up: it has mutators of its own, but cannot be serialized. -/
def Template.isGivenUp (pool : Pool) (t : Template) : Bool :=
  !t.mutators.isEmpty && !(t.generate pool).isOk

/-- The trials of a script from the given states of its mutators. The templates that are given up
have none. -/
def Script.trialsFrom (limit : Option Nat) (script : Script) (pool : Pool) : List Trial :=
  (script.templates.filter fun entry => !entry.2.isGivenUp pool).flatMap fun (name, t) =>
    t.trials limit pool name

/-- A template is given up if a mutator that it reaches is held, unless it has no mutators anyway.
-/
theorem Template.isGivenUp_iff {pool : Pool} {t : Template} :
    t.isGivenUp pool ↔ t.mutators ≠ [] ∧ pool.Blocks t.items := by
  have hgenerate : (t.generate pool).isOk = false ↔ pool.Blocks t.items := by
    by_cases h : pool.Blocks t.items
    · simp [generate_of_blocked h, h, Except.isOk, Except.toBool]
    · simp [generate_eq_encoding h, h, Except.isOk, Except.toBool]
  rw [isGivenUp, Bool.and_eq_true, Bool.not_eq_true', Bool.not_eq_true', hgenerate,
    List.isEmpty_eq_false_iff]

/-- Where nobody holds a mutator, no template is given up. -/
theorem Template.isGivenUp_of_free {pool : Pool} (h : pool.held = []) (t : Template) :
    t.isGivenUp pool = false :=
  Bool.eq_false_iff.2 fun hgiven => Pool.not_blocks h t.items (isGivenUp_iff.1 hgiven).2

theorem Script.trialsFrom_of_free {script : Script} (h : script.pool.held = [])
    (limit : Option Nat) : script.trialsFrom limit script.pool = script.trials limit := by
  have hall : ∀ entry ∈ script.templates, !entry.2.isGivenUp script.pool := by
    intro entry _
    rw [Template.isGivenUp_of_free h]
    rfl
  rw [trialsFrom, List.filter_eq_self.2 hall, trials]

/-! ## Pools -/

/-- A pool in which nobody holds a mutator, and all mutators are in their first states. -/
structure Pool.Ready (pool : Pool) : Prop where
  held : pool.held = []
  first : ∀ m ∈ pool.states, m.IsFirst
  bounded : ∀ m ∈ pool.states, ∀ n, m.states = some n → n ≤ Walk.stepBound

/-- A pool in which all mutators that nobody holds are in their first states. -/
structure Pool.Settled (pool : Pool) : Prop where
  first : ∀ id < pool.states.size, pool.isHeld id = false → (pool.state id).IsFirst
  bounded : ∀ id < pool.states.size, pool.isHeld id = false →
    ∀ n, (pool.state id).states = some n → n ≤ Walk.stepBound

namespace Pool

variable {pool : Pool} {id : MutatorId}

theorem state_mem (h : id < pool.states.size) : pool.state id ∈ pool.states := by
  rw [state, Array.getD_eq_getD_getElem?, Array.getElem?_eq_getElem h]
  exact Array.getElem_mem h

theorem Ready.settled (h : pool.Ready) : pool.Settled where
  first _ hid _ := h.first _ (state_mem hid)
  bounded _ hid _ := h.bounded _ (state_mem hid)

theorem free?_of_not_held (h : pool.isHeld id = false) :
    pool.free? id = some (pool.state id) := by
  rw [free?, h]
  rfl

theorem set_set (m m' : Mutator) : (pool.set id m).set id m' = pool.set id m' := by
  rw [set, set, Array.setIfInBounds_setIfInBounds]
  rfl

theorem set_state (h : id < pool.states.size) : pool.set id (pool.state id) = pool := by
  rw [set, state, Array.getD_eq_getD_getElem?, Array.getElem?_eq_getElem h, Option.getD_some,
    Array.setIfInBounds_def, dif_pos h, Array.set_getElem_self]

end Pool

/-! ## Walks -/

namespace Walk

variable {ρ : Type} {visit : Trial → ρ → ρ} {name : String} {t : Template} {id : MutatorId}
  {pool : Pool}

/-- What visits make of trials, one after the other. -/
def visitAll (visit : Trial → ρ → ρ) (trials : List Trial) (result : ρ) : ρ :=
  trials.foldl (fun result trial => visit trial result) result

theorem visitAll_append (trials more : List Trial) (result : ρ) :
    visitAll visit (trials ++ more) result = visitAll visit more (visitAll visit trials result) :=
  List.foldl_append

/-- How many states are tried from the `k`-th one on, where there may be `limit`. -/
def triesFrom (limit k : Nat) (states : Option Nat) : Nat :=
  match states with
  | none => limit
  | some n => min limit (n - k)

theorem triesFrom_zero (k : Nat) (states : Option Nat) : triesFrom 0 k states = 0 := by
  cases states with
  | none => rfl
  | some n => exact Nat.zero_min _

/-- The `k`-th state is tried, and then those behind it. -/
theorem triesFrom_succ {limit k : Nat} {states : Option Nat} (hk : ∀ n, states = some n → k < n) :
    triesFrom (limit + 1) k states = triesFrom limit (k + 1) states + 1 := by
  cases states with
  | none => rfl
  | some n =>
    have hlt := hk n rfl
    rw [triesFrom, triesFrom]
    omega

/-- Behind the last state there is nothing to try. -/
theorem triesFrom_end {limit k n : Nat} (h : n ≤ k) : triesFrom limit k (some n) = 0 := by
  rw [triesFrom, Nat.sub_eq_zero_of_le h, Nat.min_zero]

/-- A walk tries as many states as are meant: no mutator with an end has more than `stepBound`. -/
theorem triesFrom_eq {limit states : Option Nat} {count : Nat}
    (hcount : tries limit states = some count) (hlimit : ∀ n, limit = some n → 1 ≤ n)
    (hbounded : ∀ n, states = some n → n ≤ stepBound) :
    triesFrom (limit.getD stepBound - 1 + 1) 0 states = count := by
  cases states with
  | none =>
    cases limit with
    | none => cases hcount
    | some n =>
      obtain rfl : n = count := Option.some.inj hcount
      exact Nat.sub_add_cancel (hlimit n rfl)
  | some k =>
    cases limit with
    | none =>
      obtain rfl : k = count := Option.some.inj hcount
      have hbound : stepBound - 1 + 1 = stepBound := Nat.succ_pred_eq_of_pos (Nat.two_pow_pos 64)
      rw [triesFrom, Option.getD_none, hbound]
      exact Nat.min_eq_right (hbounded k rfl)
    | some n =>
      obtain rfl : min n k = count := Option.some.inj hcount
      rw [triesFrom, Option.getD_some, Nat.sub_add_cancel (hlimit n rfl), Nat.sub_zero]

theorem visitPresent_eq (w : Walk ρ) (hid : w.pool.isHeld id = false)
    (ht : ¬w.pool.Blocks t.items) :
    visitPresent visit name t id w =
      .ok () { w with
        result := visit { template := name, state := (w.pool.state id).describe
                          payload := t.encoding w.pool, pool := w.pool } w.result } := by
  rw [visitPresent, Pool.free?_of_not_held hid]
  dsimp only
  rw [Template.generate_eq_encoding ht]

theorem visitPresent_of_blocked (w : Walk ρ) (hid : w.pool.isHeld id = false)
    (ht : w.pool.Blocks t.items) :
    visitPresent visit name t id w = .error .mutatorBusy w := by
  rw [visitPresent, Pool.free?_of_not_held hid]
  dsimp only
  rw [Template.generate_of_blocked ht]

theorem resetMutator_eq (w : Walk ρ) (hid : w.pool.isHeld id = false) :
    resetMutator id w =
      .ok () { w with pool := w.pool.set id (w.pool.state id).reset } := by
  rw [resetMutator, Pool.free?_of_not_held hid]

theorem resetMutator_of_held (w : Walk ρ) (hid : w.pool.isHeld id = true) :
    resetMutator id w = .error .mutatorBusy w := by
  rw [resetMutator, Pool.free?, hid]
  rfl

/-- Behind the visit of a state the mutator moves, and is visited again unless it is finished. -/
theorem fromPresent_succ {w w' : Walk ρ} (h : visitPresent visit name t id w = .ok () w')
    (more : Nat) :
    fromPresent visit name t id (more + 1) w =
      if (w'.pool.state id).next.finished then
        .ok () { w' with pool := w'.pool.set id (w'.pool.state id).next }
      else
        fromPresent visit name t id more
          { w' with pool := w'.pool.set id (w'.pool.state id).next } := by
  rw [fromPresent]
  show EStateM.bind _ _ w = _
  rw [EStateM.bind, h]
  show (if !(w'.pool.state id).mutate.1 || (w'.pool.state id).next.finished then pure ()
    else _ : EStateM _ _ _) _ = _
  rw [Mutator.mutate_fst, Bool.not_not, Bool.or_self]
  split
  · rfl
  · rfl

/-- Nothing is visited behind a visit that fails. -/
theorem fromPresent_of_error {w w' : Walk ρ} {e : TemplateError}
    (h : visitPresent visit name t id w = .error e w') (more : Nat) :
    fromPresent visit name t id more w = .error e w' := by
  cases more with
  | zero => exact h
  | succ more =>
    rw [fromPresent]
    show EStateM.bind _ _ w = _
    rw [EStateM.bind, h]

/-- From its `k`-th state on, the states of a mutator are visited up to the last one or to the
limit. -/
theorem fromPresent_eq (visit : Trial → ρ → ρ) (name : String) (t : Template)
    (hheld : pool.isHeld id = false) (ht : ¬pool.Blocks t.items) (hid : id < pool.states.size)
    (hfirst : (pool.state id).IsFirst) (more k : Nat)
    (hk : ∀ n, (pool.state id).states = some n → k < n) (result : ρ) (abandoned : Array String) :
    ∃ l, fromPresent visit name t id more
        { pool := pool.set id ((pool.state id).after k), result, abandoned } =
      .ok ()
        { pool := pool.set id ((pool.state id).after l)
          result := visitAll visit
            ((List.range' k (triesFrom (more + 1) k (pool.state id).states)).map
              (pool.trial name t id)) result
          abandoned } := by
  have hvisit : ∀ (k : Nat) (result : ρ), visitPresent visit name t id
      { pool := pool.set id ((pool.state id).after k), result, abandoned } =
        .ok ()
          { pool := pool.set id ((pool.state id).after k)
            result := visit (pool.trial name t id k) result
            abandoned } := by
    intro k result
    rw [visitPresent_eq _ hheld ht]
    simp only [Pool.state_set hid, Pool.trial]
  -- the state is visited before anything else, so there is one trial even without a limit
  induction more generalizing k result with
  | zero =>
    rw [fromPresent, hvisit, triesFrom_succ hk, triesFrom_zero]
    exact ⟨k, rfl⟩
  | succ more ih =>
    rw [fromPresent_succ (hvisit k result), triesFrom_succ hk]
    simp only [Pool.state_set hid, Pool.set_set]
    split
    · next hfinished =>
      -- the `k`-th state was the last one
      obtain ⟨n, hn, hle⟩ := (Mutator.finished_after_iff hfirst (k + 1)).1 hfinished
      rw [hn, triesFrom_end hle]
      exact ⟨k + 1, rfl⟩
    · next hfinished =>
      have hk' : ∀ n, (pool.state id).states = some n → k + 1 < n := by
        intro n hn
        refine Nat.lt_of_not_le ?_
        intro hle
        exact hfinished ((Mutator.finished_after_iff hfirst (k + 1)).2 ⟨n, hn, hle⟩)
      obtain ⟨l, hl⟩ := ih (k + 1) hk' (visit (pool.trial name t id k) result)
      refine ⟨l, ?_⟩
      rw [List.range'_succ, List.map_cons]
      exact hl

/-- The walk of a mutator visits its trials and leaves all mutators in their first states. -/
theorem ofMutator_eq (visit : Trial → ρ → ρ) (name : String) (t : Template)
    (hpool : pool.Settled) (hheld : pool.isHeld id = false) (ht : ¬pool.Blocks t.items)
    (hid : id < pool.states.size) {limit : Option Nat} {count : Nat}
    (hcount : tries limit (pool.state id).states = some count)
    (hlimit : ∀ n, limit = some n → 1 ≤ n) (result : ρ) (abandoned : Array String) :
    ofMutator visit limit name t id { pool, result, abandoned } =
      .ok ()
        { pool
          result := visitAll visit ((List.range count).map (pool.trial name t id)) result
          abandoned } := by
  have hfirst := hpool.first id hid hheld
  have htries := triesFrom_eq hcount hlimit (hpool.bounded id hid hheld)
  obtain ⟨l, hl⟩ := fromPresent_eq visit name t hheld ht hid hfirst (limit.getD stepBound - 1) 0
    (fun n hn => hfirst.states_pos hn) result abandoned
  rw [Mutator.after, Pool.set_state hid, htries, ← List.range_eq_range'] at hl
  have hreset : ∀ (l : Nat) (result : ρ),
      resetMutator id { pool := pool.set id ((pool.state id).after l), result, abandoned } =
        .ok () { pool, result, abandoned } := by
    intro l result
    rw [resetMutator_eq _ hheld]
    simp only [Pool.state_set hid, Pool.set_set, Mutator.reset_after hfirst, Pool.set_state hid]
  have hbefore :
      resetMutator id { pool, result, abandoned } = .ok () { pool, result, abandoned } := by
    have := hreset 0 result
    rwa [Mutator.after, Pool.set_state hid] at this
  rw [ofMutator]
  simp only [Bind.bind, EStateM.bind, hbefore, hl, hreset]

/-- The walk of a mutator stops before its first trial where the template cannot be serialized. It
makes no difference whether this mutator or another one that the template reaches is held. -/
theorem ofMutator_of_blocked (visit : Trial → ρ → ρ) (limit : Option Nat) (name : String)
    (hpool : pool.Settled) (ht : pool.Blocks t.items) (hid : id < pool.states.size) (result : ρ)
    (abandoned : Array String) :
    ofMutator visit limit name t id { pool, result, abandoned } =
      .error .mutatorBusy { pool, result, abandoned } := by
  rw [ofMutator]
  cases hheld : pool.isHeld id with
  | true =>
    have hreset : resetMutator id { pool, result, abandoned } =
        .error .mutatorBusy { pool, result, abandoned } := resetMutator_of_held _ hheld
    simp only [Bind.bind, EStateM.bind, hreset]
  | false =>
    -- the mutator is put back to its first state, in which it is already
    have hreset : resetMutator id { pool, result, abandoned } =
        .ok () { pool, result, abandoned } := by
      rw [resetMutator_eq _ hheld]
      simp only [(hpool.first id hid hheld).reset, Pool.set_state hid]
    have hvisit : visitPresent visit name t id { pool, result, abandoned } =
        .error .mutatorBusy { pool, result, abandoned } := visitPresent_of_blocked _ hheld ht
    simp only [Bind.bind, EStateM.bind, hreset, fromPresent_of_error hvisit]

/-- The mutators of a template are in the pool, and there is an end to the trials of each. -/
structure Ends (limit : Option Nat) (pool : Pool) (t : Template) : Prop where
  mem : ∀ id ∈ t.mutators, id < pool.states.size
  tries : ∀ id ∈ t.mutators, (tries limit (pool.state id).states).isSome

/-- The walk of mutators visits the trials of each. -/
theorem forM_ofMutator (hpool : pool.Settled) {limit : Option Nat} (name : String)
    (ht : ¬pool.Blocks t.items) {ids : List MutatorId}
    (hheld : ∀ id ∈ ids, pool.isHeld id = false) (hids : ∀ id ∈ ids, id < pool.states.size)
    (htries : ∀ id ∈ ids, (tries limit (pool.state id).states).isSome)
    (hlimit : ∀ n, limit = some n → 1 ≤ n) (result : ρ) (abandoned : Array String) :
    ids.forM (ofMutator visit limit name t) { pool, result, abandoned } =
      .ok ()
        { pool
          result := visitAll visit
            (ids.flatMap fun id =>
              (List.range ((tries limit (pool.state id).states).getD 0)).map
                (pool.trial name t id)) result
          abandoned } := by
  induction ids generalizing result with
  | nil => rfl
  | cons id ids ih =>
    obtain ⟨hfree, hheld⟩ := List.forall_mem_cons.1 hheld
    obtain ⟨hid, hids⟩ := List.forall_mem_cons.1 hids
    obtain ⟨hcount, htries⟩ := List.forall_mem_cons.1 htries
    obtain ⟨count, hcount⟩ := Option.isSome_iff_exists.1 hcount
    have hfirst := ofMutator_eq visit name t hpool hfree ht hid hcount hlimit result abandoned
    rw [List.flatMap_cons, visitAll_append, hcount, Option.getD_some]
    show EStateM.bind _ (fun _ => ids.forM (ofMutator visit limit name t)) _ = _
    rw [EStateM.bind, hfirst]
    exact ih hheld hids htries _

/-- The walk of a template visits its trials, unless the template is given up. -/
theorem ofTemplate_eq (hpool : pool.Settled) {limit : Option Nat} {t : Template}
    (ht : Ends limit pool t) (hlimit : ∀ n, limit = some n → 1 ≤ n) (name : String) (result : ρ)
    (abandoned : Array String) :
    ofTemplate visit limit name t { pool, result, abandoned } =
      if t.isGivenUp pool then { pool, result, abandoned := abandoned.push name }
      else { pool, result := visitAll visit (t.trials limit pool name) result, abandoned } := by
  rw [ofTemplate]
  by_cases hblocked : pool.Blocks t.items
  · cases hids : t.mutators with
    | nil =>
      -- nothing is tried, so it does not matter that the template cannot be serialized
      rw [if_neg (by simp [Template.isGivenUp, hids]), Template.trials, hids]
      rfl
    | cons id ids =>
      have hid : id < pool.states.size := ht.mem id (by simp [hids])
      have hfirst := ofMutator_of_blocked visit limit name hpool hblocked hid result abandoned
      have hall : (id :: ids).forM (ofMutator visit limit name t) { pool, result, abandoned } =
          .error .mutatorBusy { pool, result, abandoned } := by
        show EStateM.bind _ (fun _ => ids.forM (ofMutator visit limit name t)) _ = _
        rw [EStateM.bind, hfirst]
      rw [if_pos (Template.isGivenUp_iff.2 ⟨by simp [hids], hblocked⟩), hall]
  · have hheld : ∀ id ∈ t.mutators, pool.isHeld id = false :=
      fun id hid => Template.isHeld_of_mem hblocked hid
    rw [if_neg (fun h => hblocked (Template.isGivenUp_iff.1 h).2),
      forM_ofMutator hpool name hblocked hheld ht.mem ht.tries hlimit]
    rfl

/-- The walk of templates visits the trials of those that are not given up. -/
theorem foldl_ofTemplate (hpool : pool.Settled) {limit : Option Nat}
    {templates : List (String × Template)} (hends : ∀ entry ∈ templates, Ends limit pool entry.2)
    (hlimit : ∀ n, limit = some n → 1 ≤ n) (result : ρ) (abandoned : Array String) :
    templates.foldl (fun w (name, t) => ofTemplate visit limit name t w)
        { pool, result, abandoned } =
      { pool
        result := visitAll visit
          ((templates.filter fun entry => !entry.2.isGivenUp pool).flatMap fun (name, t) =>
            t.trials limit pool name) result
        abandoned :=
          abandoned ++ ((templates.filter (·.2.isGivenUp pool)).map (·.1)).toArray } := by
  induction templates generalizing result abandoned with
  | nil => simp [visitAll]
  | cons entry templates ih =>
    obtain ⟨hentry, hends⟩ := List.forall_mem_cons.1 hends
    rw [List.foldl_cons]
    dsimp only
    rw [ofTemplate_eq hpool hentry hlimit]
    by_cases hgiven : entry.2.isGivenUp pool
    · rw [if_pos hgiven, ih hends]
      simp [hgiven]
    · rw [if_neg hgiven, ih hends]
      simp [hgiven, visitAll_append]

/-- The walk of a script visits the trials of the templates that are not given up. -/
theorem ofScript_eq_of_settled {script : Script} (hpool : pool.Settled) {limit : Option Nat}
    (hends : ∀ entry ∈ script.templates, Ends limit pool entry.2)
    (hlimit : ∀ n, limit = some n → 1 ≤ n) (result : ρ) :
    ofScript visit limit script { pool, result } =
      { pool
        result := visitAll visit (script.trialsFrom limit pool) result
        abandoned := ((script.templates.filter (·.2.isGivenUp pool)).map (·.1)).toArray } := by
  rw [ofScript, foldl_ofTemplate hpool hends hlimit, Script.trialsFrom, Array.empty_append]

/-- The trials of a walk are those of the templates that are not given up. -/
theorem trials_eq_of_settled {script : Script} (hpool : pool.Settled) {limit : Option Nat}
    (hends : ∀ entry ∈ script.templates, Ends limit pool entry.2)
    (hlimit : ∀ n, limit = some n → 1 ≤ n) :
    trials limit script pool = script.trialsFrom limit pool := by
  have hpush : ∀ (trials : List Trial) (listed : Array Trial),
      visitAll (fun trial listed => listed.push trial) trials listed = listed ++ trials := by
    intro trials
    induction trials with
    | nil => exact fun listed => Array.appendList_nil.symm
    | cons trial trials ih =>
      intro listed
      rw [Array.appendList_cons, ← ih]
      rfl
  rw [trials, ofScript_eq_of_settled hpool hends hlimit]
  dsimp only
  rw [hpush, Array.toList_appendList, List.nil_append]

/-- The walk of a script visits its trials, where nobody holds a mutator. -/
theorem ofScript_eq {script : Script} (hpool : script.pool.Ready) {limit : Option Nat}
    (hends : ∀ entry ∈ script.templates, Ends limit script.pool entry.2)
    (hlimit : ∀ n, limit = some n → 1 ≤ n) (result : ρ) :
    ofScript visit limit script { pool := script.pool, result } =
      { pool := script.pool, result := visitAll visit (script.trials limit) result } := by
  have hnone : script.templates.filter (·.2.isGivenUp script.pool) = [] := by
    refine List.filter_eq_nil_iff.2 fun entry _ => ?_
    rw [Template.isGivenUp_of_free hpool.held]
    exact Bool.false_ne_true
  rw [ofScript_eq_of_settled hpool.settled hends hlimit, Script.trialsFrom_of_free hpool.held,
    hnone]
  rfl

end Walk

end ScriptFuzz
