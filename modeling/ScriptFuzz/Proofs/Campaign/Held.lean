import ScriptFuzz.Proofs.Campaign.Books
import ScriptFuzz.Proofs.Campaign.Runs

/-!
# Campaigns while mutators are held elsewhere

Whoever holds a mutator keeps a campaign from the templates that need it, and from nothing else.
Two campaigns with one script are compared: one in which some mutators are held, and one in which
none is.

- `Trial.mutation`: what a trial tries, apart from the states of the other mutators.
- `Pool.AgreesWith`: the mutators that nobody holds are as they are in another pool.
- `Script.trialsFrom_eq_filter`: the trials in the one pool are those in the other, without those of
  the templates that are given up.
- `Campaign.Session.run_while_held`: what a campaign does meanwhile.
-/

namespace ScriptFuzz

/-- What a trial tries: the template, the signature of its mutator, and the payload. -/
def Trial.mutation (trial : Trial) : String × String × Bytes :=
  (trial.template, trial.state, trial.payload)

/-- A pool of the same mutators as another one, in which those that nobody holds have the same
states. Those that are held may be in any state. -/
structure Pool.AgreesWith (pool fresh : Pool) : Prop where
  size : pool.states.size = fresh.states.size
  state : ∀ id, pool.isHeld id = false → pool.state id = fresh.state id

namespace Pool.AgreesWith

variable {pool fresh : Pool} {t : Template} {limit : Option Nat}

theorem settled (h : pool.AgreesWith fresh) (hready : fresh.Ready) : pool.Settled := by
  have hfresh := hready.settled
  have hheld : ∀ id, fresh.isHeld id = false := by
    intro id
    rw [isHeld, hready.held]
    rfl
  constructor
  · intro id hid hfree
    rw [h.state id hfree]
    exact hfresh.first id (h.size ▸ hid) (hheld id)
  · intro id hid hfree
    rw [h.state id hfree]
    exact hfresh.bounded id (h.size ▸ hid) (hheld id)

/-- A template that reaches no mutator that is held is written the same from both pools, also when
one of its mutators has moved on. -/
theorem encoding_set (h : pool.AgreesWith fresh) (ht : ¬pool.Blocks t.items) {id : MutatorId}
    (hid : id < pool.states.size) (m : Mutator) :
    t.encoding (pool.set id m) = t.encoding (fresh.set id m) := by
  refine Template.encoding_congr fun other hreach => ?_
  by_cases hother : other = id
  · rw [hother, state_set hid, state_set (h.size ▸ hid)]
  · have hfree : pool.isHeld other = false :=
      Bool.eq_false_iff.2 fun hheld => ht ⟨other, hheld, hreach⟩
    rw [state_set_of_ne hother, state_set_of_ne hother, h.state other hfree]

theorem mutation_trials (h : pool.AgreesWith fresh) (ht : ¬pool.Blocks t.items)
    (hmem : ∀ id ∈ t.mutators, id < pool.states.size) (name : String) :
    (t.trials limit pool name).map Trial.mutation =
      (t.trials limit fresh name).map Trial.mutation := by
  rw [Template.trials, Template.trials, List.map_flatMap, List.map_flatMap]
  refine List.flatMap_congr fun id hid => ?_
  have hstate : pool.state id = fresh.state id := h.state id (Template.isHeld_of_mem ht hid)
  rw [hstate, List.map_map, List.map_map]
  refine List.map_congr_left fun k _ => ?_
  show (name, ((pool.state id).after k).describe,
      t.encoding (pool.set id ((pool.state id).after k))) =
    (name, ((fresh.state id).after k).describe,
      t.encoding (fresh.set id ((fresh.state id).after k)))
  rw [hstate, h.encoding_set ht (hmem id hid)]

end Pool.AgreesWith

theorem Template.template_of_mem_trials {limit : Option Nat} {pool : Pool} {name : String}
    {t : Template} {trial : Trial} (h : trial ∈ t.trials limit pool name) :
    trial.template = name := by
  obtain ⟨id, -, htrial⟩ := List.mem_flatMap.1 h
  obtain ⟨k, -, rfl⟩ := List.mem_map.1 htrial
  rfl

/-- The names of the templates of a script that are given up. -/
def Script.givenUp (script : Script) (pool : Pool) : List String :=
  (script.templates.filter (·.2.isGivenUp pool)).map (·.1)

namespace Script

variable {script : Script} {pool : Pool} {limit : Option Nat}

/-- No two templates have one name, so the name tells whether a template is given up. -/
theorem mem_givenUp (hsorted : script.templates.Pairwise fun a b => a.1 < b.1)
    {entry : String × Template} (hentry : entry ∈ script.templates) :
    entry.1 ∈ script.givenUp pool ↔ entry.2.isGivenUp pool := by
  rw [givenUp, List.mem_map]
  constructor
  · rintro ⟨other, hother, hname⟩
    obtain ⟨hmem, hgiven⟩ := List.mem_filter.1 hother
    have hnodup : (script.templates.map (·.1)).Nodup :=
      List.pairwise_map.2 (hsorted.imp Std.ne_of_lt)
    rwa [← List.inj_on_of_nodup_map hnodup hmem hentry hname]
  · intro hgiven
    exact ⟨entry, List.mem_filter.2 ⟨hentry, hgiven⟩, rfl⟩

/-- A template that is given up has mutators, and reaches one that is held. -/
theorem mem_givenUp_iff {name : String} :
    name ∈ script.givenUp pool ↔ ∃ t, (name, t) ∈ script.templates ∧ t.mutators ≠ [] ∧
      ∃ id, t.Reaches id ∧ pool.isHeld id := by
  rw [givenUp, List.mem_map]
  constructor
  · rintro ⟨⟨name, t⟩, hentry, rfl⟩
    obtain ⟨hmem, hgiven⟩ := List.mem_filter.1 hentry
    obtain ⟨hne, id, hheld, hreach⟩ := Template.isGivenUp_iff.1 hgiven
    exact ⟨t, hmem, hne, id, hreach, hheld⟩
  · rintro ⟨t, hmem, hne, id, hreach, hheld⟩
    have hgiven : t.isGivenUp pool := Template.isGivenUp_iff.2 ⟨hne, id, hheld, hreach⟩
    exact ⟨(name, t), List.mem_filter.2 ⟨hmem, hgiven⟩, rfl⟩

/-- The trials while mutators are held are those that there would be otherwise, without those of the
templates that are given up. -/
theorem trialsFrom_eq_filter (hpool : pool.AgreesWith script.pool)
    (hsorted : script.templates.Pairwise fun a b => a.1 < b.1)
    (hmem : ∀ entry ∈ script.templates, ∀ id ∈ entry.2.mutators, id < pool.states.size) :
    (script.trialsFrom limit pool).map Trial.mutation =
      ((script.trials limit).filter (·.template ∉ script.givenUp pool)).map Trial.mutation := by
  have hentry : ∀ entry ∈ script.templates,
      ((entry.2.trials limit script.pool entry.1).filter
          (·.template ∉ script.givenUp pool)).map Trial.mutation =
        if entry.2.isGivenUp pool then []
        else (entry.2.trials limit pool entry.1).map Trial.mutation := by
    intro entry hentry
    have hname : ∀ trial ∈ entry.2.trials limit script.pool entry.1,
        trial.template ∈ script.givenUp pool ↔ entry.2.isGivenUp pool := by
      intro trial htrial
      rw [Template.template_of_mem_trials htrial, mem_givenUp hsorted hentry]
    by_cases hgiven : entry.2.isGivenUp pool
    · rw [if_pos hgiven, List.filter_eq_nil_iff.2, List.map_nil]
      intro trial htrial
      simpa using (hname trial htrial).2 hgiven
    · rw [if_neg hgiven, List.filter_eq_self.2]
      · by_cases hids : entry.2.mutators = []
        · rw [Template.trials, Template.trials, hids]
          rfl
        · have hfree : ¬pool.Blocks entry.2.items :=
            fun hblocks => hgiven (Template.isGivenUp_iff.2 ⟨hids, hblocks⟩)
          exact (hpool.mutation_trials hfree (hmem entry hentry) entry.1).symm
      · intro trial htrial
        simpa using mt (hname trial htrial).1 hgiven
  rw [trialsFrom, trials]
  generalize script.templates = templates at hentry ⊢
  induction templates with
  | nil => rfl
  | cons entry templates ih =>
    obtain ⟨hfirst, hrest⟩ := List.forall_mem_cons.1 hentry
    rw [List.flatMap_cons, List.filter_append, List.map_append, hfirst, ← ih hrest]
    by_cases hgiven : entry.2.isGivenUp pool
    · simp [hgiven]
    · simp [hgiven]

end Script

/-! ## Campaigns -/

namespace Campaign.Session

/-- A mutator that is held costs exactly the templates that need it. A campaign lists a template as
abandoned, once and in the order of the names, if it has mutators and one that it reaches is held;
it tries nothing of such a template. What it tries of the other templates is what it would try if
nobody held a mutator. The held mutators are left as they are, and all other ones are in their first
states afterwards. -/
theorem run_while_held {ω χ δ : Type} [Clock ω] [Target ω] [Listener ω χ] [Channel χ] [Storage δ]
    {source : String} {script : Script} (hc : compile source = .ok script) (plan : Plan) {n : Nat}
    (hn : 1 ≤ n) (hmax : plan.settings.maxSteps = some n) {pool : Pool}
    (hpool : pool.AgreesWith script.pool) (s : Session ω χ δ) :
    let free := run plan script script.pool s
    let w := run plan script pool s
    let trials := Walk.trials plan.settings.maxSteps script
    script.pool.held = [] ∧ free.abandoned = #[] ∧
    free.result = attemptAll plan script (trials script.pool) s ∧
    w.result = attemptAll plan script (trials pool) s ∧
    w.abandoned.toList.Pairwise (· < ·) ∧
    (∀ name, name ∈ w.abandoned ↔ ∃ t, (name, t) ∈ script.templates ∧ t.mutators ≠ [] ∧
      ∃ id, t.Reaches id ∧ pool.isHeld id) ∧
    (∀ trial ∈ trials pool, trial.template ∉ w.abandoned) ∧
    (trials pool).map Trial.mutation =
      ((trials script.pool).filter (·.template ∉ w.abandoned)).map Trial.mutation ∧
    w.pool = pool ∧
    ∀ id < pool.states.size, pool.isHeld id = false → (w.pool.state id).IsFirst := by
  intro free w trials
  obtain ⟨p, hw⟩ := exists_written_of_compile hc
  obtain ⟨hvalid, rfl⟩ := valid_of_compile hw hc
  obtain ⟨hready, hmem, hsorted⟩ := Source.Program.ready_script hvalid
  have hmem' : ∀ entry ∈ p.script.templates, ∀ id ∈ entry.2.mutators, id < pool.states.size := by
    intro entry hentry id hid
    rw [hpool.size]
    exact hmem entry hentry id hid
  have hlimit : ∀ k, plan.settings.maxSteps = some k → 1 ≤ k := by
    intro k hk
    rw [hmax] at hk
    exact Option.some.inj hk ▸ hn
  have hends : ∀ pool' : Pool, pool'.states.size = pool.states.size →
      ∀ entry ∈ p.script.templates, Walk.Ends plan.settings.maxSteps pool' entry.2 := by
    intro pool' hsize entry hentry
    refine ⟨fun id hid => hsize ▸ hmem' entry hentry id hid, fun id _ => ?_⟩
    rw [hmax]
    cases (pool'.state id).states <;> rfl
  have hsettled := hpool.settled hready
  have hrun : w = _ := Walk.ofScript_eq_of_settled hsettled (hends pool rfl) hlimit s
  have hfree : free = _ := Walk.ofScript_eq hready (hends _ hpool.size.symm) hlimit s
  have htrials : trials pool = p.script.trialsFrom plan.settings.maxSteps pool :=
    Walk.trials_eq_of_settled hsettled (hends pool rfl) hlimit
  have htrialsFree : trials p.script.pool = p.script.trials plan.settings.maxSteps := by
    rw [← Script.trialsFrom_of_free hready.held]
    exact Walk.trials_eq_of_settled hready.settled (hends _ hpool.size.symm) hlimit
  have habandoned : w.abandoned = (p.script.givenUp pool).toArray := congrArg Walk.abandoned hrun
  have hmutations : (trials pool).map Trial.mutation =
      ((trials p.script.pool).filter (·.template ∉ w.abandoned)).map Trial.mutation := by
    simp only [htrials, htrialsFree, habandoned, List.mem_toArray]
    exact Script.trialsFrom_eq_filter hpool hsorted hmem'
  refine ⟨hready.held, congrArg Walk.abandoned hfree, result_run plan p.script p.script.pool s,
    result_run plan p.script pool s, ?_, ?_, ?_, hmutations, congrArg Walk.pool hrun, ?_⟩
  · rw [habandoned]
    exact List.pairwise_map.2 (hsorted.filter _)
  · intro name
    rw [habandoned, List.mem_toArray]
    exact Script.mem_givenUp_iff
  · intro trial htrial
    have hmutation : trial.mutation ∈ (trials pool).map Trial.mutation :=
      List.mem_map_of_mem htrial
    rw [hmutations] at hmutation
    obtain ⟨other, hother, heq⟩ := List.mem_map.1 hmutation
    have hname : other.template = trial.template := congrArg Prod.fst heq
    rw [← hname]
    exact of_decide_eq_true (List.mem_filter.1 hother).2
  · intro id hid hheld
    have hpoolEq : w.pool = pool := congrArg Walk.pool hrun
    rw [hpoolEq]
    exact hsettled.first id hid hheld

/-- Of three templates the second refers to the first. Somebody holds the mutator of the first one,
which has moved on. -/
theorem run_while_first_held :
    ∃ script,
      compile "template a=[{byte}]; template b=[$a,{byte(3)}]; template c=[{word}];" = .ok script ∧
      ∃ pool : Pool, pool.AgreesWith script.pool ∧ pool.held = [0] ∧
        (pool.state 0).bytes .bigEndian = [1] ∧
        ∀ (oracle : Oracle) (s : Session Rehearsal MemoryChannel Folder),
          let w := run { settings := { maxSteps := some 2 }, oracle } script pool s
          let trials := Walk.trials (some 2) script
          w.abandoned = #["a", "b"] ∧ w.pool = pool ∧
            (trials pool).map Trial.payload = [[0, 0], [0, 1]] ∧
            (trials script.pool).map Trial.payload = [[0], [1], [0, 3], [0, 4], [0, 0], [0, 1]] ∧
            (trials pool).map Trial.mutation =
              ((trials script.pool).filter (·.template ∉ w.abandoned)).map Trial.mutation := by
  let p : Source.Program :=
    [.template "a" [.group [.scalar .one none]],
      .template "b" [.field (.reference "a"), .group [.scalar .one (some 3)]],
      .template "c" [.group [.scalar .two none]]]
  have hc : compile "template a=[{byte}]; template b=[$a,{byte(3)}]; template c=[{word}];" =
      .ok p.script := by
    cbv
  let pool : Pool := { p.script.pool.update 0 Mutator.next with held := [0] }
  have hpool : pool.AgreesWith p.script.pool := by
    refine ⟨rfl, fun id hid => Pool.state_set_of_ne ?_ _⟩
    rintro rfl
    cases hid
  have hbytes : (pool.state 0).bytes .bigEndian = [1] := by decide +kernel
  have htried : (Walk.trials (some 2) p.script pool).map Trial.payload = [[0, 0], [0, 1]] := by
    decide +kernel
  have hmeant : (Walk.trials (some 2) p.script p.script.pool).map Trial.payload =
      [[0], [1], [0, 3], [0, 4], [0, 0], [0, 1]] := by
    decide +kernel
  have hgivenUp : (Walk.ofScript (fun _ _ => ()) (some 2) p.script
      { pool, result := () }).abandoned = #["a", "b"] := by
    decide +kernel
  refine ⟨p.script, hc, pool, hpool, rfl, hbytes, ?_⟩
  intro oracle s
  have habandoned : (run { settings := { maxSteps := some 2 }, oracle } p.script pool s).abandoned =
      #["a", "b"] := by
    rw [run, Walk.abandoned_ofScript, hgivenUp]
  obtain ⟨-, -, -, -, -, -, -, hmutations, hpoolEq, -⟩ :=
    run_while_held hc { settings := { maxSteps := some 2 }, oracle } (by decide : 1 ≤ 2) rfl hpool s
  exact ⟨habandoned, hpoolEq, htried, hmeant, hmutations⟩

end Campaign.Session

end ScriptFuzz
