import ScriptFuzz.Proofs.Channel.Sources
import ScriptFuzz.Proofs.FileFuzz.Runs

/-!
# Attempts

Running the target on a state of a walk does what the relations between worlds say, and counts it.

- `Session.act_of_ok`: an action of the target as the first of two actions in a row.
- `Session.judge_eq`, `Session.runTarget_of_ok`, `Session.attempt_of_path`: the parts of an attempt.
- `Session.attempt_of_done`, `Session.attempt_of_stops`: an attempt as a whole.
-/

namespace ScriptFuzz.FileFuzz

namespace Session

section Actions

variable {ω δ ε α : Type} {wrap : ε → Failure} {action : EStateM ε ω α} {s : Session ω δ}
  {world : ω}

theorem act_of_ok {a : α} (h : action s.world = .ok a world) :
    act wrap action s = .ok a { s with world } := by
  rw [act, h]

theorem act_of_error {e : ε} (h : action s.world = .error e world) :
    act wrap action s = .error (wrap e) { s with world } := by
  rw [act, h]

end Actions

variable {ω δ : Type} [Target ω] [Storage δ] {plan : Plan} {w : FileWalk} {s : Session ω δ}
  {path : String} {e : TargetError} {w₁ w₂ : ω}

/-- A finding counts whether it can be kept or not. -/
theorem judge_eq (plan : Plan) (w : FileWalk) (s : Session ω δ) :
    ∃ store, judge plan w s = .ok () {
      world := s.world
      store
      tally := { s.tally with
        findings := s.tally.findings ++
          (Tally.ofRuns plan w.name
            [⟨w.bytes, w.describe, .ended (Target.status s.world)⟩]).findings } } := by
  have hjudge : judge plan w s = .ok () _ := rfl
  rw [hjudge]
  dsimp only
  cases Target.status s.world with
  | none => exact ⟨s.store, by simp [Tally.ofRuns, Run.outcome]⟩
  | some status =>
    obtain ⟨exitCode, ending⟩ := status
    simp only [Tally.ofRuns, Run.outcome, List.filterMap_cons, Option.bind_some]
    cases plan.oracle _ with
    | none => exact ⟨s.store, by simp⟩
    | some report => exact ⟨s.store.map fun store => (store.record report).2, by simp⟩

theorem runTarget_of_error
    (hlaunch : Target.launch (Target.setArguments (plan.arguments path) s.world).2 = .error e w₁) :
    runTarget plan w path s = .error (.target e) { s with world := w₁ } :=
  (bind_of_ok rfl).trans (bind_of_error (act_of_error hlaunch))

/-- The target is started, and counted before it is waited for. -/
theorem runTarget_of_ok
    (hlaunch : Target.launch (Target.setArguments (plan.arguments path) s.world).2 = .ok () w₁) :
    runTarget plan w path s =
      (act .target (Target.wait plan.timeout) >>= fun ended =>
        if ended then judge plan w
        else do
          count fun t => { t with timeouts := t.timeouts + 1 }
          act .target Target.terminate
          let _ ← act .target (Target.wait plan.timeout)
          pure ())
        { s with world := w₁, tally.executions := s.tally.executions + 1 } :=
  (bind_of_ok rfl).trans ((bind_of_ok (act_of_ok hlaunch)).trans (bind_of_ok rfl))

theorem runTarget_of_ended
    (hlaunch : Target.launch (Target.setArguments (plan.arguments path) s.world).2 = .ok () w₁)
    (hwait : Target.wait plan.timeout w₁ = .ok true w₂) :
    runTarget plan w path s =
      judge plan w { s with world := w₂, tally.executions := s.tally.executions + 1 } := by
  rw [runTarget_of_ok hlaunch, bind_of_ok (act_of_ok hwait), if_pos rfl]

theorem runTarget_of_timeout
    (hlaunch : Target.launch (Target.setArguments (plan.arguments path) s.world).2 = .ok () w₁)
    (hwait : Target.wait plan.timeout w₁ = .ok false w₂) :
    runTarget plan w path s =
      (act .target Target.terminate >>= fun _ =>
        act .target (Target.wait plan.timeout) >>= fun _ => pure ())
        { s with
          world := w₂
          tally.executions := s.tally.executions + 1
          tally.timeouts := s.tally.timeouts + 1 } := by
  rw [runTarget_of_ok hlaunch, bind_of_ok (act_of_ok hwait), if_neg Bool.false_ne_true]
  exact bind_of_ok rfl

variable [PayloadFiles ω]

/-- Afterwards the payload file is taken away, whether the run failed or not. -/
theorem attempt_of_path
    (hcreate : PayloadFiles.create (suffix w.name) w.bytes s.world = (some path, w₁)) :
    attempt plan w s =
      match runTarget plan w path { s with world := w₁ } with
      | .ok () s' => .ok () { s' with world := (PayloadFiles.remove path s'.world).2 }
      | .error e s' => .error e { s' with world := (PayloadFiles.remove path s'.world).2 } := by
  have hperform : perform (PayloadFiles.create (suffix w.name) w.bytes) s =
      .ok (some path) { s with world := w₁ } := by
    rw [perform, hcreate]
  rw [attempt, bind_of_ok hperform]
  cases hrun : runTarget plan w path { s with world := w₁ } with
  | ok a s' =>
    refine bind_of_ok (a := (a, ())) ?_
    simp only [tryFinally', hrun]
    rfl
  | error e s' =>
    refine bind_of_error ?_
    simp only [tryFinally', hrun]
    rfl

/-- A run that is done adds to the totals what it is worth. -/
theorem attempt_of_done {r : Run} {world : ω} (hrun : r.Done plan w.name s.world world)
    (hvariant : r.variant = (w.bytes, w.describe)) :
    ∃ store, attempt plan w s =
      .ok () { world, store, tally := s.tally.add (.ofRuns plan w.name [r]) } := by
  -- A launch is counted before anything is waited for, so it counts in either case.
  cases hrun with
  | @ended _ path _ w₁ w₂ state hstart hwait =>
    obtain ⟨hpayload, hstate⟩ := Prod.mk.inj hvariant
    obtain ⟨hcreate, hlaunch⟩ := hstart
    subst hpayload hstate
    obtain ⟨store, hjudge⟩ := judge_eq plan w
      { s with world := w₂, tally.executions := s.tally.executions + 1 }
    rw [attempt_of_path hcreate, runTarget_of_ended hlaunch hwait, hjudge]
    exact ⟨store, rfl⟩
  | timedOut state hstart hwait hterminate hagain =>
    obtain ⟨hpayload, hstate⟩ := Prod.mk.inj hvariant
    obtain ⟨hcreate, hlaunch⟩ := hstart
    subst hpayload hstate
    rw [attempt_of_path hcreate, runTarget_of_timeout hlaunch hwait,
      bind_of_ok (act_of_ok hterminate), bind_of_ok (act_of_ok hagain)]
    exact ⟨s.store, rfl⟩

/-- The failure ends the attempt, and nothing is done with the target behind it. -/
theorem attempt_of_stops {failure : Failure} {world : ω}
    (hstop : Stops plan w.name w.bytes failure s.world world) :
    ∃ tally, attempt plan w s = .error failure { s with world, tally } := by
  cases hstop with
  | payload hcreate =>
    have hperform : perform (PayloadFiles.create (suffix w.name) w.bytes) s =
        .ok none { s with world } := by
      rw [perform, hcreate]
    exact ⟨s.tally, bind_of_ok hperform⟩
  | launch hcreate hlaunch =>
    rw [attempt_of_path hcreate, runTarget_of_error hlaunch]
    exact ⟨s.tally, rfl⟩
  | wait hstart hwait =>
    obtain ⟨hcreate, hlaunch⟩ := hstart
    rw [attempt_of_path hcreate, runTarget_of_ok hlaunch, bind_of_error (act_of_error hwait)]
    exact ⟨_, rfl⟩
  | terminate hstart hwait hterminate =>
    obtain ⟨hcreate, hlaunch⟩ := hstart
    rw [attempt_of_path hcreate, runTarget_of_timeout hlaunch hwait,
      bind_of_error (act_of_error hterminate)]
    exact ⟨_, rfl⟩
  | waitAgain hstart hwait hterminate hagain =>
    obtain ⟨hcreate, hlaunch⟩ := hstart
    rw [attempt_of_path hcreate, runTarget_of_timeout hlaunch hwait,
      bind_of_ok (act_of_ok hterminate), bind_of_error (act_of_error hagain)]
    exact ⟨_, rfl⟩

end Session

end ScriptFuzz.FileFuzz
