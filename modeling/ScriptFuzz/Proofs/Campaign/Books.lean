import ScriptFuzz.Campaign.Rehearsal
import ScriptFuzz.Proofs.Campaign.Steps
import ScriptFuzz.Proofs.Campaign.Visits
import ScriptFuzz.Proofs.Language.Code

/-!
# The books of a campaign

What becomes of a session in an attempt is followed through all the ways in which it can go, in the
world itself and in a record of it at the same time. In each of them the attempt is an orderly step,
and the step is booked once.

- `Campaign.Session.Booked`: steps are what a sequence of attempts comes to.
- `Campaign.Session.exists_booked_attempt`: one attempt comes to one step.
- `Campaign.Session.run_books`: a campaign is a sequence of orderly steps, one for each trial, and
  its totals are theirs.
-/

namespace ScriptFuzz

namespace Campaign

variable {ω χ δ : Type}

namespace Session

/-! ## Parts of a step -/

/-- The session with its world recorded from now on, after the given deeds. -/
def recorded (s : Session ω χ δ) (log : List (Deed χ)) : Session (Recorded ω χ) χ δ :=
  { s with world := { world := s.world, log } }

/-- An action changes the world only. -/
theorem act_snd {ε α : Type} (s : Session ω χ δ) (action : EStateM ε ω α) :
    (s.act action).2 = { s with world := (s.act action).2.world } := by
  rw [act]
  cases action s.world with
  | ok a w => rfl
  | error e w => rfl

theorem act_recording {ε α : Type} (s : Session ω χ δ) (log : List (Deed χ))
    (deed : Except ε α → ω → Deed χ) (action : EStateM ε ω α) :
    (s.recorded log).act (Recorded.recording deed action) =
      ((s.act action).1,
        (s.act action).2.recorded (log ++ [deed (s.act action).1 (s.act action).2.world])) := by
  cases h : action s.world with
  | ok a w => simp only [act, recorded, Recorded.recording, h]
  | error e w => simp only [act, recorded, Recorded.recording, h]

section

variable [Target ω] (settings : Settings) (s : Session ω χ δ)

theorem shutDown_eq :
    s.shutDown settings =
      ((s.act Target.terminate).2.act (Target.wait settings.exitTimeout)).2 := rfl

theorem host_shutDown : (s.shutDown settings).host = s.host := by
  rw [shutDown_eq, act_snd, act_snd s]

theorem tally_shutDown : (s.shutDown settings).tally = s.tally := by
  rw [shutDown_eq, act_snd, act_snd s]

theorem shutDown_recorded [Listener ω χ] (log : List (Deed χ)) :
    ∃ succeeded, (s.recorded log).shutDown settings =
      (s.shutDown settings).recorded
        (log ++ [.terminate succeeded, .wait (Target.status (s.shutDown settings).world)]) := by
  refine ⟨(s.act Target.terminate).1.isOk, ?_⟩
  rw [shutDown_eq, shutDown_eq]
  show ((((s.recorded log).act (Recorded.recording _ _)).2).act (Recorded.recording _ _)).2 = _
  rw [act_recording, act_recording, List.append_assoc]
  rfl

theorem judge_eq [Storage δ] (oracle : Oracle) (trial : Trial) :
    s.judge oracle trial =
      match (outcome trial (Target.status s.world)).bind oracle with
      | none => s
      | some report =>
        { s with
          store := s.store.map fun store => (store.record report).2
          tally.findings := s.tally.findings.push report } := by
  rw [judge]
  cases Target.status s.world with
  | none => rfl
  | some status => rfl

theorem judge_recorded [Storage δ] [Listener ω χ] (oracle : Oracle) (trial : Trial)
    (log : List (Deed χ)) :
    (s.recorded log).judge oracle trial = (s.judge oracle trial).recorded log := by
  have hstatus : Target.status (s.recorded log).world = Target.status s.world := rfl
  rw [judge_eq, judge_eq, hstatus]
  cases (outcome trial (Target.status s.world)).bind oracle with
  | none => rfl
  | some report => rfl

/-- A finding counts whether it can be kept or not. -/
theorem tally_judge [Storage δ] (oracle : Oracle) (trial : Trial) :
    (s.judge oracle trial).tally =
      { s.tally with
        findings := s.tally.findings ++
          ((outcome trial (Target.status s.world)).bind oracle).toArray } := by
  rw [judge_eq]
  cases (outcome trial (Target.status s.world)).bind oracle with
  | none => simp
  | some report => simp

theorem host_judge [Storage δ] (oracle : Oracle) (trial : Trial) :
    (s.judge oracle trial).host = s.host := by
  rw [judge_eq]
  cases (outcome trial (Target.status s.world)).bind oracle with
  | none => rfl
  | some report => rfl

end

section

variable [Listener ω χ] [Channel χ] {script : Script} {trial : Trial} {s : Session ω χ δ}
  {channel left : χ} {ended : Except ExecError Value} {host : Host χ}

/-- The channel that the host has in the end is given up, whether the script failed or not. -/
theorem runScript_eq (hplay : trial.play script s.host.notes channel = (ended, host))
    (hleft : host.channel = some left) :
    s.runScript script trial channel =
      { s with
        world := (Listener.hangUp left s.world).2
        host := { host with channel := none }
        tally := { s.tally with
          executions := s.tally.executions + 1
          scriptFailures := s.tally.scriptFailures ++ (failure trial ended).toArray } } := by
  have hattach : s.host.attach channel = { channel := some channel, notes := s.host.notes } := rfl
  rw [Trial.play] at hplay
  cases hrun : Machine.runMain { script, pool := trial.pool, handlers := Host.handlers }
      ({ channel := some channel, notes := s.host.notes } : Host χ) with
  | ok v after =>
    rw [hrun] at hplay
    obtain ⟨rfl, rfl⟩ := hplay
    simp [runScript, hattach, hrun, Host.detach, hleft, failure]
  | error e after =>
    rw [hrun] at hplay
    obtain ⟨rfl, rfl⟩ := hplay
    simp [runScript, hattach, hrun, Host.detach, hleft, failure]

theorem runScript_recorded (hplay : trial.play script s.host.notes channel = (ended, host))
    (hleft : host.channel = some left) (log : List (Deed χ)) :
    (s.recorded log).runScript script trial channel =
      (s.runScript script trial channel).recorded (log ++ [.hangUp left]) := by
  have hplayed : trial.play script (s.recorded log).host.notes channel = (ended, host) := hplay
  rw [runScript_eq hplay hleft, runScript_eq hplayed hleft]
  rfl

end

/-! ## Steps of a session -/

variable [Clock ω] [Target ω] [Listener ω χ] [Channel χ] [Storage δ]

section

variable {plan : Plan} {script : Script} {trial : Trial} {s : Session ω χ δ} {w w' : ω}

theorem attempt_of_error {e : TargetError} (hlaunch : Target.launch s.world = .error e w) :
    attempt plan script trial s = countFailedLaunch { s with world := w } := by
  simp only [attempt, act, hlaunch]

theorem attempt_of_channel {channel : χ} (hlaunch : Target.launch s.world = .ok () w)
    (hawait : awaitChannel plan.settings w = .ok (some channel) w') :
    attempt plan script trial s =
      ((({ s with world := w' }.runScript script trial channel).shutDown plan.settings).judge
        plan.oracle trial) := by
  simp only [attempt, act, hlaunch, hawait]

/-- A channel that does not come and one that cannot be waited for are the same. -/
theorem attempt_of_none (hlaunch : Target.launch s.world = .ok () w)
    (hawait : awaitChannel (χ := χ) plan.settings w = .ok none w' ∨
      ∃ e, awaitChannel (χ := χ) plan.settings w = .error e w') :
    attempt plan script trial s =
      ({ s with world := w' }.shutDown plan.settings).countFailedLaunch := by
  obtain hawait | ⟨e, hawait⟩ := hawait
  · simp only [attempt, act, hlaunch, hawait]
  · simp only [attempt, act, hlaunch, hawait]

end

/-- One attempt after the other. -/
def attemptAll (plan : Plan) (script : Script) (trials : List Trial) (s : Session ω χ δ) :
    Session ω χ δ :=
  Walk.visitAll (attempt plan script) trials s

/-- The steps are what the attempts come to: orderly, recorded as they were, and booked. No channel
is left to the host. -/
structure Booked (plan : Plan) (script : Script) (trials : List Trial) (s : Session ω χ δ)
    (log : List (Deed χ)) (steps : List (Step χ)) : Prop where
  tried : steps.map Step.trial = trials
  orderly : Step.AllOrderly script s.host steps (attemptAll plan script trials s).host
  recorded : attemptAll plan script trials (s.recorded log) =
    (attemptAll plan script trials s).recorded (log ++ steps.flatMap Step.deeds)
  tally : (attemptAll plan script trials s).tally = s.tally.book plan.oracle steps
  channel : (attemptAll plan script trials s).host.channel = none

section

variable {plan : Plan} {script : Script} {trial : Trial} {s : Session ω χ δ} {w w' : ω}
  {log : List (Deed χ)}

theorem booked_notStarted (hs : s.host.channel = none) {e : TargetError}
    (hlaunch : Target.launch s.world = .error e w) :
    Booked plan script [trial] s log [{ trial, deeds := [.launch false] }] := by
  have hattempt : attemptAll plan script [trial] s = countFailedLaunch { s with world := w } :=
    attempt_of_error hlaunch
  have hlaunched : Target.launch (s.recorded log).world =
      .error e { world := w, log := log ++ [.launch false] } :=
    Recorded.recording_error hlaunch log
  refine ⟨rfl, ?_, ?_, ?_, ?_⟩
  · rw [hattempt]
    exact .cons (.notStarted trial) (.nil _)
  · rw [hattempt]
    exact attempt_of_error hlaunched
  · rw [hattempt, countFailedLaunch, Tally.book_idle]
  · rw [hattempt]
    exact hs

theorem booked_notConnected (hs : s.host.channel = none)
    (hlaunch : Target.launch s.world = .ok () w)
    (hawait : awaitChannel (χ := χ) plan.settings w = .ok none w' ∨
      ∃ e, awaitChannel (χ := χ) plan.settings w = .error e w') :
    ∃ step, Booked plan script [trial] s log [step] := by
  let waited : Session ω χ δ := { s with world := w' }
  let stopped := waited.shutDown plan.settings
  have hattempt : attemptAll plan script [trial] s = stopped.countFailedLaunch :=
    attempt_of_none hlaunch hawait
  have hhost : stopped.countFailedLaunch.host = s.host := waited.host_shutDown plan.settings
  have hlaunched : Target.launch (s.recorded log).world =
      .ok () { world := w, log := log ++ [.launch true] } := Recorded.recording_ok hlaunch log
  obtain ⟨waits, hwaits, hwaited⟩ :=
    awaitChannel_recorded (χ := χ) plan.settings w (log ++ [.launch true])
  -- in the record it ends in the same way
  have hawaited : awaitChannel plan.settings (Recorded.mk w (log ++ [.launch true])) =
        .ok none { world := w', log := log ++ [.launch true] ++ waits } ∨
      ∃ e, awaitChannel plan.settings (Recorded.mk w (log ++ [.launch true])) =
        .error e { world := w', log := log ++ [.launch true] ++ waits } := by
    rw [hwaited]
    obtain hawait | ⟨e, hawait⟩ := hawait
    · rw [hawait, awaited, id, arrival, List.append_nil]
      exact .inl rfl
    · rw [hawait]
      exact .inr ⟨e, rfl⟩
  obtain ⟨succeeded, hstopped⟩ :=
    waited.shutDown_recorded plan.settings (log ++ [.launch true] ++ waits)
  have horderly : Step.Orderly script s.host _ s.host :=
    .notConnected trial succeeded (Target.status stopped.world) hwaits
  refine ⟨_, rfl, .cons horderly ?_, ?_, ?_, ?_⟩
  · rw [hattempt, hhost]
    exact .nil _
  · rw [hattempt]
    refine (attempt_of_none hlaunched hawaited).trans ?_
    refine (congrArg countFailedLaunch hstopped).trans ?_
    rw [List.append_assoc, List.append_assoc, List.flatMap_singleton]
    rfl
  · rw [hattempt, countFailedLaunch, tally_shutDown, Tally.book_idle]
  · rw [hattempt, hhost]
    exact hs

theorem booked_executed {channel : χ} (hlaunch : Target.launch s.world = .ok () w)
    (hawait : awaitChannel plan.settings w = .ok (some channel) w') :
    ∃ step, Booked plan script [trial] s log [step] := by
  let waited : Session ω χ δ := { s with world := w' }
  let finished := waited.runScript script trial channel
  let stopped := finished.shutDown plan.settings
  have hattempt : attemptAll plan script [trial] s = stopped.judge plan.oracle trial :=
    attempt_of_channel hlaunch hawait
  obtain ⟨ended, host, hplay⟩ :
      ∃ ended host, trial.play script s.host.notes channel = (ended, host) := ⟨_, _, rfl⟩
  have hholds := trial.holds_play script s.host.notes channel
  rw [hplay] at hholds
  obtain ⟨left, hleft, htalk⟩ := hholds
  have hfinished : finished = _ := runScript_eq (s := waited) hplay hleft
  have hhost : (stopped.judge plan.oracle trial).host = { host with channel := none } := by
    rw [host_judge, host_shutDown, hfinished]
  have hlaunched : Target.launch (s.recorded log).world =
      .ok () { world := w, log := log ++ [.launch true] } := Recorded.recording_ok hlaunch log
  obtain ⟨waits, hwaits, hwaited⟩ :=
    awaitChannel_recorded (χ := χ) plan.settings w (log ++ [.launch true])
  rw [hawait] at hwaited
  -- what is recorded when the script begins
  let before := log ++ [.launch true] ++ waits ++ [.accept (some channel)]
  have hrecorded : (waited.recorded before).runScript script trial channel = _ :=
    runScript_recorded (s := waited) hplay hleft before
  obtain ⟨succeeded, hstopped⟩ :=
    finished.shutDown_recorded plan.settings (before ++ [.hangUp left])
  have horderly : Step.Orderly script s.host _ { host with channel := none } :=
    .executed trial succeeded (Target.status stopped.world) hwaits hplay hleft htalk
  refine ⟨_, rfl, .cons horderly ?_, ?_, ?_, ?_⟩
  · rw [hattempt, hhost]
    exact .nil _
  · rw [hattempt]
    refine (attempt_of_channel hlaunched hwaited).trans ?_
    show judge _ _ (shutDown _ ((waited.recorded before).runScript script trial channel)) = _
    rw [hrecorded, hstopped, judge_recorded, List.flatMap_singleton]
    simp only [before, List.append_assoc]
    rfl
  · rw [hattempt, tally_judge, tally_shutDown, hfinished, Tally.book_executed]
  · rw [hattempt, hhost]

theorem exists_booked_attempt (plan : Plan) (script : Script) (trial : Trial) (s : Session ω χ δ)
    (hs : s.host.channel = none) (log : List (Deed χ)) :
    ∃ step, Booked plan script [trial] s log [step] := by
  cases hlaunch : Target.launch s.world with
  | error e w => exact ⟨_, booked_notStarted hs hlaunch⟩
  | ok _ w =>
    cases hawait : awaitChannel (χ := χ) plan.settings w with
    | error e w' => exact booked_notConnected hs hlaunch (.inr ⟨e, hawait⟩)
    | ok channel w' =>
      cases channel with
      | none => exact booked_notConnected hs hlaunch (.inl hawait)
      | some channel => exact booked_executed hlaunch hawait

/-! ## Campaigns -/

namespace Booked

variable {trials : List Trial} {step : Step χ} {steps : List (Step χ)}

theorem nil (hs : s.host.channel = none) : Booked plan script [] s log [] where
  tried := rfl
  orderly := .nil s.host
  recorded := by
    rw [List.flatMap_nil, List.append_nil]
    rfl
  tally := (Tally.book_nil _ _).symm
  channel := hs

theorem cons (h : Booked plan script [trial] s log [step])
    (hrest : Booked plan script trials (attempt plan script trial s) (log ++ step.deeds) steps) :
    Booked plan script (trial :: trials) s log (step :: steps) where
  tried := by
    rw [List.map_cons, hrest.tried, List.singleton_inj.1 h.tried]
  orderly := by
    obtain _ | ⟨hstep, ⟨⟩⟩ := h.orderly
    exact .cons hstep hrest.orderly
  recorded := by
    have hfirst : attempt plan script trial (s.recorded log) = _ := h.recorded
    show attemptAll plan script trials (attempt plan script trial (s.recorded log)) = _
    rw [hfirst, List.flatMap_singleton, List.flatMap_cons, ← List.append_assoc]
    exact hrest.recorded
  tally := by
    have hfirst : (attempt plan script trial s).tally = _ := h.tally
    rw [Tally.book_cons, ← hfirst]
    exact hrest.tally
  channel := hrest.channel

end Booked

/-- Attempts, one after the other, come to one orderly step for each trial. -/
theorem exists_booked (plan : Plan) (script : Script) (trials : List Trial) (s : Session ω χ δ)
    (hs : s.host.channel = none) (log : List (Deed χ)) :
    ∃ steps, Booked plan script trials s log steps := by
  induction trials generalizing s log with
  | nil => exact ⟨[], .nil hs⟩
  | cons trial trials ih =>
    obtain ⟨step, hstep⟩ := exists_booked_attempt plan script trial s hs log
    -- no channel is left, so the other attempts can go on from here
    obtain ⟨steps, hsteps⟩ := ih (attempt plan script trial s) hstep.channel (log ++ step.deeds)
    exact ⟨step :: steps, hstep.cons hsteps⟩

end

/-- A walk makes one attempt for each trial. -/
theorem result_run (plan : Plan) (script : Script) (pool : Pool) (s : Session ω χ δ) :
    (run plan script pool s).result =
      attemptAll plan script (Walk.trials plan.settings.maxSteps script pool) s :=
  Walk.result_ofScript (attempt plan script) plan.settings.maxSteps script pool s

/-- A campaign takes one step for each trial, whatever the target, its channel, the oracle and the
store do. The steps are orderly, and the record of the campaign is their record; the totals are
theirs. After each step the host is without a channel. -/
theorem run_books (plan : Plan) (script : Script) (pool : Pool) (s : Session ω χ δ)
    (hs : s.host.channel = none) :
    let trials := Walk.trials plan.settings.maxSteps script pool
    let after := (run plan script pool s).result
    after = attemptAll plan script trials s ∧
    (∀ k, (attemptAll plan script (trials.take k) s).host.channel = none) ∧
    ∃ steps : List (Step χ),
      steps.map Step.trial = trials ∧
      Step.AllOrderly script s.host steps after.host ∧
      (∀ step ∈ steps, step.ran ↔
        .launch true ∈ step.deeds ∧ ∃ channel, .accept (some channel) ∈ step.deeds) ∧
      (run plan script pool (s.recorded [])).result =
        after.recorded (steps.flatMap Step.deeds) ∧
      after.tally = s.tally.book plan.oracle steps ∧
      after.tally.executions + after.tally.failedLaunches =
        s.tally.executions + s.tally.failedLaunches + steps.length ∧
      (plan.oracle = .crash →
        after.tally.findings.toList.map Report.outcome =
          s.tally.findings.toList.map Report.outcome ++
            (steps.filterMap Step.outcome).filter (·.ending.isAbnormal)) := by
  obtain ⟨steps, hsteps⟩ := exists_booked plan script
    (Walk.trials plan.settings.maxSteps script pool) s hs []
  have hresult := result_run plan script pool s
  have htally := hsteps.tally
  have horderly := hsteps.orderly
  rw [← hresult] at htally horderly
  refine ⟨hresult, ?_, steps, hsteps.tried, horderly, horderly.ran_iff, ?_, htally, ?_, ?_⟩
  · intro k
    obtain ⟨_, htaken⟩ := exists_booked plan script
      ((Walk.trials plan.settings.maxSteps script pool).take k) s hs []
    exact htaken.channel
  · rw [hresult, result_run]
    exact hsteps.recorded
  · rw [htally]
    exact Tally.book_total _ _ _
  · intro horacle
    have hfindings : ∀ findings : List Report,
        (s.tally.findings ++ findings.toArray).toList.map Report.outcome =
          s.tally.findings.toList.map Report.outcome ++ findings.map Report.outcome := by
      simp
    rw [htally, horacle, Tally.book, hfindings, Oracle.outcome_crash]

/-- Of three targets the first does not start, the second ends before it opens its channel, and the
third crashes and cannot be stopped. -/
theorem run_books_three :
    let program : Source.Program :=
      [.template "t" [.group [.scalar .one (some 7)]],
        .function ⟨"main", [], [.evaluate (.call "out" [.name "t"])]⟩]
    let script := program.script
    let plan : Plan := { settings := { maxSteps := some 3 } }
    let s : Session Rehearsal MemoryChannel Folder :=
      { world := { behaviours := [{ launchFails := true }, { dies := true },
        { crash := .always, terminateFails := true }] } }
    let after := (run plan script script.pool s).result
    s.host.channel = none ∧ after.tally.executions = 1 ∧ after.tally.failedLaunches = 2 ∧
      after.tally.findings.size = 1 ∧ ∃ steps : List (Step MemoryChannel),
        Step.AllOrderly script s.host steps after.host ∧
        (run plan script script.pool (s.recorded [])).result =
          after.recorded (steps.flatMap Step.deeds) ∧
        after.tally = s.tally.book plan.oracle steps := by
  intro program script plan s after
  have hexecutions : after.tally.executions = 1 := by decide +kernel
  have hfailed : after.tally.failedLaunches = 2 := by decide +kernel
  have hfindings : after.tally.findings.size = 1 := by decide +kernel
  obtain ⟨-, -, steps, -, horderly, -, hrecorded, htally, -, -⟩ :=
    run_books plan script script.pool s rfl
  exact ⟨rfl, hexecutions, hfailed, hfindings, steps, horderly, hrecorded, htally⟩

end Session

end Campaign

end ScriptFuzz
