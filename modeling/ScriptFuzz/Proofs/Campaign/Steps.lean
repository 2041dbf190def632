import ScriptFuzz.Proofs.Campaign.Recording
import ScriptFuzz.Proofs.Campaign.Talks

/-!
# Steps of campaigns

A campaign takes a step for each trial. Much can fail in a step, but it comes to an end in one of
three ways, which show in what is done with the target and its channel.

- `Step`: what is known about one step.
- `Step.Orderly`, `Step.AllOrderly`: how steps come to an end. A target that is started is stopped
  and waited for once, whatever it answers, before anything else is started.
- `Tally.book`: the totals after further steps, each of which is counted once.
-/

namespace ScriptFuzz

/-- The reports about crashes are about the runs that did not end normally. -/
theorem Oracle.outcome_crash (outcomes : List Outcome) :
    (outcomes.filterMap crash).map Report.outcome = outcomes.filter (·.ending.isAbnormal) := by
  have hcrash : (fun o => (crash o).map Report.outcome) = Option.guard (·.ending.isAbnormal) := by
    funext o
    by_cases h : o.ending.isAbnormal
    · simp [crash, Option.guard, h]
    · simp [crash, Option.guard, h]
  rw [List.map_filterMap, hcrash, List.filterMap_eq_filter]

namespace Campaign

variable {χ : Type}

/-! ## Steps -/

/-- The entry for a script that ended in an error. -/
def failure (trial : Trial) : Except ExecError Value → Option ScriptFailure
  | .ok _ => none
  | .error error => some { template := trial.template, state := trial.state, error }

/-- What there is to be judged after a trial, if the target has a status. -/
def outcome (trial : Trial) (status : Option (Int × Ending)) : Option Outcome :=
  status.map fun (exitCode, ending) =>
    { template := trial.template, state := trial.state, input := trial.payload, exitCode, ending }

/-- What is known about one step of a campaign. -/
structure Step (χ : Type) where
  /-- What was tried. -/
  trial : Trial
  /-- What was done with the target and its channel, in that order. -/
  deeds : List (Deed χ)
  /-- How the script ended, if it ran. -/
  ended : Option (Except ExecError Value) := none
  /-- The status of the target once it was stopped. -/
  status : Option (Int × Ending) := none

namespace Step

/-- Whether the script ran. -/
def ran (step : Step χ) : Bool := step.ended.isSome

/-- The entry for the script, if it ran and ended in an error. -/
def failure (step : Step χ) : Option ScriptFailure := step.ended.bind (Campaign.failure step.trial)

/-- What there is to be judged: a target that the script did not run against is not. -/
def outcome (step : Step χ) : Option Outcome :=
  if step.ran then Campaign.outcome step.trial step.status else none

end Step

/-- The three ways in which a step comes to an end, with the host before and after it. -/
inductive Step.Orderly [Channel χ] (script : Script) (before : Host χ) : Step χ → Host χ → Prop
  /-- The target does not start, and nothing else is done. -/
  | notStarted (trial : Trial) :
    Orderly script before { trial, deeds := [.launch false] } before
  /-- The target starts but opens no channel. It is stopped and waited for. -/
  | notConnected (trial : Trial) {waits : List (Deed χ)} (succeeded : Bool)
    (status : Option (Int × Ending)) (hwaits : ∀ deed ∈ waits, deed.isWaiting) :
    Orderly script before
      { trial, status
        deeds := .launch true :: waits ++ [.terminate succeeded, .wait status] } before
  /-- The script runs over the channel that the target opens, and nothing but talk happens to the
  channel. Then the channel is given up, and the target is stopped and waited for. -/
  | executed (trial : Trial) {waits : List (Deed χ)} {channel left : χ}
    {ended : Except ExecError Value} {host : Host χ} (succeeded : Bool)
    (status : Option (Int × Ending)) (hwaits : ∀ deed ∈ waits, deed.isWaiting)
    (hplay : trial.play script before.notes channel = (ended, host))
    (hleft : host.channel = some left) (htalk : TalkedTo channel left) :
    Orderly script before
      { trial, status, ended := some ended
        deeds := .launch true :: waits ++
          [.accept (some channel), .hangUp left, .terminate succeeded, .wait status] }
      { host with channel := none }

/-- The script runs just in the steps in which the target starts and a channel comes. -/
theorem Step.Orderly.ran_iff [Channel χ] {script : Script} {step : Step χ} {before after : Host χ}
    (h : step.Orderly script before after) :
    step.ran ↔ .launch true ∈ step.deeds ∧ ∃ channel, .accept (some channel) ∈ step.deeds := by
  cases h with
  | notStarted trial => simp [ran]
  | @notConnected trial waits succeeded status hwaits =>
    have hnone : ∀ channel, Deed.accept (some channel) ∉ waits := fun channel hmem =>
      Bool.false_ne_true (hwaits _ hmem)
    simp [ran, hnone]
  | executed trial succeeded status hwaits hplay hleft htalk => simp [ran]

/-- Orderly steps one after the other. Each finds the host as the one before has left it. -/
inductive Step.AllOrderly [Channel χ] (script : Script) : Host χ → List (Step χ) → Host χ → Prop
  | nil (host : Host χ) : AllOrderly script host [] host
  | cons {before between after : Host χ} {step : Step χ} {steps : List (Step χ)} :
    step.Orderly script before between → AllOrderly script between steps after →
    AllOrderly script before (step :: steps) after

theorem Step.AllOrderly.ran_iff [Channel χ] {script : Script} {steps : List (Step χ)}
    {before after : Host χ} (h : AllOrderly script before steps after) :
    ∀ step ∈ steps, step.ran ↔
      .launch true ∈ step.deeds ∧ ∃ channel, .accept (some channel) ∈ step.deeds := by
  induction h with
  | nil host => exact List.forall_mem_nil _
  | cons hstep _ ih => exact List.forall_mem_cons.2 ⟨hstep.ran_iff, ih⟩

/-- The totals after further steps. -/
def Tally.book (oracle : Oracle) (tally : Tally) (steps : List (Step χ)) : Tally where
  executions := tally.executions + steps.countP Step.ran
  failedLaunches := tally.failedLaunches + steps.countP (!·.ran)
  scriptFailures := tally.scriptFailures ++ (steps.filterMap Step.failure).toArray
  findings := tally.findings ++ ((steps.filterMap Step.outcome).filterMap oracle).toArray

namespace Tally

variable (oracle : Oracle) (tally : Tally)

theorem book_nil : tally.book oracle ([] : List (Step χ)) = tally := by
  simp [book]

theorem book_cons (step : Step χ) (steps : List (Step χ)) :
    tally.book oracle (step :: steps) = (tally.book oracle [step]).book oracle steps := by
  have hsplit : step :: steps = [step] ++ steps := rfl
  simp only [book, hsplit, List.countP_append, List.filterMap_append, ← List.append_toArray,
    Nat.add_assoc, Array.append_assoc]

/-- A step in which the script did not run. -/
theorem book_idle (trial : Trial) (deeds : List (Deed χ)) (status : Option (Int × Ending)) :
    tally.book oracle [{ trial, deeds, status : Step χ }] =
      { tally with failedLaunches := tally.failedLaunches + 1 } := by
  simp [book, Step.ran, Step.failure, Step.outcome]

/-- A step in which the script ran. -/
theorem book_executed (trial : Trial) (deeds : List (Deed χ)) (ended : Except ExecError Value)
    (status : Option (Int × Ending)) :
    tally.book oracle [{ trial, deeds, ended := some ended, status : Step χ }] =
      { tally with
        executions := tally.executions + 1
        scriptFailures := tally.scriptFailures ++ (failure trial ended).toArray
        findings := tally.findings ++ ((outcome trial status).bind oracle).toArray } := by
  have hfailure : ∀ step : Step χ, [step].filterMap Step.failure = step.failure.toList := by
    intro step
    cases h : step.failure <;> simp [h]
  have hfinding : ∀ step : Step χ,
      ([step].filterMap Step.outcome).filterMap oracle = (step.outcome.bind oracle).toList := by
    intro step
    cases h : step.outcome with
    | none => simp [h]
    | some o => cases ho : oracle o <;> simp [h, ho]
  rw [book, hfailure, hfinding]
  simp [Step.ran, Step.failure, Step.outcome]

/-- Each step is counted once. -/
theorem book_total (steps : List (Step χ)) :
    (tally.book oracle steps).executions + (tally.book oracle steps).failedLaunches =
      tally.executions + tally.failedLaunches + steps.length := by
  have h := List.length_eq_countP_add_countP (l := steps) Step.ran
  simp only [book]
  simp at h
  omega

end Tally

end Campaign

end ScriptFuzz
