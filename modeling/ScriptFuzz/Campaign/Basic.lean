import ScriptFuzz.Campaign.Target
import ScriptFuzz.Campaign.Walk
import ScriptFuzz.Finding.Store
import ScriptFuzz.Host.Basic

/-!
# Campaigns

A campaign runs a script against a target, once for each mutation of its templates. For every trial
the target is started anew and opens a channel; the script talks to it over that channel; then the
target is stopped, and the oracle judges how it ended.

- `Settings`: the times to wait, and how many states of a mutator are tried.
- `Session.attempt`: one trial. Whatever fails in it is counted, and never ends the campaign.
- `Session.run`: the whole campaign.
-/

namespace ScriptFuzz

namespace Campaign

/-- Times, in milliseconds, and limits of a campaign. -/
structure Settings where
  /-- How long a target has to open its channel. -/
  connectTimeout : Nat := 5000
  /-- How long a target has to end once it is stopped. -/
  exitTimeout : Nat := 2000
  /-- How long to wait for the channel before looking after the target. -/
  pollInterval : Nat := 25
  /-- The greatest number of states of a mutator that are tried, unless there is none. -/
  maxSteps : Option Nat := some 4096
deriving DecidableEq, Repr, Inhabited

/-- How many nanoseconds a target has to open its channel. -/
def Settings.patience (s : Settings) : Nat := Clock.millisecond * s.connectTimeout

/-- A script that ended in an error. -/
structure ScriptFailure where
  /-- The name of the template. -/
  template : String
  /-- The signature of the mutator. -/
  state : String
  /-- The error. -/
  error : ExecError
deriving DecidableEq, Repr

/-- The totals of a campaign. -/
structure Tally where
  /-- How often the script ran. -/
  executions : Nat := 0
  /-- How often the target did not start or did not open its channel. -/
  failedLaunches : Nat := 0
  /-- The runs of the script that ended in an error. -/
  scriptFailures : Array ScriptFailure := #[]
  /-- The findings. -/
  findings : Array Report := #[]
deriving DecidableEq, Repr, Inhabited

/-- What a campaign goes by. -/
structure Plan where
  /-- Times and limits. -/
  settings : Settings := {}
  /-- The judgement on the runs. -/
  oracle : Oracle := .crash

/-- Waits once for the channel of the target. When it does not come, the answer also says whether
the target is still running. -/
def poll {ω χ : Type} [Target ω] [Listener ω χ] (settings : Settings) :
    EStateM ChannelError ω (Option χ × Bool) := fun w =>
  match Listener.accept settings.pollInterval w with
  | .error e w => .error e w
  | .ok (some channel) w => .ok (some channel, true) w
  | .ok none w =>
    let (alive, w) := Target.isAlive w
    .ok (none, alive) w

/-- Waits for the channel of the target until the deadline, and at most `more` times again when it
does not come. There is none if the target ends first or does not open it in time. -/
def awaitUntil {ω χ : Type} [Clock ω] [Target ω] [Listener ω χ] (settings : Settings)
    (deadline : Nat) : (more : Nat) → EStateM ChannelError ω (Option χ)
  | 0 => do return (← poll settings).1
  | more + 1 => do
    match ← poll settings with
    | (some channel, _) => return some channel
    | (none, true) =>
      if deadline ≤ Clock.now (← get) then return none
      else awaitUntil settings deadline more
    | (none, false) => return none

/-- Waits for the channel of the target as long as the target has to open it. Where each time takes
a nanosecond or more, the deadline has passed before the last of these times. -/
def awaitChannel {ω χ : Type} [Clock ω] [Target ω] [Listener ω χ] (settings : Settings) :
    EStateM ChannelError ω (Option χ) := do
  awaitUntil settings (Clock.now (← get) + settings.patience) settings.patience

/-- A campaign on its way, in a world `ω` with channels `χ` and a place `δ` for findings. -/
structure Session (ω χ δ : Type) where
  /-- The world outside. -/
  world : ω
  /-- The host of the script. -/
  host : Host χ := {}
  /-- The store of findings, if they are kept. -/
  store : Option (FindingStore δ) := none
  /-- The totals so far. -/
  tally : Tally := {}

namespace Session

variable {ω χ δ : Type}

/-- Acts on the world outside. -/
def act {ε α : Type} (s : Session ω χ δ) (action : EStateM ε ω α) : Except ε α × Session ω χ δ :=
  match action s.world with
  | .ok a world => (.ok a, { s with world })
  | .error e world => (.error e, { s with world })

/-- Counts a target that did not start or did not open its channel. -/
def countFailedLaunch (s : Session ω χ δ) : Session ω χ δ :=
  { s with tally.failedLaunches := s.tally.failedLaunches + 1 }

/-- Stops the target and waits until it has ended. Neither is tried again if it fails. -/
def shutDown [Target ω] (settings : Settings) (s : Session ω χ δ) : Session ω χ δ :=
  let (_, s) := s.act Target.terminate
  let (_, s) := s.act (Target.wait settings.exitTimeout)
  s

/-- Runs the script over a channel, and gives the channel up afterwards. -/
def runScript [Listener ω χ] [Channel χ] (script : Script) (trial : Trial) (channel : χ)
    (s : Session ω χ δ) : Session ω χ δ :=
  let machine : Machine (Host χ) := { script, pool := trial.pool, handlers := Host.handlers }
  let (failure, host) := match machine.runMain (s.host.attach channel) with
    | .ok _ host => (none, host)
    | .error error host =>
      (some { template := trial.template, state := trial.state, error : ScriptFailure }, host)
  let (channel, host) := host.detach
  let world := match channel with
    | some channel => (Listener.hangUp channel s.world).2
    | none => s.world
  let scriptFailures := match failure with
    | some failure => s.tally.scriptFailures.push failure
    | none => s.tally.scriptFailures
  let executions := s.tally.executions + 1
  { s with world, host, tally := { s.tally with executions, scriptFailures } }

/-- Judges how the target ended. A finding counts even if it cannot be kept. -/
def judge [Target ω] [Storage δ] (oracle : Oracle) (trial : Trial) (s : Session ω χ δ) :
    Session ω χ δ :=
  match Target.status s.world with
  | none => s
  | some (exitCode, ending) =>
    let { template, state, payload, .. } := trial
    match oracle { template, state, input := payload, exitCode, ending } with
    | none => s
    | some report =>
      { s with
        store := s.store.map fun store => (store.record report).2
        tally.findings := s.tally.findings.push report }

variable [Clock ω] [Target ω] [Listener ω χ] [Channel χ] [Storage δ]

/-- Makes a trial. -/
def attempt (plan : Plan) (script : Script) (trial : Trial) (s : Session ω χ δ) : Session ω χ δ :=
  match s.act Target.launch with
  | (.error _, s) => s.countFailedLaunch
  | (.ok (), s) =>
    match s.act (awaitChannel plan.settings) with
    | (.ok (some channel), s) =>
      ((s.runScript script trial channel).shutDown plan.settings).judge plan.oracle trial
    | (_, s) => (s.shutDown plan.settings).countFailedLaunch

/-- Makes all trials of a script, from the given states of its mutators. -/
def run (plan : Plan) (script : Script) (pool : Pool) (s : Session ω χ δ) :
    Walk (Session ω χ δ) :=
  Walk.ofScript (attempt plan script) plan.settings.maxSteps script { pool, result := s }

end Session

end Campaign

end ScriptFuzz
