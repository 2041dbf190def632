import ScriptFuzz.Channel.Basic
import ScriptFuzz.Finding.Basic
import ScriptFuzz.Text.Quoted

/-!
# Targets

The programs under test and the ways to reach them, as seen by a campaign. `ω` is the state of the
world outside, which every action may change in any way.

- `Target`: starts the program, stops it, waits for it, and says how it ended.
- `Clock`: says what time it is.
- `Listener`: takes the connection that the program opens.
-/

namespace ScriptFuzz

/-- Why an action on the target fails. -/
inductive TargetError where
  /-- No command is configured. -/
  | noCommand
  /-- The command cannot be started. -/
  | spawn (command : List String) (reason : String)
  /-- Waiting fails. -/
  | wait (reason : String)
  /-- The target cannot be stopped. -/
  | kill (reason : String)
deriving DecidableEq, Repr

/-- The wording of the error. -/
def TargetError.message : TargetError → String
  | noCommand => "no target command configured"
  | spawn command reason =>
    let words := ", ".intercalate (command.map Text.quoted)
    s!"failed to spawn command [{words}]: {reason}"
  | wait reason => s!"error waiting for target: {reason}"
  | kill reason => s!"failed to kill target: {reason}"

/-- Worlds with a program under test. Times are in milliseconds. -/
class Target (ω : Type) where
  /-- Starts the program. -/
  launch : EStateM TargetError ω Unit
  /-- Stops the program if it is still running. -/
  terminate : EStateM TargetError ω Unit
  /-- Waits for the program to end, no longer than the time given. The answer is whether it has
  ended. -/
  wait : (timeout : Nat) → EStateM TargetError ω Bool
  /-- Whether the program is running. -/
  isAlive : StateM ω Bool
  /-- The exit code and the ending of the last run, once it has ended. -/
  status : ω → Option (Int × Ending)
  /-- Sets the arguments of the next run. -/
  setArguments : String → StateM ω Unit

/-- Worlds in which time passes. -/
class Clock (ω : Type) where
  /-- The time, in nanoseconds. -/
  now : ω → Nat

/-- The number of nanoseconds in a millisecond. -/
def Clock.millisecond : Nat := 1000000

/-- Worlds in which the program under test can open a channel. -/
class Listener (ω : Type) (χ : outParam Type) where
  /-- Takes a connection, if one comes in the time given. -/
  accept : (timeout : Nat) → EStateM ChannelError ω (Option χ)
  /-- Gives a channel up. -/
  hangUp : χ → StateM ω Unit

end ScriptFuzz
