import ScriptFuzz.Campaign.Walk
import ScriptFuzz.Host.Basic
import ScriptFuzz.Proofs.Channel.Simulation

/-!
# Scripts talk to the channel they are given

A host holds one channel, and its functions use no other. So after a script has run, however it
ended, the host holds the channel that it was given, and nothing but talk has happened to it
(`Trial.holds_play`).

- `TalkedTo`: what a channel becomes by bytes that are received from it and sent to it.
- `Host.Holds`: the host has a channel that became of the given one.
- `Trial.play`: the run of a script in a trial.
-/

namespace ScriptFuzz

variable {χ : Type} [Channel χ]

/-- What becomes of a channel when it is talked to. Attempts that fail count too. -/
inductive TalkedTo (channel : χ) : χ → Prop
  | untouched : TalkedTo channel channel
  | receive {now : χ} (wanted : Nat) :
    TalkedTo channel now → TalkedTo channel (finalState (Source.receive wanted) now)
  | send {now : χ} (bytes : Bytes) :
    TalkedTo channel now → TalkedTo channel (finalState (Sink.send bytes) now)

namespace TalkedTo

variable {channel : χ}

theorem keeps_receive (wanted : Nat) :
    Keeps (TalkedTo channel) (Source.receive wanted : EStateM ChannelError χ Bytes) :=
  fun _ h => .receive wanted h

theorem keeps_send (bytes : Bytes) :
    Keeps (TalkedTo channel) (Sink.send bytes : EStateM ChannelError χ Unit) :=
  fun _ h => .send bytes h

/-- Readers only receive bytes. -/
theorem simulates_self : Source.Simulates (fun s t => s = t ∧ TalkedTo channel s)
    (fun e s e' t => e = e' ∧ s = t ∧ TalkedTo channel s) :=
  .ofKept keeps_receive

theorem keeps_writeUInt (width : Nat) (value : UInt64) :
    Keeps (TalkedTo channel) (Sink.writeUInt width value : EStateM ChannelError χ Unit) :=
  Keeps.get.bind fun _ => keeps_send _

end TalkedTo

/-! ## Hosts -/

namespace Host

variable {channel : χ}

/-- The host has a channel, which became of the given one by talking to it. -/
def Holds (channel : χ) (host : Host χ) : Prop :=
  ∃ now, host.channel = some now ∧ TalkedTo channel now

theorem holds_attach (host : Host χ) : Holds channel (host.attach channel) :=
  ⟨channel, rfl, .untouched⟩

theorem keeps_withChannel {α : Type} {use : EStateM ChannelError χ α}
    (huse : Keeps (TalkedTo channel) use) : Keeps (Holds channel) (withChannel use) := by
  rintro host ⟨now, hnow, htalked⟩
  have h := huse now htalked
  rw [finalState, withChannel, hnow]
  rw [finalState] at h
  dsimp only
  cases hu : use now with
  | ok a next =>
    rw [hu] at h
    exact ⟨next, rfl, h⟩
  | error e next =>
    rw [hu] at h
    exact ⟨next, rfl, h⟩

theorem keeps_note (message : String) : Keeps (Holds channel) (note message) :=
  fun _ h => h

theorem keeps_perform (function : HostFunction) (arguments : List Value) :
    Keeps (Holds channel) (perform function arguments) := by
  rw [perform.eq_def]
  split
  · exact (keeps_withChannel (TalkedTo.keeps_send _)).bind fun _ => .pure _
  · exact (keeps_withChannel (TalkedTo.keeps_send _)).bind fun _ => .pure _
  · split
    · exact .throw _
    · exact (keeps_withChannel (TalkedTo.keeps_writeUInt _ _)).bind fun _ => .pure _
  · refine (keeps_withChannel ?_).bind fun _ => .pure _
    exact (TalkedTo.simulates_self.matches_readUInt _).keeps
  · exact (keeps_note _).bind fun _ => .pure _
  · refine (keeps_withChannel ?_).bind fun _ => .pure _
    exact (TalkedTo.keeps_send _).bind fun _ => TalkedTo.keeps_send _
  · refine (keeps_withChannel ?_).bind fun _ => .pure _
    exact TalkedTo.simulates_self.matches_readLine.keeps
  · exact .throw _
  · exact .throw _

theorem keeps_call (name : String) (arguments : List Value) :
    Keeps (Holds channel) (call name arguments) := by
  rw [call]
  split
  · exact .throw _
  · split
    · exact keeps_perform _ _
    · split
      · exact keeps_perform _ _
      · exact .throw _

/-- A script leaves the host with the channel that it was given. -/
theorem keeps_runMain (script : Script) (pool : Pool) :
    Keeps (Holds channel) (Machine.runMain { script, pool, handlers }) := by
  refine Machine.keeps_runMain ?_
  intro name call values hname
  obtain ⟨_, -, ⟨⟩⟩ := Option.map_eq_some_iff.1 hname
  exact keeps_call name values

end Host

/-! ## Trials -/

namespace Trial

/-- How a script ends when it is run over a channel in a trial, and the host that it leaves. -/
def play (script : Script) (trial : Trial) (notes : Array String) (channel : χ) :
    Except ExecError Value × Host χ :=
  let machine : Machine (Host χ) := { script, pool := trial.pool, handlers := Host.handlers }
  match machine.runMain { channel := some channel, notes } with
  | .ok v host => (.ok v, host)
  | .error error host => (.error error, host)

/-- However the script ends, the host has the channel that it was given, and nothing but talk has
happened to it. -/
theorem holds_play (script : Script) (trial : Trial) (notes : Array String) (channel : χ) :
    (trial.play script notes channel).2.Holds channel := by
  have h : Host.Holds channel (finalState _ ({ channel := some channel, notes } : Host χ)) :=
    Host.keeps_runMain script trial.pool _ (Host.holds_attach { notes })
  rw [finalState] at h
  rw [play]
  cases hrun : Machine.runMain { script, pool := trial.pool, handlers := Host.handlers }
      ({ channel := some channel, notes } : Host χ) with
  | ok v host =>
    rw [hrun] at h
    exact h
  | error e host =>
    rw [hrun] at h
    exact h

end Trial

end ScriptFuzz
