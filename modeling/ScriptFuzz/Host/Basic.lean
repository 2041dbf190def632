import ScriptFuzz.Channel.Basic
import ScriptFuzz.Machine.Basic

/-!
# Hosts

A host carries out the functions that scripts call. It holds the channel to the target, if there is
one, and the messages noted so far.

A call is checked in this order: the name of the function, the number of arguments, their kinds, the
presence of a channel. Only then is the channel used.
-/

namespace ScriptFuzz

/-- What the functions of a host work on. -/
structure Host (χ : Type) where
  /-- The channel to the target. -/
  channel : Option χ := none
  /-- The messages noted so far. -/
  notes : Array String := #[]
deriving Inhabited

namespace Host

variable {χ : Type}

/-- A host that talks to the given channel. -/
def attach (host : Host χ) (channel : χ) : Host χ := { host with channel := some channel }

/-- A host without a channel, and the channel it had. -/
def detach (host : Host χ) : Option χ × Host χ := (host.channel, { host with channel := none })

/-- Uses the channel. -/
def withChannel {α : Type} (use : EStateM ChannelError χ α) : EStateM ExecError (Host χ) α :=
  fun host =>
    match host.channel with
    | none => .error (.channel .notConnected) host
    | some channel =>
      match use channel with
      | .ok a channel => .ok a { host with channel := some channel }
      | .error e channel => .error (.channel e) { host with channel := some channel }

/-- Notes a message. -/
def note (message : String) : EStateM ExecError (Host χ) Unit :=
  modify fun host => { host with notes := host.notes.push message }

variable [Channel χ]

/-- Carries out a function with the right number of arguments. -/
def perform (function : HostFunction) (arguments : List Value) :
    EStateM ExecError (Host χ) Value :=
  match function, arguments with
  | .out, [.bytes bytes] => do
    withChannel (Sink.send bytes)
    return .undefined
  | .out, [.text text] => do
    withChannel (Sink.send (Text.utf8 text))
    return .undefined
  | .outUInt width, [v] => do
    match v.bits? with
    | none => throw (.badArgument function v.kind)
    | some bits =>
      withChannel (Sink.writeUInt width.bytes bits)
      return .undefined
  | .inUInt width, _ => do return .uint (← withChannel (Source.readUInt width.bytes))
  | .trace, arguments => do
    note (String.join (arguments.map Value.render))
    return .undefined
  | .writeLine, [.text text] => do
    withChannel do
      Sink.send (Text.utf8 text)
      Sink.send [Source.cr, Source.lf]
    return .undefined
  | .readLine, _ => do return .text (← withChannel Source.readLine)
  | function, v :: _ => throw (.badArgument function v.kind)
  | function, [] => throw (.hostArity function.name 1 0)

/-- Calls a function of the host by its name. -/
def call (name : String) (arguments : List Value) : EStateM ExecError (Host χ) Value :=
  match HostFunction.ofName? name with
  | none => throw (.notHostFunction name)
  | some function =>
    match function.arity? with
    | none => perform function arguments
    | some arity =>
      if arguments.length = arity then perform function arguments
      else throw (.hostArity name arity arguments.length)

/-- What the host offers to scripts: all of its functions by their names. -/
def handlers (name : String) : Option (Handler (Host χ)) :=
  (HostFunction.ofName? name).map fun _ => .ready (call name)

end Host

end ScriptFuzz
