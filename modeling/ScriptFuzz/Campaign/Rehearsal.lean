import ScriptFuzz.Channel.Memory
import ScriptFuzz.FileFuzz.Basic

/-!
# Rehearsals

A rehearsal is a world with a target whose behaviour is known in advance, launch by launch. It keeps
a record of what is done with the target, so that a campaign can be looked at without a real one.

- `CrashRule`: which bytes crash the target.
- `Behaviour`: what the target does after one launch.
- `Event`: what is recorded.
- `Rehearsal`: the world. It is a `Target`, a `Listener` with channels in memory, a place for
  payload files, and a folder with files to walk through.

A target that is run on payload files ends by itself at once; one that opens a channel runs until it
is stopped. Time stands still except while a channel is waited for.
-/

namespace ScriptFuzz

/-- Which bytes crash a target. -/
inductive CrashRule where
  | never
  | always
  /-- As many bytes as given. -/
  | length (n : Nat)
  /-- Bytes with the given ones among them. -/
  | contains (part : Bytes)
deriving DecidableEq, Repr, Inhabited

/-- Whether bytes hold the bytes of `part` one after the other. -/
def holds (part : Bytes) : Bytes → Bool
  | [] => part.isEmpty
  | b :: bytes => part.isPrefixOf (b :: bytes) || holds part bytes

/-- Whether the bytes crash the target. -/
def CrashRule.hits (bytes : Bytes) : CrashRule → Bool
  | never => false
  | always => true
  | length n => bytes.length == n
  | contains part => holds part bytes

/-- What a target does after a launch. -/
structure Behaviour where
  /-- It does not start. -/
  launchFails : Bool := false
  /-- It has ended before anything else happens. -/
  dies : Bool := false
  /-- Taking its connection fails. -/
  acceptFails : Bool := false
  /-- It opens no channel. -/
  neverConnects : Bool := false
  /-- How often it is waited for in vain before it opens its channel. -/
  connectsAfter : Nat := 0
  /-- The number of the wait in vain in which it ends. -/
  diesAfter : Option Nat := none
  /-- What it sends over the channel. -/
  reply : Bytes := []
  /-- The order of integers on the channel. -/
  order : ByteOrder := .bigEndian
  /-- It runs on a payload file until it is stopped. -/
  hangs : Bool := false
  /-- It does not end when it is stopped. -/
  unkillable : Bool := false
  /-- Stopping it is reported to have failed. -/
  terminateFails : Bool := false
  /-- Waiting for it fails. -/
  waitFails : Bool := false
  /-- It ends without a status. -/
  noStatus : Bool := false
  /-- What crashes it. -/
  crash : CrashRule := .never
  /-- Its status when it crashes. -/
  crashStatus : Int × Ending := (139, .segmentationFault)
deriving DecidableEq, Repr, Inhabited

/-- The status with which a target ends that got the given bytes. -/
def Behaviour.statusOn (b : Behaviour) (bytes : Bytes) : Option (Int × Ending) :=
  if b.noStatus then none
  else if b.crash.hits bytes then some b.crashStatus
  else some (0, .normal)

/-- What came of waiting for a channel. -/
inductive Arrival where
  | failed
  | none
  | channel
deriving DecidableEq, Repr

/-- Something that is done with the target. -/
inductive Event where
  /-- The target is started, or does not start. -/
  | launch (started : Bool)
  /-- Its channel is waited for. -/
  | accept (timeout : Nat) (arrival : Arrival)
  /-- It is asked whether it is running. -/
  | isAlive (answer : Bool)
  /-- It is stopped, after the given bytes were sent to it if it had a channel. -/
  | terminate (sent : Option Bytes)
  /-- Its end is waited for. -/
  | wait (timeout : Nat) (ended : Bool)
  /-- Its arguments are set. -/
  | arguments (text : String)
  /-- It finds a payload file with the given contents. -/
  | payload (data : Bytes)
deriving DecidableEq, Repr

/-- A world with a target whose behaviour is known. -/
structure Rehearsal where
  /-- What the target does after each launch. The last entry also counts for all launches after it.
  -/
  behaviours : List Behaviour := []
  /-- The number of launches so far. -/
  launches : Nat := 0
  /-- What the target does after the last launch. -/
  present : Behaviour := {}
  /-- Whether the target is running. -/
  alive : Bool := false
  /-- How the target ended. -/
  status : Option (Int × Ending) := none
  /-- How often its channel has been waited for. -/
  polls : Nat := 0
  /-- What was sent to it over its channel. -/
  sent : Option Bytes := none
  /-- The contents of the payload file, while there is one. -/
  payload : Option Bytes := none
  /-- What was done with the target. -/
  events : Array Event := #[]
  /-- The time, in nanoseconds. -/
  time : Nat := 0
  /-- The files to walk through. -/
  files : Folder := {}
  /-- The paths at which files cannot be read and folders cannot be listed. -/
  locked : List String := []
deriving Inhabited

namespace Rehearsal

/-- What the target does after the launch with the given number. -/
def behaviour (r : Rehearsal) (launch : Nat) : Behaviour :=
  match r.behaviours[launch]? with
  | some b => b
  | none => r.behaviours.getLastD {}

/-- Records an event. -/
def record (r : Rehearsal) (e : Event) : Rehearsal := { r with events := r.events.push e }

/-- The target ends, after it got the given bytes. -/
def finish (r : Rehearsal) (bytes : Bytes) : Rehearsal :=
  { r with alive := false, status := r.present.statusOn bytes }

/-- A rehearsed failure. -/
def failing {ε α : Type} (fails : Bool) (e : ε) (a : α) (r : Rehearsal) :
    EStateM.Result ε Rehearsal α :=
  if fails then .error e r else .ok a r

/-- Starts the target. -/
def launch (r : Rehearsal) : EStateM.Result TargetError Rehearsal Unit :=
  let present := r.behaviour r.launches
  let alive := !present.launchFails && !present.dies
  let r := { r with
    launches := r.launches + 1, present, alive, status := none, polls := 0, sent := none }
  let r := r.record (.launch !present.launchFails)
  let r := match present.launchFails, r.payload with
    | false, some data =>
      let r := r.record (.payload data)
      if present.hangs then r else r.finish data
    | _, _ => r
  failing present.launchFails .noCommand () r

/-- Stops the target. -/
def terminate (r : Rehearsal) : EStateM.Result TargetError Rehearsal Unit :=
  let r := r.record (.terminate r.sent)
  let r := if r.alive && !r.present.unkillable then r.finish (r.sent.getD []) else r
  failing r.present.terminateFails .noCommand () r

instance : Target Rehearsal where
  launch := launch
  terminate := terminate
  wait timeout := fun r =>
    failing r.present.waitFails .noCommand (!r.alive) (r.record (.wait timeout !r.alive))
  isAlive := fun r => (r.alive, r.record (.isAlive r.alive))
  status r := r.status
  setArguments text := fun r => ((), r.record (.arguments text))

instance : Clock Rehearsal where
  now r := r.time

/-- How many nanoseconds it takes to wait for a channel. Nothing is really waited for, so it is not
the time that the wait may take. -/
def pollTime : Nat := 100

/-- Waits for the channel of the target. -/
def accept (timeout : Nat) (r : Rehearsal) :
    EStateM.Result ChannelError Rehearsal (Option MemoryChannel) :=
  let b := r.present
  let r := { r with polls := r.polls + 1, time := r.time + pollTime }
  if b.acceptFails then .error .closed (r.record (.accept timeout .failed))
  else if !r.alive || b.neverConnects || r.polls ≤ b.connectsAfter then
    let alive := r.alive && b.diesAfter != some r.polls
    .ok none { r.record (.accept timeout .none) with alive }
  else
    let channel : MemoryChannel := { incoming := b.reply, order := b.order }
    .ok (some channel) { r.record (.accept timeout .channel) with sent := some [] }

instance : Listener Rehearsal MemoryChannel where
  accept := accept
  hangUp channel := fun r => ((), { r with sent := some channel.sent.toList })

/-- What a payload file is called before its suffix. -/
def payloadName : String := "<PAYLOAD>"

/-- The number of bytes in the name of a payload file before its suffix. -/
def payloadNameLength : Nat := 11

instance : PayloadFiles Rehearsal where
  create suffix data := fun r =>
    if suffix.contains '\x00' then (none, r)
    else if Path.maxName < payloadNameLength + suffix.utf8ByteSize then (none, r)
    else (some (payloadName ++ suffix), { r with payload := some data })
  remove _ := fun r => ((), { r with payload := none })

/-- What a path leads to, unless it is locked. -/
def lookAt (path : String) (r : Rehearsal) : Except String Node :=
  if path ∈ r.locked then .error "Permission denied (os error 13)"
  else (r.files.resolve path).mapError PathFault.message

instance : InputFiles Rehearsal where
  isFolder path r := match r.files.resolve path with
    | .ok (.folder _) => true
    | _ => false
  list path r := (r.lookAt path).bind fun
    | .folder entries => .ok (entries.map (·.1))
    | .file _ => .error PathFault.notFolder.message
  isFile path r := match r.files.resolve path with
    | .ok (.file _) => true
    | _ => false
  read path r := (r.lookAt path).bind fun
    | .file data => .ok data
    | .folder _ => .error "Is a directory (os error 21)"

end Rehearsal

end ScriptFuzz
