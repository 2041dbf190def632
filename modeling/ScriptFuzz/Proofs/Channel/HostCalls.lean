import ScriptFuzz.Proofs.Channel.Lines
import ScriptFuzz.Proofs.Channel.Simulation

/-!
# Calls of host functions

A call is checked one thing after another, and the first check that fails decides the error. Nothing
is written by a call that fails, and nothing is read before the last check, which is whether the
channel does its part. A call that gives a value has written or read just the bytes of its function.

- `CallCheck.fault?`: what each check finds wrong with a call, whatever the others find.
- `HostFunction.Exchange`: what a function does to the channel when it gives a value.
- `CallEnds`: how a call ends. `ends_withChannel` is what all functions that use the channel share.
- `CallRule`: what callers can rely on, read off from how a call ends.
- `hostCalls_exact`: all calls are by the rule, and integers that are written are read back.
-/

namespace ScriptFuzz

open Source

/-! ## Checks -/

namespace HostFunction

/-- Whether the function can do something with a value of the kind. -/
def takes : HostFunction → Kind → Bool
  | out, kind => kind == .text || kind == .bytes
  | outUInt _, kind => kind == .int || kind == .uint
  | writeLine, kind => kind == .text
  | inUInt _, _ | trace, _ | readLine, _ => true

/-- Whether the function is nothing without a channel. -/
def usesChannel : HostFunction → Bool
  | trace => false
  | out | outUInt _ | inUInt _ | writeLine | readLine => true

/-- Why the function fails on a channel. -/
def channelFault? (c : MemoryChannel) : HostFunction → Option ChannelError
  | inUInt width => if c.incoming.length < width.bytes then some .closed else none
  | readLine =>
    match Source.readLine c with
    | .ok _ _ => none
    | .error e _ => some e
  | out | outUInt _ | writeLine | trace => none

end HostFunction

/-- What a call is checked for. -/
inductive CallCheck where
  /-- There is a function of that name. -/
  | name
  /-- It takes as many arguments. -/
  | arity
  /-- It can do something with the kind of its argument. -/
  | kind
  /-- There is a channel if it needs one. -/
  | connection
  /-- The channel does its part. -/
  | channel
deriving DecidableEq

namespace CallCheck

variable (host : Host MemoryChannel) (name : String) (arguments : List Value)

/-- What a check finds wrong with a call, whatever the others find. -/
def fault? : CallCheck → Option ExecError
  | .name =>
    if (HostFunction.ofName? name).isNone then some (.notHostFunction name) else none
  | .arity => do
    let arity ← (← HostFunction.ofName? name).arity?
    if arguments.length = arity then none
    else some (.hostArity name arity arguments.length)
  | .kind => do
    let function ← HostFunction.ofName? name
    let v ← arguments.head?
    if function.takes v.kind then none else some (.badArgument function v.kind)
  | .connection => do
    let function ← HostFunction.ofName? name
    if function.usesChannel && host.channel.isNone then some (.channel .notConnected) else none
  | .channel => do
    let function ← HostFunction.ofName? name
    let e ← function.channelFault? (← host.channel)
    return .channel e

/-- The checks that are made before the channel is used, in their order. -/
def early : List CallCheck := [.name, .arity, .kind, .connection]

/-- All checks in their order. -/
def all : List CallCheck := early ++ [.channel]

/-- Why a call does not get to the channel. -/
def refusal? : Option ExecError := early.findSome? (fault? host name arguments)

/-- What the first check that fails finds wrong. -/
def first? : Option ExecError := all.findSome? (fault? host name arguments)

/-- The arguments are as many as the function takes, and it can do something with the first. -/
structure Fits (function : HostFunction) (arguments : List Value) : Prop where
  arity : ∀ n, function.arity? = some n → arguments.length = n
  kind : ∀ v, arguments.head? = some v → function.takes v.kind = true

theorem Fits.single {function : HostFunction} {v : Value}
    (harity : ∀ n, function.arity? = some n → [v].length = n)
    (hkind : function.takes v.kind = true) : Fits function [v] :=
  ⟨harity, fun _ h => Option.some.inj h ▸ hkind⟩

section Refusals

variable {host name arguments} {function : HostFunction}

theorem first?_of_some {e : ExecError} (h : refusal? host name arguments = some e) :
    first? host name arguments = some e := by
  unfold refusal? at h
  rw [first?, all, List.findSome?_append, h, Option.some_or]

theorem first?_of_none (h : refusal? host name arguments = none) :
    first? host name arguments = fault? host name arguments .channel := by
  unfold refusal? at h
  rw [first?, all, List.findSome?_append, h, Option.none_or, List.findSome?_singleton]

/-- The refusals of a call, one after the other. -/
theorem refusal?_eq : refusal? host name arguments =
    (fault? host name arguments .name).or ((fault? host name arguments .arity).or
      ((fault? host name arguments .kind).or (fault? host name arguments .connection))) := by
  have hrow : early = [.name] ++ ([.arity] ++ ([.kind] ++ [.connection])) := rfl
  simp only [refusal?, hrow, List.findSome?_append, List.findSome?_singleton]

theorem refusal?_of_name (hname : HostFunction.ofName? name = none) :
    refusal? host name arguments = some (.notHostFunction name) := by
  simp [refusal?_eq, fault?, hname]

theorem refusal?_of_arity {n : Nat} (hname : HostFunction.ofName? name = some function)
    (harity : function.arity? = some n) (hn : arguments.length ≠ n) :
    refusal? host name arguments = some (.hostArity name n arguments.length) := by
  simp [refusal?_eq, fault?, hname, harity, hn]

/-- A number of arguments that the function takes is no fault. -/
theorem fault?_arity (hname : HostFunction.ofName? name = some function)
    (harity : ∀ n, function.arity? = some n → arguments.length = n) :
    fault? host name arguments .arity = none := by
  cases hn : function.arity? with
  | none => simp [fault?, hname, hn]
  | some n => simp [fault?, hname, hn, harity n hn]

theorem refusal?_of_kind {v : Value} (hname : HostFunction.ofName? name = some function)
    (harity : ∀ n, function.arity? = some n → arguments.length = n)
    (hv : arguments.head? = some v) (hkind : function.takes v.kind = false) :
    refusal? host name arguments = some (.badArgument function v.kind) := by
  rw [refusal?_eq, fault?_arity hname harity]
  simp [fault?, hname, hv, hkind]

/-- If the arguments fit, only the channel can be missing. -/
theorem refusal?_of_fits (hname : HostFunction.ofName? name = some function)
    (hfits : Fits function arguments) :
    refusal? host name arguments =
      if function.usesChannel && host.channel.isNone then some (.channel .notConnected)
      else none := by
  have hkind : fault? host name arguments .kind = none := by
    cases hv : arguments.head? with
    | none => simp [fault?, hname, hv]
    | some v => simp [fault?, hname, hv, hfits.kind v hv]
  rw [refusal?_eq, fault?_arity hname hfits.arity, hkind]
  simp [fault?, hname]

end Refusals

end CallCheck

/-! ## What functions do to the channel -/

theorem Width.bits_div_eight (width : Width) : width.bits / 8 = width.bytes :=
  Nat.mul_div_cancel_left _ (by decide)

namespace MemoryChannel

/-- What is received does not change what has been sent, nor the order. -/
theorem keeps_receive (c : MemoryChannel) (wanted : Nat) :
    Keeps (fun c' => c'.sent = c.sent ∧ c'.order = c.order)
      (Source.receive wanted : EStateM ChannelError MemoryChannel Bytes) := by
  intro c' hkept
  unfold finalState
  by_cases hle : wanted ≤ c'.incoming.length
  · rw [receive_of_le hle]
    exact hkept
  · rw [receive_of_lt (Nat.lt_of_not_le hle)]
    exact hkept

theorem readUInt_of_le {c : MemoryChannel} {width : Nat} (h : width ≤ c.incoming.length) :
    readUInt width c = .ok (c.order.decode (c.incoming.take width))
      { c with incoming := c.incoming.drop width } := by
  rw [readUInt, bind_of_ok (receive_of_le h)]
  rfl

end MemoryChannel

/-- What a function does to the channel when it gives a value. -/
inductive HostFunction.Exchange :
    HostFunction → List Value → MemoryChannel → Value → MemoryChannel → Prop
  /-- Bytes are written as they are. -/
  | outBytes (c : MemoryChannel) (bytes : Bytes) :
    Exchange .out [.bytes bytes] c .undefined { c with sent := c.sent ++ bytes }
  | outText (c : MemoryChannel) (text : String) :
    Exchange .out [.text text] c .undefined { c with sent := c.sent ++ Text.utf8 text }
  /-- Of an integer as many bytes are written as the name of the function says. -/
  | outUInt (c : MemoryChannel) {width : Width} {v : Value} {bits : UInt64} {written : Bytes}
      (hbits : v.bits? = some bits) (hwritten : written = c.order.encode width.bytes bits)
      (hlength : written.length = width.bits / 8) :
    Exchange (.outUInt width) [v] c .undefined { c with sent := c.sent ++ written }
  /-- As many bytes are read as the name of the function says. -/
  | inUInt (c : MemoryChannel) {width : Width} {taken rest : Bytes}
      (hincoming : c.incoming = taken ++ rest) (hlength : taken.length = width.bits / 8) :
    Exchange (.inUInt width) [] c (.uint (c.order.decode taken)) { c with incoming := rest }
  | writeLine (c : MemoryChannel) (text : String) :
    Exchange .writeLine [.text text] c .undefined
      { c with sent := c.sent ++ (Text.utf8 text ++ [cr, lf]) }
  | readLine {c c' : MemoryChannel} {line : String} (hline : Source.readLine c = .ok line c')
      (hsent : c'.sent = c.sent) (horder : c'.order = c.order) :
    Exchange .readLine [] c (.text line) c'

/-- What a function does to the host when it gives a value. -/
inductive HostFunction.Effect :
    HostFunction → List Value → Host MemoryChannel → Value → Host MemoryChannel → Prop
  /-- A message is noted, and the channel is left alone. -/
  | trace (arguments : List Value) (host : Host MemoryChannel) :
    Effect .trace arguments host .undefined
      { host with notes := host.notes.push (String.join (arguments.map Value.render)) }
  /-- Nothing is noted. -/
  | exchange {function : HostFunction} {arguments : List Value} {host : Host MemoryChannel}
      {c c' : MemoryChannel} {v : Value} (hchannel : host.channel = some c)
      (h : function.Exchange arguments c v c') :
    Effect function arguments host v { host with channel := some c' }

/-! ## How calls end -/

open CallCheck

/-- How a call ends. -/
inductive CallEnds (name : String) (arguments : List Value) (host : Host MemoryChannel) :
    EStateM.Result ExecError (Host MemoryChannel) Value → Prop
  /-- It does not get to the channel. -/
  | refused {e : ExecError} (hrefusal : refusal? host name arguments = some e) :
    CallEnds name arguments host (.error e host)
  /-- The channel fails. -/
  | failed {e : ExecError} {c c' : MemoryChannel} (hrefusal : refusal? host name arguments = none)
      (hfault : fault? host name arguments .channel = some e) (hchannel : host.channel = some c)
      (hsent : c'.sent = c.sent) (horder : c'.order = c.order) :
    CallEnds name arguments host (.error e { host with channel := some c' })
  | done {function : HostFunction} {v : Value} {host' : Host MemoryChannel}
      (hrefusal : refusal? host name arguments = none)
      (hfault : fault? host name arguments .channel = none)
      (hname : HostFunction.ofName? name = some function)
      (heffect : function.Effect arguments host v host') :
    CallEnds name arguments host (.ok v host')

namespace Host

variable {name : String} {function : HostFunction} {arguments : List Value}
  {host : Host MemoryChannel}

theorem withChannel_of_error {α : Type} {use : EStateM ChannelError MemoryChannel α}
    {c c' : MemoryChannel} {e : ChannelError} (h : host.channel = some c)
    (huse : use c = .error e c') :
    withChannel use host = .error (.channel e) { host with channel := some c' } := by
  rw [withChannel, h]
  dsimp only
  rw [huse]

/-- What a function does on the channel decides how a call ends that has got there. -/
theorem ends_withChannel {α : Type} {use : EStateM ChannelError MemoryChannel α} {value : α → Value}
    (hname : HostFunction.ofName? name = some function) (hfits : Fits function arguments)
    (huses : function.usesChannel = true)
    (hok : ∀ c a c', use c = .ok a c' →
      function.channelFault? c = none ∧ function.Exchange arguments c (value a) c')
    (herror : ∀ c e c', use c = .error e c' →
      function.channelFault? c = some e ∧ c'.sent = c.sent ∧ c'.order = c.order) :
    CallEnds name arguments host ((withChannel use >>= fun a => pure (value a)) host) := by
  have hrefusal : refusal? host name arguments =
      if host.channel.isNone then some (.channel .notConnected) else none := by
    rw [refusal?_of_fits hname hfits, huses, Bool.true_and]
  cases hchannel : host.channel with
  | none =>
    rw [hchannel] at hrefusal
    have hnone : withChannel use host = .error (.channel .notConnected) host := by
      rw [withChannel, hchannel]
    rw [bind_of_error hnone]
    exact .refused hrefusal
  | some c =>
    rw [hchannel] at hrefusal
    have hfault : fault? host name arguments .channel =
        (function.channelFault? c).map ExecError.channel := by
      cases h : function.channelFault? c <;> simp [fault?, hname, hchannel, h]
    cases huse : use c with
    | ok a c' =>
      obtain ⟨hnone, hexchange⟩ := hok c a c' huse
      rw [bind_of_ok (withChannel_of_ok hchannel huse)]
      rw [hnone] at hfault
      exact .done hrefusal hfault hname (.exchange hchannel hexchange)
    | error e c' =>
      obtain ⟨hsome, hsent, horder⟩ := herror c e c' huse
      rw [bind_of_error (withChannel_of_error hchannel huse)]
      rw [hsome] at hfault
      exact .failed hrefusal hfault hchannel hsent horder

/-- A channel takes whatever is written. -/
theorem ends_send {use : EStateM ChannelError MemoryChannel Unit} {written : MemoryChannel → Bytes}
    (hname : HostFunction.ofName? name = some function) (hfits : Fits function arguments)
    (huses : function.usesChannel = true) (hfault : ∀ c, function.channelFault? c = none)
    (huse : ∀ c, use c = .ok () { c with sent := c.sent ++ written c })
    (hexchange : ∀ c, function.Exchange arguments c .undefined
      { c with sent := c.sent ++ written c }) :
    CallEnds name arguments host ((withChannel use >>= fun _ => pure .undefined) host) := by
  refine ends_withChannel hname hfits huses ?_ ?_
  · intro c a c' hc'
    rw [huse c] at hc'
    cases hc'
    exact ⟨hfault c, hexchange c⟩
  · intro c e c' hc'
    rw [huse c] at hc'
    cases hc'

theorem ends_badArgument {v : Value} (hname : HostFunction.ofName? name = some function)
    (harity : ∀ n, function.arity? = some n → [v].length = n)
    (hkind : function.takes v.kind = false) :
    CallEnds name [v] host (.error (.badArgument function v.kind) host) :=
  .refused (refusal?_of_kind hname harity rfl hkind)

/-! ### One function after the other -/

theorem ends_out {v : Value} (hname : HostFunction.ofName? name = some .out) :
    CallEnds name [v] host (perform .out [v] host) := by
  have harity : ∀ n, HostFunction.out.arity? = some n → [v].length = n :=
    fun n => Option.some.inj
  cases v with
  | bytes bytes =>
    exact ends_send hname (.single harity rfl) rfl (fun _ => rfl) (fun _ => rfl)
      (.outBytes · bytes)
  | text text =>
    exact ends_send hname (.single harity rfl) rfl (fun _ => rfl) (fun _ => rfl)
      (.outText · text)
  | undefined => exact ends_badArgument hname harity rfl
  | int n => exact ends_badArgument hname harity rfl
  | uint n => exact ends_badArgument hname harity rfl
  | float x => exact ends_badArgument hname harity rfl

theorem ends_outUInt {width : Width} {v : Value}
    (hname : HostFunction.ofName? name = some (.outUInt width)) :
    CallEnds name [v] host (perform (.outUInt width) [v] host) := by
  have harity : ∀ n, (HostFunction.outUInt width).arity? = some n → [v].length = n :=
    fun n => Option.some.inj
  have htakes : (HostFunction.outUInt width).takes v.kind = v.bits?.isSome := by
    cases v <;> rfl
  rw [perform]
  cases hbits : v.bits? with
  | none =>
    rw [hbits] at htakes
    exact ends_badArgument hname harity htakes
  | some bits =>
    rw [hbits] at htakes
    refine ends_send hname (.single harity htakes) rfl (fun _ => rfl) (fun _ => rfl) ?_
    intro c
    refine .outUInt c hbits rfl ?_
    show (c.order.encode width.bytes bits).length = _
    rw [ByteOrder.length_encode, Width.bits_div_eight]

theorem ends_writeLine {v : Value} (hname : HostFunction.ofName? name = some .writeLine) :
    CallEnds name [v] host (perform .writeLine [v] host) := by
  have harity : ∀ n, HostFunction.writeLine.arity? = some n → [v].length = n :=
    fun n => Option.some.inj
  cases v with
  | text text =>
    exact ends_send hname (.single harity rfl) rfl (fun _ => rfl) (·.send_line text)
      (.writeLine · text)
  | undefined => exact ends_badArgument hname harity rfl
  | bytes bytes => exact ends_badArgument hname harity rfl
  | int n => exact ends_badArgument hname harity rfl
  | uint n => exact ends_badArgument hname harity rfl
  | float x => exact ends_badArgument hname harity rfl

theorem ends_trace (hname : HostFunction.ofName? name = some .trace) :
    CallEnds name arguments host (perform .trace arguments host) := by
  have hfits : Fits .trace arguments := ⟨nofun, fun _ _ => rfl⟩
  have hfault : fault? host name arguments .channel = none := by
    cases hchannel : host.channel <;> simp [fault?, hname, hchannel, HostFunction.channelFault?]
  exact .done (refusal?_of_fits hname hfits) hfault hname (.trace arguments host)

theorem ends_readUInt {width : Width} (hname : HostFunction.ofName? name = some (.inUInt width)) :
    CallEnds name [] host (perform (.inUInt width) [] host) := by
  have hfits : Fits (.inUInt width) [] := ⟨fun _ => Option.some.inj, nofun⟩
  refine ends_withChannel hname hfits rfl ?_ ?_
  · intro c value c' hread
    by_cases hle : width.bytes ≤ c.incoming.length
    · rw [MemoryChannel.readUInt_of_le hle] at hread
      cases hread
      refine ⟨if_neg (Nat.not_lt.2 hle), .inUInt c (List.take_append_drop _ _).symm ?_⟩
      rw [List.length_take_of_le hle, Width.bits_div_eight]
    · rw [readUInt_of_error (MemoryChannel.receive_of_lt (Nat.lt_of_not_le hle))] at hread
      cases hread
  · intro c e c' hread
    by_cases hle : width.bytes ≤ c.incoming.length
    · rw [MemoryChannel.readUInt_of_le hle] at hread
      cases hread
    · have hlt := Nat.lt_of_not_le hle
      rw [readUInt_of_error (MemoryChannel.receive_of_lt hlt)] at hread
      cases hread
      exact ⟨if_pos hlt, rfl, rfl⟩

theorem ends_readLine (hname : HostFunction.ofName? name = some .readLine) :
    CallEnds name [] host (perform .readLine [] host) := by
  have hfits : Fits .readLine [] := ⟨fun _ => Option.some.inj, nofun⟩
  have hkept (c : MemoryChannel) :=
    (Simulates.ofKept (MemoryChannel.keeps_receive c)).matches_readLine.keeps c ⟨rfl, rfl⟩
  refine ends_withChannel hname hfits rfl ?_ ?_
  · intro c line c' hread
    have h := hkept c
    rw [finalState, hread] at h
    refine ⟨?_, .readLine hread h.1 h.2⟩
    rw [HostFunction.channelFault?, hread]
  · intro c e c' hread
    have h := hkept c
    rw [finalState, hread] at h
    refine ⟨?_, h⟩
    rw [HostFunction.channelFault?, hread]

theorem ends_perform (hname : HostFunction.ofName? name = some function)
    (harity : ∀ n, function.arity? = some n → arguments.length = n) :
    CallEnds name arguments host (perform function arguments host) := by
  cases function with
  | out =>
    obtain ⟨v, rfl⟩ := List.length_eq_one_iff.1 (harity 1 rfl)
    exact ends_out hname
  | outUInt width =>
    obtain ⟨v, rfl⟩ := List.length_eq_one_iff.1 (harity 1 rfl)
    exact ends_outUInt hname
  | inUInt width =>
    obtain rfl := List.length_eq_zero_iff.1 (harity 0 rfl)
    exact ends_readUInt hname
  | trace => exact ends_trace hname
  | writeLine =>
    obtain ⟨v, rfl⟩ := List.length_eq_one_iff.1 (harity 1 rfl)
    exact ends_writeLine hname
  | readLine =>
    obtain rfl := List.length_eq_zero_iff.1 (harity 0 rfl)
    exact ends_readLine hname

theorem ends_call (name : String) (arguments : List Value) (host : Host MemoryChannel) :
    CallEnds name arguments host (call name arguments host) := by
  cases hname : HostFunction.ofName? name with
  | none =>
    rw [call, hname]
    exact .refused (refusal?_of_name hname)
  | some function =>
    rw [call, hname]
    dsimp only
    cases hn : function.arity? with
    | none =>
      refine ends_perform hname ?_
      intro n h
      cases hn.symm.trans h
    | some n =>
      by_cases hlength : arguments.length = n
      · dsimp only
        rw [if_pos hlength]
        refine ends_perform hname ?_
        intro m h
        rw [hlength, Option.some.inj (hn.symm.trans h)]
      · dsimp only
        rw [if_neg hlength]
        exact .refused (refusal?_of_arity hname hn hlength)

end Host

/-! ## The rule -/

/-- What callers can rely on. -/
structure CallRule (name : String) (arguments : List Value) (host : Host MemoryChannel)
    (result : EStateM.Result ExecError (Host MemoryChannel) Value) : Prop where
  /-- A call fails just if a check does, and the first that does decides the error. -/
  error_iff : ∀ e, (∃ host', result = .error e host') ↔ first? host name arguments = some e
  /-- A call that does not get to the channel leaves the host as it was, with all that can be read
  from the channel. -/
  refused : ∀ e, refusal? host name arguments = some e → result = .error e host
  /-- Nothing is written or noted by a call that fails. -/
  unsent : ∀ e host', result = .error e host' → host'.notes = host.notes ∧
    host'.channel.map MemoryChannel.sent = host.channel.map MemoryChannel.sent ∧
    host'.channel.map MemoryChannel.order = host.channel.map MemoryChannel.order
  /-- A call that gives a value has done what its function does, and nothing else. -/
  ok : ∀ v host', result = .ok v host' → ∃ function,
    HostFunction.ofName? name = some function ∧ function.Effect arguments host v host'

/-- What a call that fails says is what the first check finds wrong. -/
theorem error_iff_of_first {name : String} {arguments : List Value}
    {host host' : Host MemoryChannel} {e : ExecError} (h : first? host name arguments = some e)
    (e' : ExecError) :
    (∃ host'', (.error e host' : EStateM.Result _ _ Value) = .error e' host'') ↔
      first? host name arguments = some e' := by
  constructor
  · rintro ⟨_, ⟨⟩⟩
    exact h
  · intro h'
    obtain rfl := Option.some.inj (h.symm.trans h')
    exact ⟨host', rfl⟩

theorem CallEnds.rule {name : String} {arguments : List Value} {host : Host MemoryChannel}
    {result : EStateM.Result ExecError (Host MemoryChannel) Value}
    (h : CallEnds name arguments host result) : CallRule name arguments host result := by
  cases h with
  | refused hrefusal =>
    refine ⟨error_iff_of_first (first?_of_some hrefusal), ?_, ?_, nofun⟩
    · intro e' h
      obtain rfl := Option.some.inj (hrefusal.symm.trans h)
      rfl
    · rintro _ _ ⟨⟩
      exact ⟨rfl, rfl, rfl⟩
  | failed hrefusal hfault hchannel hsent horder =>
    refine ⟨error_iff_of_first ((first?_of_none hrefusal).trans hfault), ?_, ?_, nofun⟩
    · intro e' h
      cases hrefusal.symm.trans h
    · rintro _ _ ⟨⟩
      rw [hchannel]
      exact ⟨rfl, congrArg some hsent, congrArg some horder⟩
  | done hrefusal hfault hname heffect =>
    have hfirst := (first?_of_none hrefusal).trans hfault
    refine ⟨?_, ?_, nofun, ?_⟩
    · intro e'
      constructor
      · rintro ⟨host', ⟨⟩⟩
      · intro h
        cases hfirst.symm.trans h
    · intro e' h
      cases hrefusal.symm.trans h
    · rintro _ _ ⟨⟩
      exact ⟨_, hname, heffect⟩

/-! ## Integers that are written and read -/

/-- A function is found by its name. -/
theorem HostFunction.ofName?_name : ∀ function ∈ HostFunction.all,
    HostFunction.ofName? function.name = some function := by decide

namespace Host

variable {host : Host MemoryChannel} {c : MemoryChannel} {width : Width}

theorem call_outUInt (hwidth : width ∈ HostFunction.widths) {v : Value} {bits : UInt64}
    (hbits : v.bits? = some bits) (h : host.channel = some c) :
    call (HostFunction.outUInt width).name [v] host = .ok .undefined
      { host with channel := some { c with
          sent := c.sent ++ c.order.encode width.bytes bits } } := by
  have hname : HostFunction.ofName? (HostFunction.outUInt width).name = some (.outUInt width) := by
    refine HostFunction.ofName?_name _ ?_
    simp [HostFunction.all, hwidth]
  rw [call, hname]
  show perform (.outUInt width) [v] host = _
  have hsend : (Sink.writeUInt width.bytes bits : EStateM ChannelError _ Unit) c =
      .ok () { c with sent := c.sent ++ c.order.encode width.bytes bits } := rfl
  rw [perform, hbits]
  dsimp only
  rw [bind_of_ok (withChannel_of_ok h hsend)]
  rfl

theorem call_inUInt (hwidth : width ∈ HostFunction.widths) {bits : UInt64} {rest : Bytes}
    (h : host.channel = some c) (hincoming : c.incoming = c.order.encode width.bytes bits ++ rest) :
    call (HostFunction.inUInt width).name [] host =
      .ok (.uint (UInt64.ofNat (bits.toNat % 2 ^ width.bits)))
        { host with channel := some { c with incoming := rest } } := by
  have hname : HostFunction.ofName? (HostFunction.inUInt width).name = some (.inUInt width) := by
    refine HostFunction.ofName?_name _ ?_
    simp [HostFunction.all, hwidth]
  have hlength := ByteOrder.length_encode c.order width.bytes bits
  have hle : width.bytes ≤ c.incoming.length := by
    rw [hincoming, List.length_append, hlength]
    exact Nat.le_add_right _ _
  have hread := MemoryChannel.readUInt_of_le hle
  rw [hincoming, List.take_left' hlength, List.drop_left' hlength,
    ByteOrder.decode_encode] at hread
  rw [call, hname]
  show perform (.inUInt width) [] host = _
  rw [perform, bind_of_ok (withChannel_of_ok h hread)]
  rfl

end Host

/-- Calls are by the rule, whatever their name and arguments are, and whatever the host has. So an
integer that is written is read back from its bytes, in either order and up to the bits that its
width leaves out, and what comes behind them is left. -/
theorem hostCalls_exact :
    (∀ name arguments (host : Host MemoryChannel),
      CallRule name arguments host (Host.call name arguments host)) ∧
    ∀ width ∈ HostFunction.widths, ∀ (v : Value) (bits : UInt64), v.bits? = some bits →
      ∀ order : ByteOrder, ∃ written : Bytes, written.length = width.bits / 8 ∧
        (∀ (host : Host MemoryChannel) (c : MemoryChannel),
          host.channel = some c → c.order = order →
          Host.call (HostFunction.outUInt width).name [v] host = .ok .undefined
            { host with channel := some { c with sent := c.sent ++ written } }) ∧
        ∀ (host : Host MemoryChannel) (c : MemoryChannel) (rest : Bytes),
          host.channel = some c → c.order = order → c.incoming = written ++ rest →
          Host.call (HostFunction.inUInt width).name [] host =
            .ok (.uint (UInt64.ofNat (bits.toNat % 2 ^ width.bits)))
              { host with channel := some { c with incoming := rest } } := by
  refine ⟨fun name arguments host => (Host.ends_call name arguments host).rule, ?_⟩
  intro width hwidth v bits hbits order
  refine ⟨order.encode width.bytes bits, ?_, ?_, ?_⟩
  · rw [ByteOrder.length_encode, Width.bits_div_eight]
  · rintro host c h rfl
    exact Host.call_outUInt hwidth hbits h
  · rintro host c rest h rfl hincoming
    exact Host.call_inUInt hwidth h hincoming

/-- Of minus two, sixteen bits are left. -/
theorem in16_out16_minus_two :
    ∃ written c' : MemoryChannel,
      Host.call "out16" [.int (-2)] { channel := some ⟨[], .bigEndian, #[]⟩ } =
        .ok .undefined { channel := some written } ∧
      Host.call "in16" [] { channel := some ⟨written.sent.toList ++ [0x21], .bigEndian, #[]⟩ } =
        .ok (.uint 65534) { channel := some c' } ∧
      c'.incoming = [0x21] := by
  obtain ⟨bytes, -, hwrite, hread⟩ :=
    hostCalls_exact.2 .two (by decide) (.int (-2)) _ rfl .bigEndian
  let written : MemoryChannel := ⟨[], .bigEndian, (#[] : Array UInt8) ++ bytes⟩
  refine ⟨written, ⟨[0x21], .bigEndian, #[]⟩, ?_, ?_, rfl⟩
  · exact hwrite { channel := some ⟨[], .bigEndian, #[]⟩ } _ rfl rfl
  · exact hread { channel := some ⟨written.sent.toList ++ [0x21], .bigEndian, #[]⟩ } _ [0x21] rfl
      rfl (by simp [written])

end ScriptFuzz
